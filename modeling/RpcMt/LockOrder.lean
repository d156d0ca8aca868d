import RpcMt.PollLock

/-! Deadlocks among `poll_lock` and the `mtxp_lock`s. `svctcp_getargs` takes `poll_lock` first and the
lock of its connection second, `svctcp_freeargs` and `svctcp_reply` take them the other way round, and
a filter that has to read takes `poll_lock` through `tcp_lock`, in `svctcp_getargs` while it holds
it. A deadlock is one of two things: a thread that waits for `poll_lock` and holds it, or two threads
on one connection that each have one of the two locks and wait for the other. -/

open RpcMt.Runs RpcMt.XdrRec RpcMt.Mutexes

namespace RpcMt.PollLock

/-- The mutex that is to be locked next. -/
def nextLock : List Op → Option Mutex
  | .lock m :: _ => some m
  | _ => none

def State.wants (s : State) (t : Thread) : Option Mutex := nextLock (s.ops t)

/-- What a thread may have ahead of it that holds at most `poll_lock`, where `p` is true, and at most
the `mtxp_lock` of `q`. -/
def Shape (p : Bool) (q : Option Addr) : List Op → Prop
  | [] => p = false ∧ q = none
  | .lock .pollLock :: rest => nextLock rest ≠ some .pollLock ∧ Shape true q rest
  | .lock (.mtxpLock x) :: rest =>
      q = none ∧ (nextLock rest = some .pollLock → p = false) ∧ Shape p (some x) rest
  | .unlock .pollLock :: rest => nextLock rest = none ∧ Shape false q rest
  | .unlock (.mtxpLock x) :: rest => q = some x ∧ nextLock rest = none ∧ Shape p none rest
  | .filter _ _ :: rest => nextLock rest = none ∧ Shape p q rest
  | .resume _ _ _ :: rest => nextLock rest = none ∧ Shape p q rest
  | .read _ _ _ :: rest => nextLock rest = none ∧ Shape false q rest
  | .poll :: rest => q = none ∧ nextLock rest = none ∧ Shape false none rest
  | .serve :: rest => p = false ∧ q = none ∧ nextLock rest = none ∧ Shape false none rest
  | .svcRunUnlock _ :: rest => nextLock rest = none ∧ Shape false q rest

theorem Shape.mono {p : Bool} {q : Option Addr} {l : List Op} (h : Shape p q l) : Shape false q l := by
  induction l generalizing p q with
  | nil => exact ⟨rfl, h.2⟩
  | cons op rest ih =>
      cases op with
      | lock m =>
          cases m with
          | pollLock => exact h
          | mtxpLock x => exact ⟨h.1, fun _ => rfl, ih h.2.2⟩
      | unlock m =>
          cases m with
          | pollLock => exact h
          | mtxpLock x => exact ⟨h.1, h.2.1, ih h.2.2⟩
      | filter x f => exact ⟨h.1, ih h.2⟩
      | resume x f strm => exact ⟨h.1, ih h.2⟩
      | read x f strm => exact h
      | poll => exact h
      | serve => exact ⟨rfl, h.2⟩
      | svcRunUnlock rv => exact h

theorem shape_code (c : Call) {rest : List Op} (hnext : nextLock rest = none) (h : Shape false none rest) :
    Shape false none (c.code ++ rest) := by
  cases c with
  | rendezvousRequest => exact ⟨nofun, hnext, h⟩
  | svctcpRecv x f => exact ⟨rfl, nofun, rfl, rfl, hnext, h⟩
  | svctcpStat x => exact ⟨hnext, h⟩
  | svctcpGetargs x f => exact ⟨nofun, rfl, nofun, rfl, rfl, rfl, hnext, h⟩
  | svctcpFreeargs x => exact ⟨rfl, fun _ => rfl, nofun, rfl, rfl, hnext, h⟩
  | svctcpReply x => exact ⟨rfl, fun _ => rfl, nofun, rfl, rfl, hnext, h⟩
  | svctcpDestroy x => exact ⟨rfl, nofun, rfl, hnext, h⟩

/-- A thread that begins to wait for a lock holds none. -/
theorem Goes.shape {p : Bool} {q : Option Addr} {l l' : List Op} (h : Goes l l') (hl : Shape p q l) :
    Shape p q l' ∧ (nextLock l' = none ∨ p = false ∧ q = none) := by
  cases h with
  | call c =>
      obtain ⟨rfl, rfl⟩ := hl
      have hcode := shape_code c rfl (show Shape false none [] from ⟨rfl, rfl⟩)
      rw [List.append_nil] at hcode
      exact ⟨hcode, Or.inr ⟨rfl, rfl⟩⟩
  | serve c rest =>
      obtain ⟨rfl, rfl, hnext, hrest⟩ := hl
      exact ⟨shape_code c rfl ⟨rfl, rfl, hnext, hrest⟩, Or.inr ⟨rfl, rfl⟩⟩
  | svcPoll =>
      obtain ⟨rfl, rfl⟩ := hl
      exact ⟨⟨nofun, rfl, rfl, rfl, rfl⟩, Or.inr ⟨rfl, rfl⟩⟩
  | idle rest hrv =>
      obtain ⟨rfl, hnext, hrest⟩ := hl
      exact ⟨⟨hnext, hrest⟩, Or.inl rfl⟩
  | ready rest hrv =>
      obtain ⟨rfl, hnext, hrest⟩ := hl
      exact ⟨⟨rfl, rfl, rfl, rfl, hnext, hrest⟩, Or.inl rfl⟩
  | served rest =>
      obtain ⟨rfl, rfl, hnext, hrest⟩ := hl
      exact ⟨hrest, Or.inl hnext⟩
  | read x f strm strm' rest =>
      obtain ⟨hnext, hrest⟩ := hl
      exact ⟨⟨rfl, hnext, hrest⟩, Or.inl rfl⟩
  | filtered x f rest => exact ⟨hl.2, Or.inl hl.1⟩
  | resumed x f strm rest => exact ⟨hl.2, Or.inl hl.1⟩

/-- What thread `t` holds is at most `poll_lock`, where `p` is true, and the `mtxp_lock` of `q`. -/
structure HoldsAtMost (holder : Mutex → Option Thread) (t : Thread) (p : Bool) (q : Option Addr) : Prop where
  poll : holder .pollLock = some t → p = true
  mtxp : ∀ x, holder (.mtxpLock x) = some t → q = some x

def ShapeInv (s : State) : Prop :=
  ∀ t, ∃ p q, Shape p q (s.ops t) ∧ HoldsAtMost s.holder t p q

variable {s s' : State} {e : Event} {t : Thread}

theorem HoldsAtMost.mono {holder holder' : Mutex → Option Thread} {p : Bool} {q : Option Addr}
    (h : HoldsAtMost holder t p q) (hle : ∀ m, holder' m = some t → holder m = some t) :
    HoldsAtMost holder' t p q := ⟨fun hp => h.poll (hle _ hp), fun x hx => h.mtxp x (hle _ hx)⟩

/-- The threads other than the one that acts gain no lock. -/
theorem ShapeInv.update {p : Bool} {q : Option Addr} {l : List Op} (h : ShapeInv s) (hl : Shape p q l)
    (hself : HoldsAtMost s'.holder t p q) (hops : s'.ops = Function.update s.ops t l)
    (hothers : ∀ m u, u ≠ t → s'.holder m = some u → s.holder m = some u) : ShapeInv s' := by
  intro u
  by_cases hu : u = t
  · subst hu
    refine ⟨p, q, ?_, hself⟩
    rw [hops, Function.update_self]
    exact hl
  · obtain ⟨p', q', hshape, hholds⟩ := h u
    refine ⟨p', q', ?_, hholds.mono fun m hm => hothers m u hu hm⟩
    rw [hops, Function.update_of_ne hu]
    exact hshape

theorem ShapeInv.ahead {l : List Op} (h : ShapeInv s) (hops : s.ops t = l) :
    ∃ p q, Shape p q l ∧ HoldsAtMost s.holder t p q := hops ▸ h t

theorem holder_of_release {m m' : Mutex} {u : Thread} {l : List Op}
    (h : ((s.releaseLock t m).setOps t l).holder m' = some u) : m' ≠ m ∧ s.holder m' = some u := by
  change Function.update s.holder m none m' = some u at h
  by_cases hm : m' = m
  · rw [hm, Function.update_self] at h
    cases h
  · rw [Function.update_of_ne hm] at h
    exact ⟨hm, h⟩

theorem holder_of_take {m m' : Mutex} {u : Thread} {l : List Op}
    (h : ((s.takeLock t m).setOps t l).holder m' = some u) :
    (m' = m ∧ u = t) ∨ (m' ≠ m ∧ s.holder m' = some u) := by
  change Function.update s.holder m (some t) m' = some u at h
  by_cases hm : m' = m
  · rw [hm, Function.update_self] at h
    exact Or.inl ⟨hm, (Option.some.inj h).symm⟩
  · rw [Function.update_of_ne hm] at h
    exact Or.inr ⟨hm, h⟩

/-- What follows an unlock. -/
theorem shape_release {op : Op} {m : Mutex} {rest : List Op} {p : Bool} {q : Option Addr}
    (hop : releases op = some m) (hl : Shape p q (op :: rest)) (hh : HoldsAtMost s.holder t p q) :
    nextLock rest = none ∧
      ∃ p q, Shape p q rest ∧ HoldsAtMost ((s.releaseLock t m).setOps t rest).holder t p q := by
  have hpoll : HoldsAtMost ((s.releaseLock t .pollLock).setOps t rest).holder t false q :=
    ⟨fun h => absurd rfl (holder_of_release h).1, fun x hx => hh.mtxp x (holder_of_release hx).2⟩
  cases op with
  | unlock m =>
      cases hop
      cases m with
      | pollLock => exact ⟨hl.1, false, q, hl.2, hpoll⟩
      | mtxpLock x =>
          obtain ⟨rfl, hnext, hrest⟩ := hl
          refine ⟨hnext, p, none, hrest, fun h => hh.poll (holder_of_release h).2, fun y hy => ?_⟩
          obtain ⟨hne, hy⟩ := holder_of_release hy
          cases hh.mtxp y hy
          exact absurd rfl hne
  | svcRunUnlock rv =>
      cases hop
      exact ⟨hl.1, false, q, hl.2, hpoll⟩
  | _ => cases hop

theorem shapeInv_step (h : ShapeInv s) (hst : step s e = some s') : ShapeInv s' := by
  cases step_steps hst with
  | @locks t m rest he hops hfree hs =>
      subst hs
      obtain ⟨p, q, hl, hh⟩ := h.ahead hops
      have hothers : ∀ m' u, u ≠ t → ((s.takeLock t m).setOps t rest).holder m' = some u →
          s.holder m' = some u := by
        intro m' u hu hm
        rcases holder_of_take hm with ⟨_, heq⟩ | ⟨_, hm⟩
        · exact absurd heq hu
        · exact hm
      cases m with
      | pollLock =>
          refine h.update hl.2 ⟨fun _ => rfl, fun x hx => ?_⟩ rfl hothers
          rcases holder_of_take hx with ⟨hne, _⟩ | ⟨_, hx⟩
          · cases hne
          · exact hh.mtxp x hx
      | mtxpLock x =>
          obtain ⟨rfl, _, hrest⟩ := hl
          refine h.update hrest ⟨fun hp => ?_, fun y hy => ?_⟩ rfl hothers
          · rcases holder_of_take hp with ⟨hne, _⟩ | ⟨_, hp⟩
            · cases hne
            · exact hh.poll hp
          · rcases holder_of_take hy with ⟨heq, _⟩ | ⟨_, hy⟩
            · cases heq
              rfl
            · cases hh.mtxp y hy
  | @releases t op m rest he hops hop hs =>
      subst hs
      obtain ⟨p, q, hl, hh⟩ := h.ahead hops
      obtain ⟨_, p', q', hrest, hh'⟩ := shape_release hop hl hh
      exact h.update hrest hh' rfl fun _ _ _ hm => (holder_of_release hm).2
  | @needs t op x f strm rest he hops hop hread hs =>
      subst hs
      obtain ⟨p, q, hl, hh⟩ := h.ahead hops
      have hrest : nextLock rest = none ∧ Shape p q rest := by
        rcases hop with rfl | rfl
        · exact hl
        · exact hl
      have hl' : Shape p q (.lock .pollLock :: .read x f strm :: rest) := ⟨nofun, hrest.1, hrest.2.mono⟩
      exact h.update hl' hh rfl fun _ _ _ hm => hm
  | @goes t l hread hgo hops hholder hinside =>
      obtain ⟨p, q, hl, hh⟩ := h t
      rw [← hholder] at hh
      exact h.update (hgo.shape hl).1 hh hops fun m u _ hm => hholder ▸ hm

/-! ### Deadlocks -/

def State.Deadlock (s : State) : Prop := Mutexes.Deadlock s.holder s.wants

inductive Stuck (s : State) : Prop
  | self {t : Thread} (hwant : s.wants t = some .pollLock) (hhold : s.holder .pollLock = some t)
  | cross {t u : Thread} {x : Addr} (hpoll : s.holder .pollLock = some t)
      (hwant : s.wants t = some (.mtxpLock x)) (hmtxp : s.holder (.mtxpLock x) = some u)
      (hwant' : s.wants u = some .pollLock)

/-- A thread that waits for an `mtxp_lock` holds none. -/
theorem ShapeInv.mtxp_free {x y : Addr} (h : ShapeInv s) (hw : s.wants t = some (.mtxpLock x)) :
    s.holder (.mtxpLock y) ≠ some t := by
  intro hy
  unfold State.wants nextLock at hw
  split at hw
  · rename_i m rest hops
    cases hw
    obtain ⟨p, q, hl, hh⟩ := h.ahead hops
    have hq := hh.mtxp y hy
    rw [hl.1] at hq
    cases hq
  · cases hw

theorem stuck_of_deadlock (h : ShapeInv s) (hd : s.Deadlock) : Stuck s := by
  -- From a thread on the cycle that waits for `poll_lock` it is at most two steps back to it.
  have hpoll : ∀ t, s.wants t = some .pollLock →
      Relation.TransGen (WaitsFor s.holder s.wants) t t → Stuck s := by
    intro t hw hcycle
    obtain ⟨m, u, hm, hu, hcycle⟩ := exists_next hcycle
    rw [hw] at hm
    cases hm
    obtain ⟨m, v, hm, hv, hcycle⟩ := exists_next hcycle
    cases m with
    | pollLock =>
        rw [hu] at hv
        cases hv
        exact .self hm hu
    | mtxpLock x =>
        obtain ⟨m, w, hm', _, _⟩ := exists_next hcycle
        cases m with
        | pollLock => exact .cross hu hm hv hm'
        | mtxpLock y => exact absurd hv (h.mtxp_free hm')
  obtain ⟨t, hcycle⟩ := hd
  obtain ⟨m, u, hm, hu, hcycle'⟩ := exists_next hcycle
  cases m with
  | pollLock => exact hpoll t hm hcycle
  | mtxpLock x =>
      obtain ⟨m, v, hm', _, _⟩ := exists_next hcycle'
      cases m with
      | pollLock => exact hpoll u hm' hcycle'
      | mtxpLock y => exact absurd hu (h.mtxp_free hm')

/-- Some thread has `m'` and waits for `m`. -/
def State.crossed (s : State) (m m' : Mutex) : Bool :=
  match s.holder m' with
  | some u => decide (s.wants u = some m)
  | none => false

/-- The holder of `poll_lock` is the thread itself, or waits for a lock of that thread. -/
def State.barred (s : State) (t : Thread) : Bool :=
  match s.holder .pollLock with
  | some u => decide (u = t) || (match s.wants u with
      | some m => decide (s.holder m = some t)
      | none => false)
  | none => false

/-- No thread takes the first of two locks while another one is between the same two in the other
order, and no filter has to read while its own thread holds `poll_lock` or the holder of `poll_lock`
waits for the connection. -/
def locksApart (s : State) : Event → Bool
  | .go t => match s.ops t with
      | .lock m :: .lock m' :: _ => !s.crossed m m'
      | _ => !(s.needsRead t && s.barred t)
  | _ => true

def LocksApart (s : State) (e : Event) : Prop := locksApart s e = true

instance (s : State) (e : Event) : Decidable (LocksApart s e) := inferInstanceAs (Decidable (_ = true))

theorem wants_self {l : List Op} (hops : s'.ops = Function.update s.ops t l) : s'.wants t = nextLock l := by
  rw [State.wants, hops, Function.update_self]

theorem wants_other {l : List Op} {u : Thread} (hops : s'.ops = Function.update s.ops t l) (hu : u ≠ t) :
    s'.wants u = s.wants u := by
  rw [State.wants, hops, Function.update_of_ne hu]
  rfl

/-- A step after which the thread waits for nothing, or has nothing, gets no one stuck. -/
theorem Stuck.frame {l : List Op} (hs : Stuck s') (hops : s'.ops = Function.update s.ops t l)
    (hle : ∀ m u, s'.holder m = some u → s.holder m = some u)
    (hself : nextLock l = none ∨ ∀ m, s'.holder m ≠ some t) : Stuck s := by
  -- Whoever is stuck waits and holds, so it is not the thread that acts.
  have hne : ∀ u m m', s'.wants u = some m → s'.holder m' = some u → u ≠ t := by
    rintro u m m' hw hh rfl
    rw [wants_self hops] at hw
    rcases hself with hnone | hfree
    · rw [hnone] at hw
      cases hw
    · exact hfree m' hh
  cases hs with
  | @self u hwant hhold =>
      have hu := hne u _ _ hwant hhold
      exact .self (wants_other hops hu ▸ hwant) (hle _ _ hhold)
  | @cross u v x hpoll hwant hmtxp hwant' =>
      have hu := hne u _ _ hwant hpoll
      have hv := hne v _ _ hwant' hmtxp
      exact .cross (hle _ _ hpoll) (wants_other hops hu ▸ hwant) (hle _ _ hmtxp)
        (wants_other hops hv ▸ hwant')

theorem crossed_of {u : Thread} {m m' : Mutex} (hh : s.holder m' = some u) (hw : s.wants u = some m) :
    s.crossed m m' = true := by
  simp [State.crossed, hh, hw]

theorem not_crossed {m m' : Mutex} {rest : List Op} (hops : s.ops t = .lock m :: rest)
    (hnext : nextLock rest = some m') (hok : LocksApart s (.go t)) : s.crossed m m' = false := by
  unfold nextLock at hnext
  split at hnext
  · cases hnext
    simpa [LocksApart, locksApart, hops] using hok
  · cases hnext

theorem stuck_takeLock {m : Mutex} {rest : List Op} (h : ShapeInv s) (hok : LocksApart s (.go t))
    (hops : s.ops t = .lock m :: rest) (hs : Stuck ((s.takeLock t m).setOps t rest)) : Stuck s := by
  obtain ⟨p, q, hl, hh⟩ := h.ahead hops
  have hself : ((s.takeLock t m).setOps t rest).wants t = nextLock rest := wants_self rfl
  have hother : ∀ u, u ≠ t → ((s.takeLock t m).setOps t rest).wants u = s.wants u :=
    fun u hu => wants_other rfl hu
  cases hs with
  | @self u hwant hhold =>
      by_cases hu : u = t
      · subst hu
        rw [hself] at hwant
        cases m with
        | pollLock => exact absurd hwant hl.1
        | mtxpLock x =>
            rcases holder_of_take hhold with ⟨hne, _⟩ | ⟨_, hhold⟩
            · cases hne
            · cases (hh.poll hhold).symm.trans (hl.2.1 hwant)
      · rcases holder_of_take hhold with ⟨_, heq⟩ | ⟨_, hhold⟩
        · exact absurd heq hu
        · exact .self (hother u hu ▸ hwant) hhold
  | @cross u v x hpoll hwant hmtxp hwant' =>
      by_cases hu : u = t
      · subst hu
        rw [hself] at hwant
        have hv : v ≠ u := by
          rintro rfl
          rw [hself, hwant] at hwant'
          cases hwant'
        rw [hother v hv] at hwant'
        cases m with
        | pollLock =>
            rcases holder_of_take hmtxp with ⟨hne, _⟩ | ⟨_, hmtxp⟩
            · cases hne
            · have hno := not_crossed hops hwant hok
              rw [crossed_of hmtxp hwant'] at hno
              cases hno
        | mtxpLock y =>
            -- It already has the lock of a connection and would lock another.
            unfold nextLock at hwant
            split at hwant
            · cases hwant
              exact absurd hl.2.2.1 nofun
            · cases hwant
      · rw [hother u hu] at hwant
        rcases holder_of_take hpoll with ⟨_, heq⟩ | ⟨hm, hheld⟩
        · exact absurd heq hu
        · by_cases hv : v = t
          · subst hv
            rw [hself] at hwant'
            cases m with
            | pollLock => exact absurd rfl hm
            | mtxpLock y =>
                rcases holder_of_take hmtxp with ⟨heq, _⟩ | ⟨_, hmtxp⟩
                · cases heq
                  have hno := not_crossed hops hwant' hok
                  rw [crossed_of hheld hwant] at hno
                  cases hno
                · have hq := hh.mtxp x hmtxp
                  rw [hl.1] at hq
                  cases hq
          · rw [hother v hv] at hwant'
            rcases holder_of_take hmtxp with ⟨_, heq⟩ | ⟨_, hmtxp⟩
            · exact absurd heq hv
            · exact .cross hheld hwant hmtxp hwant'

theorem stuck_needsRead {op : Op} {x : Addr} {f : RecvFilter} {strm : Stream (List Tcp.Reading)}
    {rest : List Op} (hok : LocksApart s (.go t)) (hops : s.ops t = op :: rest)
    (hop : op = .filter x f ∨ op = .resume x f strm) (hread : s.needsRead t = true)
    (hs : Stuck (s.setOps t (.lock .pollLock :: .read x f strm :: rest))) : Stuck s := by
  have hbar : s.barred t = false := by
    rcases hop with rfl | rfl
    all_goals
      unfold LocksApart locksApart at hok
      simpa [hops, hread] using hok
  have hself : (s.setOps t (.lock .pollLock :: .read x f strm :: rest)).wants t = some .pollLock :=
    (wants_self rfl).trans rfl
  have hother : ∀ u, u ≠ t → (s.setOps t (.lock .pollLock :: .read x f strm :: rest)).wants u = s.wants u :=
    fun u hu => wants_other rfl hu
  cases hs with
  | @self u hwant hhold =>
      change s.holder .pollLock = some u at hhold
      by_cases hu : u = t
      · subst hu
        simp [State.barred, hhold] at hbar
      · exact .self (hother u hu ▸ hwant) hhold
  | @cross u v y hpoll hwant hmtxp hwant' =>
      change s.holder .pollLock = some u at hpoll
      change s.holder (.mtxpLock y) = some v at hmtxp
      have hu : u ≠ t := by
        rintro rfl
        rw [hself] at hwant
        cases hwant
      rw [hother u hu] at hwant
      by_cases hv : v = t
      · subst hv
        simp [State.barred, hpoll, hwant, hmtxp] at hbar
      · exact .cross hpoll hwant hmtxp (hother v hv ▸ hwant')

theorem stuck_step (h : ShapeInv s) (hok : LocksApart s e) (hst : step s e = some s') (hs : Stuck s') :
    Stuck s := by
  cases step_steps hst with
  | @locks t m rest he hops hfree heq =>
      subst heq he
      exact stuck_takeLock h hok hops hs
  | @releases t op m rest he hops hop heq =>
      subst heq
      obtain ⟨p, q, hl, hh⟩ := h.ahead hops
      exact hs.frame rfl (fun _ _ hm => (holder_of_release hm).2) (Or.inl (shape_release hop hl hh).1)
  | @needs t op x f strm rest he hops hop hread heq =>
      subst heq he
      exact stuck_needsRead hok hops hop hread hs
  | @goes t l hread hgo hops hholder hinside =>
      obtain ⟨p, q, hl, hh⟩ := h t
      refine hs.frame hops (fun m u hm => hholder ▸ hm) ((hgo.shape hl).2.imp_right ?_)
      rintro ⟨rfl, rfl⟩ m hm
      rw [hholder] at hm
      cases m with
      | pollLock => cases hh.poll hm
      | mtxpLock x => cases hh.mtxp x hm

/-- The steps that `LocksApart` leaves out end in a deadlock. -/
theorem deadlock_of_step (hst : step s e = some s') (hbad : ¬LocksApart s e) : s'.Deadlock := by
  cases step_steps hst with
  | @locks t m rest he hops hfree heq =>
      subst heq he
      have hread : s.needsRead t = false := by simp [State.needsRead, State.filterOf, hops]
      cases hnext : nextLock rest with
      | none =>
          refine absurd ?_ hbad
          unfold LocksApart locksApart
          simp only [hops, hread, Bool.false_and, Bool.not_false]
          split
          · rename_i heq
            cases heq
            cases hnext
          · rfl
      | some m' =>
          have hcross : s.crossed m m' = true := by
            unfold nextLock at hnext
            split at hnext
            · cases hnext
              simpa [LocksApart, locksApart, hops] using hbad
            · cases hnext
          unfold State.crossed at hcross
          split at hcross
          · rename_i u hu
            have hw : s.wants u = some m := of_decide_eq_true hcross
            have hm' : m' ≠ m := by
              rintro rfl
              rw [hfree] at hu
              cases hu
            have hhold' : ((s.takeLock t m).setOps t rest).holder m' = some u := by
              show Function.update s.holder m (some t) m' = some u
              rw [Function.update_of_ne hm', hu]
            have hhold : ((s.takeLock t m).setOps t rest).holder m = some t := Function.update_self ..
            have hself : ((s.takeLock t m).setOps t rest).wants t = some m' := (wants_self rfl).trans hnext
            by_cases hut : u = t
            · subst hut
              exact .of_self hself hhold'
            · exact .of_pair hself hhold' ((wants_other rfl hut).trans hw) hhold
          · cases hcross
  | @releases t op m rest he hops hop heq =>
      subst he
      refine absurd ?_ hbad
      cases op with
      | unlock m => simp [LocksApart, locksApart, State.needsRead, State.filterOf, hops]
      | svcRunUnlock rv => simp [LocksApart, locksApart, State.needsRead, State.filterOf, hops]
      | _ => cases hop
  | @needs t op x f strm rest he hops hop hread heq =>
      subst heq he
      have hbar : s.barred t = true := by
        rcases hop with rfl | rfl
        all_goals
          unfold LocksApart locksApart at hbad
          simpa [hops, hread] using hbad
      have hself : (s.setOps t (.lock .pollLock :: .read x f strm :: rest)).wants t = some .pollLock :=
        (wants_self rfl).trans rfl
      unfold State.barred at hbar
      split at hbar
      · rename_i u hu
        by_cases hut : u = t
        · subst hut
          exact .of_self hself hu
        · rw [decide_eq_false hut, Bool.false_or] at hbar
          split at hbar
          · rename_i m hw
            exact .of_pair hself hu ((wants_other rfl hut).trans hw) (of_decide_eq_true hbar)
          · cases hbar
      · cases hbar
  | @goes t l hread hgo hops hholder hinside =>
      refine absurd ?_ hbad
      cases e with
      | go u =>
          obtain ⟨rfl, hno⟩ := hread u rfl
          unfold LocksApart locksApart
          dsimp only
          split
          · rename_i heq
            rw [heq] at hgo
            cases hgo
          · simp [hno]
      | _ => rfl

/-- As long as the steps keep the locks apart there is no deadlock, and the first step that does not
makes one. -/
theorem no_deadlock {conns : Addr → RecStream} (h : Reached step LocksApart (start conns) s) :
    ¬s.Deadlock ∧ ∀ e s', step s e = some s' → (¬s'.Deadlock ↔ LocksApart s e) := by
  have hinv : ShapeInv s ∧ ¬Stuck s := by
    apply h.invariant fun s => ShapeInv s ∧ ¬Stuck s
    · refine ⟨fun _ => ⟨false, none, ⟨rfl, rfl⟩, nofun, nofun⟩, fun hs => ?_⟩
      cases hs with
      | self hwant hhold => cases hhold
      | cross hpoll hwant hmtxp hwant' => cases hpoll
    · exact fun _ _ _ hs hok hst => ⟨shapeInv_step hs.1 hst, fun hstuck => hs.2 (stuck_step hs.1 hok hst hstuck)⟩
  refine ⟨fun hd => hinv.2 (stuck_of_deadlock hinv.1 hd), fun e s' hst => ⟨fun hno => ?_, fun hok hd => ?_⟩⟩
  · by_contra hbad
    exact hno (deadlock_of_step hst hbad)
  · exact hinv.2 (stuck_step hinv.1 hok hst (stuck_of_deadlock (shapeInv_step hinv.1 hst) hd))

def xdrWords (n : Nat) : RecvFilter := (RecFilter.getWords n).seq fun _ => .done (some ())

/-- The header of a record of eleven words and the first ten of them, a call without credentials. -/
def callHeader : List Byte := [2 ^ 31 + 44, 7, 0, 2, 100, 1, 1, 0, 0, 0, 0].flatMap htonl

/-- `svc_run` receives a call on connection 0 with one read, which returns `bytes`. -/
def recvCall (bytes : List Byte) : List Event :=
  [.svcPoll, .go .svcRun, .polled 1, .go .svcRun, .call .svcRun (.svctcpRecv 0 (xdrWords 10)), .go .svcRun,
    .go .svcRun, .go .svcRun] ++ (Tcp.Reading.ofBytes bytes).map (.read .svcRun) ++
  [.go .svcRun, .go .svcRun, .go .svcRun]

/-- Where the argument comes in after the header of its call, `svctcp_getargs` waits for itself, and a
`svctcp_getargs` and a `svctcp_reply` on one connection wait for each other. -/
theorem deadlocks :
    (∃ s, Reached step anyStep (start fun _ => create 4000) s ∧
      s.wants (.worker 0) = some .pollLock ∧ s.holder .pollLock = some (.worker 0) ∧ s.Deadlock) ∧
    ∃ s, Reached step anyStep (start fun _ => create 4000) s ∧
      s.wants (.worker 0) = some (.mtxpLock 0) ∧ s.wants (.worker 1) = some .pollLock ∧ s.Deadlock := by
  constructor
  · have hrun : (exec step anyStep (start fun _ => create 4000) (recvCall callHeader ++
        [.call (.worker 0) (.svctcpGetargs 0 (xdrWords 1)), .go (.worker 0), .go (.worker 0),
          .go (.worker 0)])).map (fun s => (s.wants (.worker 0), s.holder .pollLock)) =
        some (some .pollLock, some (.worker 0)) := by decide +kernel
    obtain ⟨s, hs, hview⟩ := Option.map_eq_some_iff.mp hrun
    obtain ⟨hwant, hholder⟩ := Prod.mk.inj hview
    exact ⟨s, reached_of_exec _ _ .start _ hs, hwant, hholder, .of_self hwant hholder⟩
  · have hrun : (exec step anyStep (start fun _ => create 4000)
        [.call (.worker 0) (.svctcpGetargs 0 (xdrWords 1)), .call (.worker 1) (.svctcpReply 0),
          .go (.worker 0), .go (.worker 1)]).map
        (fun s => (s.wants (.worker 0), s.holder (.mtxpLock 0), s.wants (.worker 1), s.holder .pollLock)) =
        some (some (.mtxpLock 0), some (.worker 1), some .pollLock, some (.worker 0)) := by decide +kernel
    obtain ⟨s, hs, hview⟩ := Option.map_eq_some_iff.mp hrun
    obtain ⟨hwant, hview⟩ := Prod.mk.inj hview
    obtain ⟨hmtxp, hview⟩ := Prod.mk.inj hview
    obtain ⟨hwant', hpoll⟩ := Prod.mk.inj hview
    exact ⟨s, reached_of_exec _ _ .start _ hs, hwant, hwant', .of_pair hwant hmtxp hwant' hpoll⟩

/-- The argument has come in with its call, and the reply is on another connection. -/
theorem no_deadlock_buffered :
    ∃ s, Reached step LocksApart (start fun _ => create 4000) s ∧ s.wants (.worker 1) = some .pollLock ∧
      s.holder .pollLock = some (.worker 0) ∧ ¬s.Deadlock := by
  have hrun : (exec step LocksApart (start fun _ => create 4000) (recvCall (callHeader ++ htonl 5) ++
      [.call (.worker 0) (.svctcpGetargs 0 (xdrWords 1)), .call (.worker 1) (.svctcpReply 1), .go (.worker 0),
        .go (.worker 1), .go (.worker 0), .go (.worker 0)])).map
      (fun s => (s.wants (.worker 1), s.holder .pollLock)) =
      some (some .pollLock, some (.worker 0)) := by decide +kernel
  obtain ⟨s, hs, hview⟩ := Option.map_eq_some_iff.mp hrun
  obtain ⟨hwant, hholder⟩ := Prod.mk.inj hview
  have hreached := reached_of_exec _ _ .start _ hs
  exact ⟨s, hreached, hwant, hholder, (no_deadlock hreached).1⟩

end RpcMt.PollLock
