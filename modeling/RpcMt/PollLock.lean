import RpcMt.Mutexes
import RpcMt.Runs
import RpcMt.TcpConn

/-! The locks of the TCP transports: `poll_lock`, which `svc_run`, `readtcp`, `rendezvous_request` and
the callbacks of a connection take, and the `mtxp_lock` of each connection. Every call is the list of
what it does with them, in the order of the source. A filter reads the record stream of its connection,
and calls `readtcp` whenever the buffer of the stream has run out. Both mutexes are default ones, so an
unlock by a thread that does not hold the mutex releases it all the same. `svc_die` ends a run and is
left out. -/

open RpcMt.Runs RpcMt.XdrRec RpcMt.Mutexes

namespace RpcMt.PollLock

inductive Thread where
  | svcRun
  | worker (i : Nat)
  deriving DecidableEq, Repr

inductive Mutex where
  | pollLock
  | mtxpLock (xprt : Addr)
  deriving DecidableEq, Repr

/-- `readit` for a filter that has had these answers from `readtcp` so far, and blocks for the next. -/
def replay : Readit (List Tcp.Reading)
  | [], _ => none
  | .failed :: rest, _ => some (none, rest)
  | .data b bs :: rest, len => some (some ((b :: bs).take len), rest)

abbrev RecvFilter := RecFilter replay Unit

/-- More turns than there can be fragments. -/
def turns (s : Stream (List Tcp.Reading)) : Nat :=
  s.strm.input.length + (s.handle.map Tcp.Reading.size).sum + 2

/-- `xdrrec_skiprecord`, whose status `svctcp_recv` drops, and `xdr_callmsg`. -/
def recvFilter (xdrCallmsg : RecvFilter) : RecvFilter where
  run s := do
    let (_, s) ← xdrrecSkiprecord replay (turns s) s
    xdrCallmsg.run s
  reads := by
    intro s t r h
    obtain ⟨⟨ok, u⟩, hskip, h⟩ := Option.bind_eq_some_iff.mp h
    exact (xdrrecSkiprecord_reads hskip).trans (xdrCallmsg.reads h)

/-- `xdrrec_eof`. -/
def statFilter : RecvFilter where
  run s := do
    let (_, s) ← xdrrecEof replay (turns s) s
    some (some (), s)
  reads := by
    intro s t r h
    obtain ⟨⟨ok, u⟩, heof, h⟩ := Option.bind_eq_some_iff.mp h
    cases h
    exact xdrrecEof_reads heof

/-- What a thread does with the locks. `filter` begins a filter on a connection, `read` is the read in
`readtcp` for a filter that began with this stream, and `resume` goes on with the filter. `poll` and
`serve` are the two halves of `svc_poll`, and `svcRunUnlock` is the unlock in `svc_run`. -/
inductive Op where
  | lock (m : Mutex)
  | unlock (m : Mutex)
  | filter (xprt : Addr) (f : RecvFilter)
  | read (xprt : Addr) (f : RecvFilter) (s : Stream (List Tcp.Reading))
  | resume (xprt : Addr) (f : RecvFilter) (s : Stream (List Tcp.Reading))
  | poll
  | serve
  | svcRunUnlock (pollRv : Int)

inductive Call where
  | rendezvousRequest
  | svctcpRecv (xprt : Addr) (xdrCallmsg : RecvFilter)
  | svctcpStat (xprt : Addr)
  | svctcpGetargs (xprt : Addr) (xdrArgs : RecvFilter)
  | svctcpFreeargs (xprt : Addr)
  | svctcpReply (xprt : Addr)
  | svctcpDestroy (xprt : Addr)

def Call.code : Call → List Op
  | .rendezvousRequest => [.lock .pollLock, .unlock .pollLock]
  | .svctcpRecv x xdrCallmsg => [.lock (.mtxpLock x), .filter x (recvFilter xdrCallmsg), .unlock (.mtxpLock x)]
  | .svctcpStat x => [.filter x statFilter]
  | .svctcpGetargs x xdrArgs =>
      [.lock .pollLock, .lock (.mtxpLock x), .filter x xdrArgs, .unlock .pollLock, .unlock (.mtxpLock x)]
  | .svctcpFreeargs x =>
      [.lock (.mtxpLock x), .lock .pollLock, .unlock .pollLock, .unlock (.mtxpLock x)]
  | .svctcpReply x =>
      [.lock (.mtxpLock x), .lock .pollLock, .unlock .pollLock, .unlock (.mtxpLock x)]
  | .svctcpDestroy x => [.lock (.mtxpLock x), .unlock (.mtxpLock x)]

/-- `inside` tells which threads are between a lock of `poll_lock` and the unlock that is theirs. -/
structure State where
  holder : Mutex → Option Thread
  ops : Thread → List Op
  conns : Addr → RecStream
  inside : Thread → Bool

def start (conns : Addr → RecStream) : State :=
  { holder := fun _ => none
    ops := fun _ => []
    conns := conns
    inside := fun _ => false }

def State.setOps (s : State) (t : Thread) (ops : List Op) : State :=
  { s with ops := Function.update s.ops t ops }

def State.takeLock (s : State) (t : Thread) (m : Mutex) : State :=
  { s with
    holder := Function.update s.holder m (some t)
    inside := if m = .pollLock then Function.update s.inside t true else s.inside }

def State.releaseLock (s : State) (t : Thread) (m : Mutex) : State :=
  { s with
    holder := Function.update s.holder m none
    inside := if m = .pollLock then Function.update s.inside t false else s.inside }

/-- A filter runs to its end, or to the next `readtcp`. -/
def State.runFilter (s : State) (t : Thread) (x : Addr) (f : RecvFilter) (strm : Stream (List Tcp.Reading))
    (rest : List Op) : State :=
  match f.run strm with
  | some (_, strm) => { s.setOps t rest with conns := Function.update s.conns x strm.strm }
  | none => s.setOps t (.lock .pollLock :: .read x f strm :: rest)

/-- The next operation of a thread, where it is up to that thread alone. -/
def State.go (s : State) (t : Thread) : Option State :=
  match s.ops t with
  | .lock m :: rest => if s.holder m = none then some ((s.takeLock t m).setOps t rest) else none
  | .unlock m :: rest => some ((s.releaseLock t m).setOps t rest)
  | .svcRunUnlock _ :: rest => some ((s.releaseLock t .pollLock).setOps t rest)
  | .filter x f :: rest => some (s.runFilter t x f ⟨s.conns x, []⟩ rest)
  | .resume x f strm :: rest => some (s.runFilter t x f strm rest)
  | _ => none

inductive Event where
  | call (t : Thread) (c : Call)
  | svcPoll
  | polled (pollRv : Int)
  | served
  | read (t : Thread) (r : Tcp.Reading)
  | go (t : Thread)

def step (s : State) : Event → Option State
  | .call t c => match s.ops t with
      | [] => some (s.setOps t c.code)
      | .serve :: rest => some (s.setOps t (c.code ++ .serve :: rest))
      | _ => none
  | .svcPoll => match s.ops .svcRun with
      | [] => some (s.setOps .svcRun [.lock .pollLock, .poll])
      | _ => none
  | .polled rv => match s.ops .svcRun with
      | .poll :: rest =>
          if rv ≤ 0 then some (s.setOps .svcRun (.svcRunUnlock rv :: rest))
          else some (s.setOps .svcRun (.unlock .pollLock :: .serve :: .svcRunUnlock rv :: rest))
      | _ => none
  | .served => match s.ops .svcRun with
      | .serve :: rest => some (s.setOps .svcRun rest)
      | _ => none
  | .read t r => match s.ops t with
      | .read x f strm :: rest =>
          some (s.setOps t (.unlock .pollLock :: .resume x f ⟨strm.strm, strm.handle ++ [r]⟩ :: rest))
      | _ => none
  | .go t => s.go t

/-! ### What a step does -/

/-- What a thread has ahead of it after a step that touches no lock and reads nothing from a socket. -/
inductive Goes : List Op → List Op → Prop
  | call (c : Call) : Goes [] c.code
  | serve (c : Call) (rest : List Op) : Goes (.serve :: rest) (c.code ++ .serve :: rest)
  | svcPoll : Goes [] [.lock .pollLock, .poll]
  | idle {rv : Int} (rest : List Op) (hrv : rv ≤ 0) : Goes (.poll :: rest) (.svcRunUnlock rv :: rest)
  | ready {rv : Int} (rest : List Op) (hrv : ¬rv ≤ 0) :
      Goes (.poll :: rest) (.unlock .pollLock :: .serve :: .svcRunUnlock rv :: rest)
  | served (rest : List Op) : Goes (.serve :: rest) rest
  | read (x : Addr) (f : RecvFilter) (strm strm' : Stream (List Tcp.Reading)) (rest : List Op) :
      Goes (.read x f strm :: rest) (.unlock .pollLock :: .resume x f strm' :: rest)
  | filtered (x : Addr) (f : RecvFilter) (rest : List Op) : Goes (.filter x f :: rest) rest
  | resumed (x : Addr) (f : RecvFilter) (strm : Stream (List Tcp.Reading)) (rest : List Op) :
      Goes (.resume x f strm :: rest) rest

/-- The filter that a thread is at, with the stream it runs on. -/
def State.filterOf (s : State) (t : Thread) : Option (Addr × RecvFilter × Stream (List Tcp.Reading)) :=
  match s.ops t with
  | .filter x f :: _ => some (x, f, ⟨s.conns x, []⟩)
  | .resume x f strm :: _ => some (x, f, strm)
  | _ => none

/-- Thread `t` is at a filter that has to read from the socket. -/
def State.needsRead (s : State) (t : Thread) : Bool :=
  match s.filterOf t with
  | some (_, f, strm) => (f.run strm).isNone
  | none => false

def releases : Op → Option Mutex
  | .unlock m => some m
  | .svcRunUnlock _ => some .pollLock
  | _ => none

inductive Steps (s s' : State) (e : Event) : Prop
  | locks {t : Thread} {m : Mutex} {rest : List Op} (he : e = .go t) (hops : s.ops t = .lock m :: rest)
      (hfree : s.holder m = none) (hs : s' = (s.takeLock t m).setOps t rest)
  | releases {t : Thread} {op : Op} {m : Mutex} {rest : List Op} (he : e = .go t)
      (hops : s.ops t = op :: rest) (hop : releases op = some m)
      (hs : s' = (s.releaseLock t m).setOps t rest)
  | needs {t : Thread} {op : Op} {x : Addr} {f : RecvFilter} {strm : Stream (List Tcp.Reading)} {rest : List Op}
      (he : e = .go t) (hops : s.ops t = op :: rest) (hop : op = .filter x f ∨ op = .resume x f strm)
      (hread : s.needsRead t = true) (hs : s' = s.setOps t (.lock .pollLock :: .read x f strm :: rest))
  | goes {t : Thread} {l : List Op} (hread : ∀ u, e = .go u → u = t ∧ s.needsRead t = false)
      (hgo : Goes (s.ops t) l) (hops : s'.ops = Function.update s.ops t l)
      (hholder : s'.holder = s.holder) (hinside : s'.inside = s.inside)

variable {s s' : State} {e : Event} {t : Thread}

theorem runFilter_steps {op : Op} {x : Addr} {f : RecvFilter} {strm : Stream (List Tcp.Reading)}
    {rest : List Op} (hops : s.ops t = op :: rest) (hop : op = .filter x f ∨ op = .resume x f strm)
    (hf : s.filterOf t = some (x, f, strm)) : Steps s (s.runFilter t x f strm rest) (.go t) := by
  have hread : s.needsRead t = (f.run strm).isNone := by rw [State.needsRead, hf]
  unfold State.runFilter
  split
  · rename_i r strm' hrun
    rw [hrun] at hread
    refine .goes (fun u hu => ⟨(Event.go.inj hu).symm, hread⟩) ?_ rfl rfl rfl
    rw [hops]
    rcases hop with rfl | rfl
    · exact .filtered ..
    · exact .resumed ..
  · rename_i hrun
    rw [hrun] at hread
    exact .needs rfl hops hop hread rfl

theorem go_steps (h : s.go t = some s') : Steps s s' (.go t) := by
  unfold State.go at h
  split at h
  · rename_i m rest hops
    split at h
    · rename_i hfree
      cases h
      exact .locks rfl hops hfree rfl
    · cases h
  · rename_i m rest hops
    cases h
    exact .releases rfl hops rfl rfl
  · rename_i rv rest hops
    cases h
    exact .releases rfl hops rfl rfl
  · rename_i x f rest hops
    cases h
    exact runFilter_steps hops (Or.inl rfl) (by simp only [State.filterOf, hops])
  · rename_i x f strm rest hops
    cases h
    exact runFilter_steps hops (Or.inr rfl) (by simp only [State.filterOf, hops])
  · cases h

theorem step_steps (h : step s e = some s') : Steps s s' e := by
  cases e with
  | call t c =>
      unfold step at h
      dsimp only at h
      split at h
      · rename_i hops
        cases h
        exact .goes nofun (hops ▸ .call c) rfl rfl rfl
      · rename_i rest hops
        cases h
        exact .goes nofun (hops ▸ .serve c rest) rfl rfl rfl
      · cases h
  | svcPoll =>
      unfold step at h
      dsimp only at h
      split at h
      · rename_i hops
        cases h
        exact .goes nofun (hops ▸ .svcPoll) rfl rfl rfl
      · cases h
  | polled rv =>
      unfold step at h
      dsimp only at h
      split at h
      · rename_i rest hops
        split at h
        · rename_i hrv
          cases h
          exact .goes nofun (hops ▸ .idle rest hrv) rfl rfl rfl
        · rename_i hrv
          cases h
          exact .goes nofun (hops ▸ .ready rest hrv) rfl rfl rfl
      · cases h
  | served =>
      unfold step at h
      dsimp only at h
      split at h
      · rename_i rest hops
        cases h
        exact .goes nofun (hops ▸ .served rest) rfl rfl rfl
      · cases h
  | read t r =>
      unfold step at h
      dsimp only at h
      split at h
      · rename_i x f strm rest hops
        cases h
        exact .goes nofun (hops ▸ .read x f strm _ rest) rfl rfl rfl
      · cases h
  | go t => exact go_steps h

/-! ### Who releases `poll_lock` -/

/-- What a thread that is inside or outside of `poll_lock` may have ahead of it. A thread that is
inside and locks again waits for itself, so nothing is asked of what would follow. -/
def Balanced (inside : Bool) : List Op → Prop
  | [] => inside = false
  | .lock .pollLock :: rest => inside = false → Balanced true rest
  | .unlock .pollLock :: rest => inside = true ∧ Balanced false rest
  | .read _ _ _ :: rest => inside = true ∧ Balanced false rest
  | .poll :: rest => inside = true ∧ Balanced false rest
  | .serve :: rest => inside = false ∧ Balanced false rest
  | .svcRunUnlock rv :: rest => (inside = true ↔ rv ≤ 0) ∧ Balanced false rest
  | .lock (.mtxpLock _) :: rest => Balanced inside rest
  | .unlock (.mtxpLock _) :: rest => Balanced inside rest
  | .filter _ _ :: rest => Balanced inside rest
  | .resume _ _ _ :: rest => Balanced inside rest

theorem balanced_code (c : Call) {rest : List Op} (h : Balanced false rest) :
    Balanced false (c.code ++ rest) := by
  cases c with
  | rendezvousRequest => exact fun _ => ⟨rfl, h⟩
  | svctcpRecv x f => exact h
  | svctcpStat x => exact h
  | svctcpGetargs x f => exact fun _ => ⟨rfl, h⟩
  | svctcpFreeargs x => exact fun _ => ⟨rfl, h⟩
  | svctcpReply x => exact fun _ => ⟨rfl, h⟩
  | svctcpDestroy x => exact h

theorem Goes.balanced {inside : Bool} {l l' : List Op} (h : Goes l l') (hl : Balanced inside l) :
    Balanced inside l' := by
  cases h with
  | call c =>
      cases hl
      have hcode := balanced_code c (show Balanced false [] from rfl)
      rwa [List.append_nil] at hcode
  | serve c rest =>
      obtain ⟨rfl, hrest⟩ := hl
      exact balanced_code c ⟨rfl, hrest⟩
  | svcPoll => exact fun _ => ⟨rfl, rfl⟩
  | idle rest hrv =>
      obtain ⟨rfl, hrest⟩ := hl
      exact ⟨by simpa using hrv, hrest⟩
  | ready rest hrv =>
      obtain ⟨rfl, hrest⟩ := hl
      exact ⟨rfl, rfl, by simpa using hrv, hrest⟩
  | served rest =>
      obtain ⟨rfl, hrest⟩ := hl
      exact hrest
  | read x f strm strm' rest => exact hl
  | filtered x f rest => exact hl
  | resumed x f strm rest => exact hl

/-- The unlock in `svc_run` comes after a `svc_poll` that found nothing ready. -/
def unlocksOnce (s : State) : Event → Bool
  | .go t => match s.ops t with
      | .svcRunUnlock rv :: _ => decide (rv ≤ 0)
      | _ => true
  | _ => true

def UnlocksOnce (s : State) (e : Event) : Prop := unlocksOnce s e = true

instance (s : State) (e : Event) : Decidable (UnlocksOnce s e) := inferInstanceAs (Decidable (_ = true))

/-- The thread that releases `poll_lock` in an event. -/
def releasing (s : State) : Event → Option Thread
  | .go t => match s.ops t with
      | op :: _ => if releases op = some .pollLock then some t else none
      | [] => none
  | _ => none

structure OwnInv (s : State) : Prop where
  inside : ∀ t, s.inside t = decide (s.holder .pollLock = some t)
  balanced : ∀ t, Balanced (s.inside t) (s.ops t)

theorem OwnInv.holder_eq (h : OwnInv s) (ht : s.inside t = true) : s.holder .pollLock = some t := by
  rw [h.inside t] at ht
  exact of_decide_eq_true ht

theorem OwnInv.outside {u : Thread} (h : OwnInv s) (ht : s.inside t = true) (hu : u ≠ t) :
    s.inside u = false := by
  rw [h.inside u, h.holder_eq ht]
  simpa using hu.symm

theorem OwnInv.ahead {l : List Op} (h : OwnInv s) (hops : s.ops t = l) : Balanced (s.inside t) l :=
  hops ▸ h.balanced t

/-- The thread that acts has its list replaced, and the others keep theirs. -/
theorem forall_update {P : Thread → List Op → Prop} {ops : Thread → List Op} {l : List Op} (ht : P t l)
    (hrest : ∀ u, u ≠ t → P u (ops u)) (u : Thread) : P u (Function.update ops t l u) := by
  by_cases hu : u = t
  · subst hu
    rwa [Function.update_self]
  · rw [Function.update_of_ne hu]
    exact hrest u hu

theorem OwnInv.takePollLock {rest : List Op} (h : OwnInv s) (hops : s.ops t = .lock .pollLock :: rest)
    (hfree : s.holder .pollLock = none) : OwnInv ((s.takeLock t .pollLock).setOps t rest) := by
  have hout : ∀ u, s.inside u = false := by
    intro u
    rw [h.inside u, hfree]
    rfl
  have hinside : ∀ u, ((s.takeLock t .pollLock).setOps t rest).inside u = decide (t = u) := by
    intro u
    show Function.update s.inside t true u = decide (t = u)
    by_cases hu : u = t
    · subst hu
      rw [Function.update_self, decide_eq_true rfl]
    · rw [Function.update_of_ne hu, hout u, decide_eq_false fun h => hu h.symm]
  refine ⟨fun u => ?_, fun u => ?_⟩
  · rw [hinside u]
    simp [State.setOps, State.takeLock]
  · rw [hinside u]
    apply forall_update (P := fun u l => Balanced (decide (t = u)) l)
    · rw [decide_eq_true rfl]
      exact h.ahead hops (hout t)
    · intro v hv
      rw [decide_eq_false fun h => hv h.symm, ← hout v]
      exact h.balanced v

theorem OwnInv.releasePollLock {rest : List Op} (h : OwnInv s) (ht : s.inside t = true)
    (hrest : Balanced false rest) : OwnInv ((s.releaseLock t .pollLock).setOps t rest) := by
  have hout : ∀ u, ((s.releaseLock t .pollLock).setOps t rest).inside u = false := by
    intro u
    show Function.update s.inside t false u = false
    by_cases hu : u = t
    · subst hu
      rw [Function.update_self]
    · rw [Function.update_of_ne hu, h.outside ht hu]
  refine ⟨fun u => ?_, fun u => ?_⟩
  · rw [hout u]
    simp [State.setOps, State.releaseLock]
  · rw [hout u]
    apply forall_update (P := fun _ l => Balanced false l) hrest
    intro v hv
    rw [← h.outside ht hv]
    exact h.balanced v

/-- A step that leaves `poll_lock` alone. -/
theorem OwnInv.frame {l : List Op} (h : OwnInv s) (hl : Balanced (s.inside t) l)
    (hops : s'.ops = Function.update s.ops t l) (hholder : s'.holder .pollLock = s.holder .pollLock)
    (hinside : s'.inside = s.inside) : OwnInv s' := by
  refine ⟨fun u => ?_, fun u => ?_⟩
  · rw [hinside, hholder]
    exact h.inside u
  · rw [hinside, hops]
    exact forall_update (P := fun u l => Balanced (s.inside u) l) hl (fun v _ => h.balanced v) u

/-- Who is about to release `poll_lock` is inside, but for the unlock in `svc_run` after a
`svc_poll` that found something ready. -/
theorem OwnInv.inside_iff {op : Op} {rest : List Op} (h : OwnInv s) (hops : s.ops t = op :: rest)
    (hop : releases op = some .pollLock) :
    (s.inside t = true ↔ UnlocksOnce s (.go t)) ∧ Balanced false rest := by
  have hl := h.ahead hops
  simp only [UnlocksOnce, unlocksOnce, hops]
  cases op with
  | unlock m =>
      cases hop
      exact ⟨by simp [hl.1], hl.2⟩
  | svcRunUnlock rv => exact ⟨by simpa using hl.1, hl.2⟩
  | lock m => cases hop
  | filter x f => cases hop
  | read x f strm => cases hop
  | resume x f strm => cases hop
  | poll => cases hop
  | serve => cases hop

theorem ownInv_step (h : OwnInv s) (hok : UnlocksOnce s e) (hst : step s e = some s') : OwnInv s' := by
  cases step_steps hst with
  | @locks t m rest he hops hfree hs =>
      subst hs
      cases m with
      | pollLock => exact h.takePollLock hops hfree
      | mtxpLock x =>
          have hrest : Balanced (s.inside t) rest := (h.ahead hops :)
          exact h.frame hrest rfl (by simp [State.setOps, State.takeLock]) rfl
  | @releases t op m rest he hops hop hs =>
      subst hs he
      cases m with
      | pollLock =>
          obtain ⟨hin, hrest⟩ := h.inside_iff hops hop
          exact h.releasePollLock (hin.mpr hok) hrest
      | mtxpLock x =>
          cases op with
          | unlock m =>
              cases hop
              have hrest : Balanced (s.inside t) rest := (h.ahead hops :)
              exact h.frame hrest rfl (by simp [State.setOps, State.releaseLock]) rfl
          | _ => cases hop
  | @needs t op x f strm rest he hops hop hread hs =>
      subst hs
      have hrest : Balanced (s.inside t) rest := by
        rcases hop with rfl | rfl
        · exact (h.ahead hops :)
        · exact (h.ahead hops :)
      have hl : Balanced (s.inside t) (.lock .pollLock :: .read x f strm :: rest) :=
        fun hout => ⟨rfl, hout ▸ hrest⟩
      exact h.frame hl rfl rfl rfl
  | @goes t l hread hgo hops hholder hinside =>
      exact h.frame (hgo.balanced (h.balanced t)) hops (by rw [hholder]) hinside

/-- As long as the unlock in `svc_run` comes only after a `svc_poll` that found nothing ready, threads
are inside one at a time and release what they hold; the unlock after a `svc_poll` that found
something ready is one by a thread that does not hold the lock. -/
theorem pollLock_exclusive {conns : Addr → RecStream} (h : Reached step UnlocksOnce (start conns) s) :
    (∀ t u, s.inside t = true → s.inside u = true → t = u) ∧
      ∀ e t, releasing s e = some t → (s.holder .pollLock = some t ↔ UnlocksOnce s e) := by
  have hstart : OwnInv (start conns) := ⟨fun _ => rfl, fun _ => rfl⟩
  have hinv : OwnInv s := h.invariant OwnInv hstart fun _ _ _ hs hok hst => ownInv_step hs hok hst
  refine ⟨fun t u ht hu => ?_, fun e t he => ?_⟩
  · by_contra hne
    rw [hinv.outside ht fun heq => hne heq.symm] at hu
    cases hu
  · unfold releasing at he
    split at he
    · split at he
      · rename_i op rest hops
        split at he
        · rename_i hop
          cases he
          rw [← (hinv.inside_iff hops hop).1, hinv.inside t, decide_eq_true_iff]
        · cases he
      · cases he
    · cases he

/-- A `svc_poll` that finds a descriptor ready, and a reply that is under way when `svc_run` unlocks. -/
def readyPoll : List Event :=
  [.svcPoll, .go .svcRun, .polled 1, .go .svcRun, .call (.worker 0) (.svctcpReply 0), .go (.worker 0),
    .go (.worker 0), .served]

/-- `svc_run` releases `poll_lock` while a worker holds it, and a second worker gets in. -/
theorem pollLock_not_exclusive :
    (∃ s, Reached step anyStep (start fun _ => create 4000) s ∧
      releasing s (.go .svcRun) = some .svcRun ∧ s.holder .pollLock = some (.worker 0)) ∧
    ∃ s, Reached step anyStep (start fun _ => create 4000) s ∧
      s.inside (.worker 0) = true ∧ s.inside (.worker 1) = true := by
  constructor
  · have hrun : (exec step anyStep (start fun _ => create 4000) readyPoll).map
        (fun s => (releasing s (.go .svcRun), s.holder .pollLock)) =
        some (some .svcRun, some (.worker 0)) := by decide +kernel
    obtain ⟨s, hs, hview⟩ := Option.map_eq_some_iff.mp hrun
    obtain ⟨hrel, hholder⟩ := Prod.mk.inj hview
    exact ⟨s, reached_of_exec _ _ .start _ hs, hrel, hholder⟩
  · have hrun : (exec step anyStep (start fun _ => create 4000) (readyPoll ++
        [.go .svcRun, .call (.worker 1) (.svctcpReply 1), .go (.worker 1), .go (.worker 1)])).map
        (fun s => (s.inside (.worker 0), s.inside (.worker 1))) = some (true, true) := by decide +kernel
    obtain ⟨s, hs, hview⟩ := Option.map_eq_some_iff.mp hrun
    obtain ⟨hfirst, hsecond⟩ := Prod.mk.inj hview
    exact ⟨s, reached_of_exec _ _ .start _ hs, hfirst, hsecond⟩

/-- A reply that waits until an idle `svc_poll` is over. -/
theorem pollLock_exclusive_idle :
    ∃ s, Reached step UnlocksOnce (start fun _ => create 4000) s ∧ s.inside .svcRun = false ∧
      releasing s (.go (.worker 0)) = some (.worker 0) ∧ s.holder .pollLock = some (.worker 0) := by
  have hrun : (exec step UnlocksOnce (start fun _ => create 4000)
      [.call (.worker 0) (.svctcpReply 0), .svcPoll, .go .svcRun, .go (.worker 0), .polled 0, .go .svcRun,
        .go (.worker 0)]).map
      (fun s => (s.inside .svcRun, releasing s (.go (.worker 0)), unlocksOnce s (.go (.worker 0)))) =
      some (false, some (.worker 0), true) := by decide +kernel
  obtain ⟨s, hs, hview⟩ := Option.map_eq_some_iff.mp hrun
  obtain ⟨hout, hview⟩ := Prod.mk.inj hview
  obtain ⟨hrel, hok⟩ := Prod.mk.inj hview
  have hreached := reached_of_exec _ _ .start _ hs
  exact ⟨s, hreached, hout, hrel, ((pollLock_exclusive hreached).2 _ _ hrel).mpr hok⟩

end RpcMt.PollLock
