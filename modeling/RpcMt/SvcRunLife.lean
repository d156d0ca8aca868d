import RpcMt.SvcRunSteps

/-! How long transports live under `svc_run`. A transport is destroyed when the reaper finds it under a
marked id. The invariant says that the ids of transports with a worker are not marked, up to the mark
that `svc_return` makes itself; conditions on the marks and on the reaper keep it. In mtmode 1 with
the mutex wait nothing more is needed for connections, since the first one handed to a worker stops
the dispatch thread. -/

open RpcMt.Runs RpcMt.Registry

namespace RpcMt.SvcRun

/-- The worker is on a clone, or on a connection, and is not out of `svc_return`. -/
def Worker.unfinished (clone : Bool) (w : Worker) : Bool := w.clone == clone && w.pc != .done

/-- Every transport of an unfinished worker is still there. The reaper destroys one transport at a
step, so this fails right after it has destroyed one too early. -/
def Alive (clone : Bool) (s : State) : Prop :=
  ∀ w ∈ s.workers, w.unfinished clone = true → (s.reg.heap w.xprt).isSome = true

/-! ### Conditions on the steps -/

/-- The id that `xprt_gc_mark` is called on in the step, and the workers other than the caller. -/
def marking (cfg : Config) (s : State) : Event → Option (Nat × List Worker)
  | .dispatch _ => match s.pc with
      | .received a => match s.reg.heap a with
          | some x => match x.mtxpClone, requestDispatch cfg x with
              | false, .gcMark => some (x.mtxpId, s.workers)
              | _, _ => none
          | none => none
      | _ => none
  | .stat _ _ => match s.pc with
      | .status _ a => match s.reg.heap a with
          | some x => if x.xpPriv = .conn .died then some (x.mtxpId, s.workers) else none
          | none => none
      | _ => none
  | .worker i .svcReturn => match s.workers[i]? with
      | some w => match s.reg.heap w.xprt with
          | some x =>
              if w.pc = .returned ∧ x.mtxpClone = true then some (x.mtxpId, s.workers.eraseIdx i)
              else none
          | none => none
      | none => none
  | _ => none

/-- The id of the worker's transport is on the same bit as `id`. -/
def sharesBit (s : Xports) (id : Nat) (w : Worker) : Bool :=
  match s.heap w.xprt with
  | some x => decide (Bitvec.SameBit id x.mtxpId)
  | none => false

/-- The step marks no id that shares a bit with the transport of an unfinished worker. -/
def safeMark (cfg : Config) (clone : Bool) (s : State) (e : Event) : Bool :=
  match marking cfg s e with
  | some (id, ws) => ws.all fun w => !(w.unfinished clone && sharesBit s.reg id w)
  | none => true

/-- The step hands no transport to a worker whose id is marked already. -/
def safeHandover (clone : Bool) (s : State) (e : Event) : Bool :=
  match e, s.pc with
  | .dispatch _, .received a => match s.reg.heap a with
      | some x => match handedId s.reg x with
          | some id => x.mtxpClone != clone || !s.reg.xprtgcIdset.bit id
          | none => true
      | none => true
  | _, _ => true

/-- The reaper is not at the marked id of a clone whose worker is between the mark and the last
`xprt_set_busy` of `svc_return`. -/
def safeReap (s : State) (e : Event) : Bool :=
  match e, s.pc with
  | .reap, .reaping _ id => !s.reg.xprtgcIdset.bit id ||
      s.workers.all fun w => !(w.clone && w.pc == .marked && s.reg.xports id == .ref w.xprt)
  | _, _ => true

def ConnSafe (cfg : Config) (s : State) (e : Event) : Prop :=
  (cfg.mtmode = 1 ∧ cfg.waitMethodTcp = waitMutex) ∨
    (safeMark cfg false s e = true ∧ safeHandover false s e = true)

def CloneSafe (cfg : Config) (s : State) (e : Event) : Prop :=
  safeMark cfg true s e = true ∧ safeHandover true s e = true ∧ safeReap s e = true

instance (cfg : Config) (s : State) (e : Event) : Decidable (ConnSafe cfg s e) :=
  inferInstanceAs (Decidable (_ ∨ _))

instance (cfg : Config) (s : State) (e : Event) : Decidable (CloneSafe cfg s e) :=
  inferInstanceAs (Decidable (_ ∧ _))

/-! ### Workers whose transport is not marked -/

/-- The transport of an unfinished worker is there, and is marked at most by that worker's own
`svc_return`. -/
def Covered (clone : Bool) (s : Xports) (w : Worker) : Prop :=
  w.unfinished clone = true → ∃ x, s.heap w.xprt = some x ∧ x.mtxpClone = clone ∧
    (s.xprtgcIdset.bit x.mtxpId = true → clone = true ∧ w.pc = .marked)

structure LifeInv (clone : Bool) (s : State) : Prop where
  entries : Entries s.reg
  covered : ∀ w ∈ s.workers, Covered clone s.reg w

variable {cfg : Config} {clone : Bool}

theorem LifeInv.alive {s : State} (h : LifeInv clone s) : Alive clone s := by
  intro w hw hun
  obtain ⟨x, hx, _⟩ := h.covered w hw hun
  rw [hx]
  rfl

theorem LifeInv.congr {s t : State} (h : LifeInv clone s) (hreg : t.reg = s.reg)
    (hw : t.workers = s.workers) : LifeInv clone t := by
  refine ⟨hreg ▸ h.entries, fun w hmem => ?_⟩
  rw [hreg]
  exact h.covered w (hw ▸ hmem)

theorem Covered.change {s t : Xports} {w : Worker} {m : Option Nat} (h : Covered clone s w)
    (hc : Change cfg m s t)
    (hm : ∀ id, m = some id → (w.unfinished clone && sharesBit s id w) = false) :
    Covered clone t w := by
  intro hun
  obtain ⟨x, hx, hclone, hbit⟩ := h hun
  obtain ⟨y, hy, ht⟩ := hc.kept _ x hx
  refine ⟨y, hy, ht.clone.trans hclone, fun hy => ?_⟩
  rw [ht.id] at hy
  rcases hc.bits _ hy with hold | ⟨id, hid, hsame⟩
  · exact hbit hold
  · have hno := hm id hid
    rw [hun, Bool.true_and] at hno
    simp [sharesBit, hx, hsame] at hno

theorem LifeInv.change {s t : State} {m : Option Nat} (h : LifeInv clone s)
    (hc : Change cfg m s.reg t.reg) (hw : t.workers = s.workers)
    (hm : ∀ id, m = some id → ∀ w ∈ s.workers, (w.unfinished clone && sharesBit s.reg id w) = false) :
    LifeInv clone t := by
  refine ⟨hc.entries, fun w hmem => ?_⟩
  rw [hw] at hmem
  exact (h.covered w hmem).change hc fun id hid => hm id hid w hmem

/-- Nothing is marked. -/
theorem LifeInv.quiet {s t : State} (h : LifeInv clone s) (hc : Change cfg none s.reg t.reg)
    (hw : t.workers = s.workers) : LifeInv clone t := h.change hc hw nofun

theorem safeMark_iff {s : State} {e : Event} {id : Nat} {ws : List Worker}
    (hmark : marking cfg s e = some (id, ws)) :
    safeMark cfg clone s e = true ↔ ∀ w ∈ ws, (w.unfinished clone && sharesBit s.reg id w) = false := by
  simp only [safeMark, hmark, List.all_eq_true, Bool.not_eq_true']

theorem lifeInv_stat {s t : State} {io : Reading} {eof : Bool} (h : LifeInv clone s)
    (hsafe : safeMark cfg clone s (.stat io eof) = true) (hst : stat s io eof = some t) :
    LifeInv clone t := by
  obtain ⟨hw, a, w, x, hpc, hx, hchange | ⟨hdied, hchange⟩⟩ := @stat_ok cfg _ _ _ _ h.entries hst
  · exact h.quiet hchange hw
  · have hmark : marking cfg s (.stat io eof) = some (x.mtxpId, s.workers) := by
      simp [marking, hpc, hx, hdied]
    apply h.change hchange hw
    rintro id ⟨⟩
    exact (safeMark_iff hmark).mp hsafe

theorem lifeInv_dispatch {s t : State} {b : Addr} (h : LifeInv clone s)
    (hsafe : safeMark cfg clone s (.dispatch b) = true)
    (hhand : safeHandover clone s (.dispatch b) = true) (hst : dispatch cfg s b = some t) :
    LifeInv clone t := by
  obtain ⟨a, x, hpc, hx, hcase⟩ := dispatch_ok h.entries hst
  cases hcase with
  | marked hno hreq hw hchange =>
      have hmark : marking cfg s (.dispatch b) = some (x.mtxpId, s.workers) := by
        simp [marking, hpc, hx, hno, hreq]
      apply h.change hchange hw
      rintro id ⟨⟩
      exact (safeMark_iff hmark).mp hsafe
  | handed w y _ hw hchange hy hcl hid _ =>
      refine ⟨hchange.entries, fun w' hmem => ?_⟩
      rw [hw, List.mem_append, List.mem_singleton] at hmem
      rcases hmem with hmem | rfl
      · exact (h.covered w' hmem).change hchange nofun
      · -- The new worker: its id was not marked, and handing it over marks nothing.
        intro hun
        have hkind : x.mtxpClone = clone := by
          simp only [Worker.unfinished, Bool.and_eq_true, beq_iff_eq] at hun
          exact hun.1
        refine ⟨y, hy, hcl.trans hkind, fun hbit => ?_⟩
        have hold := (hchange.bits _ hbit).resolve_right (by simp)
        simp [safeHandover, hpc, hx, hid, hkind, hold] at hhand

theorem mem_set_cases {w w' : Worker} {ws : List Worker} {i : Nat} (h : w ∈ ws.set i w') :
    w = w' ∨ w ∈ ws.eraseIdx i := by
  obtain ⟨j, hj⟩ := List.mem_iff_getElem?.mp h
  rw [List.getElem?_set] at hj
  split at hj
  · split at hj
    · exact Or.inl (Option.some.inj hj).symm
    · cases hj
  · rename_i hij
    exact Or.inr (List.mem_eraseIdx_iff_getElem?.mpr ⟨j, fun h => hij h.symm, hj⟩)

theorem lifeInv_worker {s t : State} {i : Nat} {c : Call} (h : LifeInv clone s)
    (hsafe : safeMark cfg clone s (.worker i c) = true) (hst : worker cfg s i c = some t) :
    LifeInv clone t := by
  obtain ⟨w, x, hi, hx, _, hcase⟩ := worker_ok h.entries hst
  have hcov := h.covered w (List.mem_of_getElem? hi)
  cases hcase with
  | marked hpc hc hw hchange =>
      subst hc
      refine ⟨hchange.entries, fun w' hmem => ?_⟩
      rw [hw] at hmem
      rcases mem_set_cases hmem with rfl | hother
      · -- The caller's own mark, which is none if it is on a connection.
        intro hun
        have hkind : w.clone = clone := by
          simp only [Worker.unfinished, Bool.and_eq_true, beq_iff_eq] at hun
          exact hun.1
        obtain ⟨x', hx', hclone, hbit⟩ := hcov (by simp [Worker.unfinished, hkind, hpc])
        cases hx.symm.trans hx'
        obtain ⟨y, hy, ht⟩ := hchange.kept _ x hx
        refine ⟨y, hy, ht.clone.trans hclone, fun hy => ⟨?_, rfl⟩⟩
        cases hcl : clone with
        | true => rfl
        | false =>
            rw [ht.id] at hy
            have hold := (hchange.bits _ hy).resolve_right (by simp [hclone, hcl])
            exact (hcl ▸ (hbit hold).1)
      · apply (h.covered w' (List.mem_of_mem_eraseIdx hother)).change hchange
        intro id hid
        split at hid
        · rename_i hclone
          cases hid
          have hmark : marking cfg s (.worker i .svcReturn) = some (x.mtxpId, s.workers.eraseIdx i) := by
            simp [marking, hi, hx, hpc, hclone]
          exact (safeMark_iff hmark).mp hsafe w' hother
        · cases hid
  | called pc hmark hdone hlast hw hchange =>
      refine ⟨hchange.entries, fun w' hmem => ?_⟩
      rw [hw] at hmem
      rcases mem_set_cases hmem with rfl | hother
      · intro hun
        simp only [Worker.unfinished, Bool.and_eq_true, beq_iff_eq, bne_iff_ne] at hun
        obtain ⟨x', hx', hclone, hbit⟩ := hcov (by simp [Worker.unfinished, hun.1, hdone])
        cases hx.symm.trans hx'
        obtain ⟨y, hy, ht⟩ := hchange.kept _ x hx
        refine ⟨y, hy, ht.clone.trans hclone, fun hy => ?_⟩
        rw [ht.id] at hy
        have hold := (hchange.bits _ hy).resolve_right (by simp)
        exact absurd (hlast (hbit hold).2) hun.2
      · exact (h.covered w' (List.mem_of_mem_eraseIdx hother)).change hchange nofun

theorem lifeInv_reap {s t : State} (h : LifeInv clone s) (hsafe : clone = true → safeReap s .reap = true)
    (hst : reap s = some t) : LifeInv clone t := by
  obtain ⟨c, id, hpc, hw, hsame | hreaped⟩ := reap_ok h.entries hst
  · exact h.congr hsame hw
  · refine ⟨hreaped.entries, fun w hmem hun => ?_⟩
    rw [hw] at hmem
    obtain ⟨x, hx, hclone, hbit⟩ := h.covered w hmem hun
    rcases hreaped.kept w.xprt with hkept | ⟨_, hentry, hmarked⟩
    · obtain ⟨y, hy, hcore⟩ := hkept.after hx
      have ht := @touched_of_core defaultConfig _ _ hcore
      refine ⟨y, hy, ht.clone.trans hclone, fun hy => ?_⟩
      rw [ht.id] at hy
      exact hbit (hreaped.bits _ hy)
    · -- What the reaper destroys is marked, so its worker is a clone's, in the last step of its return.
      exfalso
      obtain ⟨x', hx', hid⟩ := h.entries id w.xprt hentry
      cases hx.symm.trans hx'
      obtain ⟨htrue, hmark⟩ := hbit (by rw [hid]; exact hmarked)
      have hsafe := hsafe htrue
      have hcl : w.clone = true := by
        simp only [Worker.unfinished, Bool.and_eq_true, beq_iff_eq] at hun
        exact hun.1.trans htrue
      simp only [safeReap, hpc, hmarked, Bool.not_true, Bool.false_or, List.all_eq_true] at hsafe
      have hno := hsafe w hmem
      simp [hcl, hmark, hentry] at hno

theorem lifeInv_step {s t : State} {e : Event} (h : LifeInv clone s)
    (hmark : safeMark cfg clone s e = true) (hhand : safeHandover clone s e = true)
    (hreap : clone = true → safeReap s e = true) (hst : svcRunStep cfg s e = some t) :
    LifeInv clone t := by
  cases e with
  | svcudpCreate a sock port stat =>
      obtain ⟨u, hu, hpure⟩ := Option.bind_eq_some_iff.mp hst
      cases hpure
      exact h.quiet (@svcCreate_change cfg _ _ _ _ _ _ _ h.entries hu) rfl
  | svctcpCreate a sock port stat =>
      obtain ⟨u, hu, hpure⟩ := Option.bind_eq_some_iff.mp hst
      cases hpure
      exact h.quiet (@svcCreate_change cfg _ _ _ _ _ _ _ h.entries hu) rfl
  | reap => exact lifeInv_reap h hreap hst
  | svcPoll ready =>
      obtain ⟨hreg, hw, _⟩ := svcPoll_ok hst
      exact h.congr hreg hw
  | svcGetreqPoll revents =>
      obtain ⟨hreg, hw, _⟩ := svcGetreqPoll_ok hst
      exact h.congr hreg hw
  | recv r =>
      obtain ⟨hchange, hw, _⟩ := recv_ok h.entries hst
      exact h.quiet hchange hw
  | refuse died =>
      obtain ⟨hchange, hw, _⟩ := @refuse_ok cfg _ _ _ h.entries hst
      exact h.quiet hchange hw
  | dispatch b => exact lifeInv_dispatch h hmark hhand hst
  | wait =>
      obtain ⟨hchange, hw, _⟩ := wait_ok h.entries hst
      exact h.quiet hchange hw
  | stat io eof => exact lifeInv_stat h hmark hst
  | worker i c => exact lifeInv_worker h hmark hst

/-! ### The mutex wait of mtmode 1

A connection is created with `mtxp_mtready` locked and `svctcp_getargs` never unlocks it, so the
dispatch thread stays in its wait for the first connection that it hands over. -/

/-- An unfinished worker on a connection has the dispatch thread waiting for it. -/
structure MutexInv (s : State) : Prop where
  entries : Entries s.reg
  shaped : AllShaped s.reg
  held : ∀ w ∈ s.workers, w.clone = false → ∃ a x waiter, s.pc = .waiting a w.xprt waiter ∧
    (waiter = .enter ∨ waiter = .locking) ∧ s.reg.heap w.xprt = some x ∧ x.mtxpClone = false

theorem MutexInv.alive {s : State} (h : MutexInv s) : Alive false s := by
  intro w hw hun
  simp only [Worker.unfinished, Bool.and_eq_true, beq_iff_eq] at hun
  obtain ⟨_, x, _, _, _, hx, _⟩ := h.held w hw hun.1
  rw [hx]
  rfl

/-- The dispatch thread is not waiting, so there is no worker on a connection, and none is added. -/
theorem MutexInv.idle {s t : State} (h : MutexInv s) (hpc : ∀ a w waiter, s.pc ≠ .waiting a w waiter)
    (hentries : Entries t.reg) (hshaped : AllShaped t.reg) (hw : t.workers = s.workers) : MutexInv t := by
  refine ⟨hentries, hshaped, fun w hmem hcl => ?_⟩
  obtain ⟨a, _, waiter, hwait, _⟩ := h.held w (hw ▸ hmem) hcl
  exact absurd hwait (hpc a w.xprt waiter)

theorem MutexInv.kept {s t : State} {m : Option Nat} (h : MutexInv s)
    (hm : cfg.waitMethodTcp = waitMutex) (hc : Change cfg m s.reg t.reg) (hpc : t.pc = s.pc)
    (hw : ∀ w ∈ t.workers, ∃ w' ∈ s.workers, w.xprt = w'.xprt ∧ w.clone = w'.clone) : MutexInv t := by
  refine ⟨hc.entries, hc.shaped hm h.shaped, fun w hmem hcl => ?_⟩
  obtain ⟨w', hmem', hxprt, hclone⟩ := hw w hmem
  obtain ⟨a, x, waiter, hwait, hloop, hx, hxcl⟩ := h.held w' hmem' (hclone ▸ hcl)
  obtain ⟨y, hy, ht⟩ := hc.kept _ x hx
  rw [hxprt, hpc]
  exact ⟨a, y, waiter, hwait, hloop, hy, ht.clone.trans hxcl⟩

theorem mutexInv_wait {s t : State} (hm : cfg.waitMethodTcp = waitMutex) (h : MutexInv s)
    (hst : wait cfg s = some t) : MutexInv t := by
  obtain ⟨hchange, hw, a, w, waiter, x, hpc, hx, hpc'⟩ := wait_ok h.entries hst
  refine ⟨hchange.entries, hchange.shaped hm h.shaped, fun w' hmem hcl => ?_⟩
  obtain ⟨a', x', waiter', hpc'', hloop, hx', hxcl⟩ := h.held w' (hw ▸ hmem) hcl
  rw [hpc] at hpc''
  cases hpc''
  cases hx.symm.trans hx'
  obtain ⟨y, hy, ht⟩ := hchange.kept _ x hx
  have hnot : x.xpPriv ≠ .udp := by
    have hshape := (h.shaped _ x hx).1
    rw [hxcl] at hshape
    exact of_decide_eq_false hshape.symm
  obtain ⟨hparent, hready⟩ := (h.shaped _ x hx).2 hnot
  have hlock : (Wait.waitOnGetargs cfg (waiter, x)).1 = .locking := by
    rcases hloop with rfl | rfl
    · simp [Wait.waitOnGetargs, Wait.waitMethod, hparent, hm]
    · simp [Wait.waitOnGetargs, hready]
  rw [hlock, if_neg (by decide)] at hpc'
  exact ⟨a, y, .locking, hpc', Or.inr rfl, hy, ht.clone.trans hxcl⟩

theorem mutexInv_dispatch {s t : State} {b : Addr} (hmode : cfg.mtmode = 1)
    (hm : cfg.waitMethodTcp = waitMutex) (h : MutexInv s) (hst : dispatch cfg s b = some t) :
    MutexInv t := by
  obtain ⟨a, x, hpc, hx, hcase⟩ := dispatch_ok h.entries hst
  have hnot : ∀ a' w waiter, s.pc ≠ .waiting a' w waiter := by simp [hpc]
  cases hcase with
  | marked _ _ hw hchange => exact h.idle hnot hchange.entries (hchange.shaped hm h.shaped) hw
  | handed w y _ hw hchange hy hcl _ hpc' =>
      refine ⟨hchange.entries, hchange.shaped hm h.shaped, fun w' hmem hfalse => ?_⟩
      rw [hw, List.mem_append, List.mem_singleton] at hmem
      rcases hmem with hmem | rfl
      · obtain ⟨a', _, waiter, hwait, _⟩ := h.held w' hmem hfalse
        exact absurd hwait (hnot a' w'.xprt waiter)
      · exact ⟨a, y, .enter, hpc' hmode, Or.inl rfl, hy, hcl.trans hfalse⟩

theorem mutexInv_reap {s t : State} (h : MutexInv s) (hst : reap s = some t) : MutexInv t := by
  obtain ⟨c, id, hpc, hw, hsame | hreaped⟩ := reap_ok h.entries hst
  · exact h.idle (by simp [hpc]) (hsame ▸ h.entries) (hsame ▸ h.shaped) hw
  · refine h.idle (by simp [hpc]) hreaped.entries (fun a y hy => ?_) hw
    rcases hreaped.kept a with hkept | ⟨hnone, _⟩
    · obtain ⟨x, hx, hcore⟩ := hkept.before hy
      have hshape := h.shaped a x hx
      exact hshape.touched rfl (@touched_of_core defaultConfig _ _ hcore.symm)
    · cases hnone.symm.trans hy

theorem mutexInv_step {s t : State} {e : Event} (hmode : cfg.mtmode = 1)
    (hm : cfg.waitMethodTcp = waitMutex) (h : MutexInv s) (hst : svcRunStep cfg s e = some t) :
    MutexInv t := by
  have hquiet : ∀ {m}, Change cfg m s.reg t.reg → t.workers = s.workers →
      (∀ a w waiter, s.pc ≠ .waiting a w waiter) → MutexInv t :=
    fun hc hw hpc => h.idle hpc hc.entries (hc.shaped hm h.shaped) hw
  cases e with
  | svcudpCreate a sock port stat =>
      obtain ⟨u, hu, hpure⟩ := Option.bind_eq_some_iff.mp hst
      cases hpure
      exact h.kept hm (svcCreate_change h.entries hu) rfl fun w hmem => ⟨w, hmem, rfl, rfl⟩
  | svctcpCreate a sock port stat =>
      obtain ⟨u, hu, hpure⟩ := Option.bind_eq_some_iff.mp hst
      cases hpure
      exact h.kept hm (svcCreate_change h.entries hu) rfl fun w hmem => ⟨w, hmem, rfl, rfl⟩
  | reap => exact mutexInv_reap h hst
  | svcPoll ready =>
      obtain ⟨hreg, hw, hpc⟩ := svcPoll_ok hst
      exact h.idle (by simp [hpc]) (hreg ▸ h.entries) (hreg ▸ h.shaped) hw
  | svcGetreqPoll revents =>
      obtain ⟨hreg, hw, hpc⟩ := svcGetreqPoll_ok hst
      exact h.idle (by simp [hpc]) (hreg ▸ h.entries) (hreg ▸ h.shaped) hw
  | recv r =>
      obtain ⟨hchange, hw, a, hpc⟩ := recv_ok h.entries hst
      exact hquiet hchange hw (by simp [hpc])
  | refuse died =>
      obtain ⟨hchange, hw, a, hpc⟩ := @refuse_ok cfg _ _ _ h.entries hst
      exact hquiet hchange hw (by simp [hpc])
  | dispatch b => exact mutexInv_dispatch hmode hm h hst
  | wait => exact mutexInv_wait hm h hst
  | stat io eof =>
      obtain ⟨hw, a, w, x, hpc, _, hchange | ⟨_, hchange⟩⟩ := @stat_ok cfg _ _ _ _ h.entries hst
      · exact hquiet hchange hw (by simp [hpc])
      · exact hquiet hchange hw (by simp [hpc])
  | worker i c =>
      obtain ⟨w, x, hi, _, hpc, hcase⟩ := worker_ok h.entries hst
      have hset : ∀ pc, ∀ w' ∈ s.workers.set i { w with pc := pc },
          ∃ w'' ∈ s.workers, w'.xprt = w''.xprt ∧ w'.clone = w''.clone := by
        intro pc w' hmem
        rcases List.mem_or_eq_of_mem_set hmem with hmem | rfl
        · exact ⟨w', hmem, rfl, rfl⟩
        · exact ⟨w, List.mem_of_getElem? hi, rfl, rfl⟩
      cases hcase with
      | marked _ _ hw hchange => exact h.kept hm hchange hpc (hw ▸ hset _)
      | called pc _ _ _ hw hchange => exact h.kept hm hchange hpc (hw ▸ hset _)

/-! ### Every run -/

theorem entries_start (dtablesize : Nat) : Entries (start dtablesize).reg := nofun

theorem lifeInv_start (clone : Bool) (dtablesize : Nat) : LifeInv clone (start dtablesize) :=
  ⟨entries_start dtablesize, nofun⟩

/-- In every run whose steps are all safe for connections, no connection is destroyed while its worker
has not finished `svc_return`. -/
theorem conn_alive {cfg : Config} {dtablesize : Nat} {s : State}
    (h : Reached (svcRunStep cfg) (ConnSafe cfg) (start dtablesize) s) : Alive false s := by
  by_cases hmutex : cfg.mtmode = 1 ∧ cfg.waitMethodTcp = waitMutex
  · have hinv : MutexInv s := by
      apply h.invariant MutexInv ⟨entries_start dtablesize, nofun, nofun⟩
      intro s e t hs _ hst
      exact mutexInv_step hmutex.1 hmutex.2 hs hst
    exact hinv.alive
  · have hinv : LifeInv false s := by
      apply h.invariant (LifeInv false) (lifeInv_start false dtablesize)
      intro s e t hs hok hst
      obtain ⟨hmark, hhand⟩ := hok.resolve_left hmutex
      exact lifeInv_step hs hmark hhand nofun hst
    exact hinv.alive

/-- In every run whose steps are all safe for clones, no clone is destroyed before its worker has made
its last access to it, and no transport is destroyed twice: the table holds live ones only. -/
theorem clone_alive {cfg : Config} {dtablesize : Nat} {s : State}
    (h : Reached (svcRunStep cfg) (CloneSafe cfg) (start dtablesize) s) :
    Alive true s ∧ Entries s.reg := by
  have hinv : LifeInv true s := by
    apply h.invariant (LifeInv true) (lifeInv_start true dtablesize)
    intro s e t hs ⟨hmark, hhand, hreap⟩ hst
    exact lifeInv_step hs hmark hhand (fun _ => hreap) hst
  exact ⟨hinv.alive, hinv.entries⟩

/-! ### Runs that destroy a transport too early -/

def mtmode2 : Config := { defaultConfig with mtmode := 2 }

/-- A rendezvous transport on descriptor 3 accepts a connection, which becomes descriptor 4. -/
def acceptConn : List Event :=
  [.svctcpCreate 0 3 111 .idle, .reap, .svcPoll true, .svcGetreqPoll true, .reap,
    .recv (.conn 1 4 .idle), .stat .unused true, .svcGetreqPoll true, .reap, .reap]

/-- A call on the connection is received and handed to a worker. -/
def serveConn : List Event :=
  [.svcPoll true, .svcGetreqPoll false, .svcGetreqPoll true, .reap, .recv (.msg .ok), .dispatch 9,
    .stat .unused true]

/-- The peer closes the connection, which is noticed, marked and reaped. -/
def closeConn : List Event :=
  [.svcGetreqPoll true, .reap, .reap, .svcPoll true, .svcGetreqPoll false, .svcGetreqPoll true, .reap,
    .recv (.fail .failed), .stat .unused true, .svcGetreqPoll true, .reap, .reap]

def workersAlive (s : State) : List (Worker × Bool) :=
  s.workers.map fun w => (w, (s.reg.heap w.xprt).isSome)

theorem not_alive {clone : Bool} {s : State} {w : Worker} {ws : List (Worker × Bool)}
    (hs : workersAlive s = (w, false) :: ws) (hun : w.unfinished clone = true) : ¬Alive clone s := by
  intro halive
  cases hw : s.workers with
  | nil => simp [workersAlive, hw] at hs
  | cons w' rest =>
      simp only [workersAlive, hw, List.map_cons, List.cons.injEq, Prod.mk.injEq] at hs
      obtain ⟨⟨rfl, hnone⟩, _⟩ := hs
      have hsome := halive w' (by rw [hw]; exact List.mem_cons_self) hun
      rw [hnone] at hsome
      cases hsome

/-- In mtmode 2 a peer that closes the connection while its call is served gets it destroyed under the
worker. -/
theorem conn_not_alive :
    ∃ s, Reached (svcRunStep mtmode2) anyStep (start 1024) s ∧ ¬Alive false s := by
  have hrun : (exec (svcRunStep mtmode2) anyStep (start 1024) (acceptConn ++ serveConn ++ closeConn)).map
      workersAlive = some [(⟨1, false, .running⟩, false)] := by decide +kernel
  obtain ⟨s, hs, halive⟩ := Option.map_eq_some_iff.mp hrun
  exact ⟨s, reached_of_exec _ _ .start _ hs, not_alive halive rfl⟩

/-- The worker decodes, replies and returns. -/
def finishConn : List Event :=
  [.worker 0 .getargs, .worker 0 (.decode true .unused), .worker 0 .endGetargs,
    .worker 0 (.reply true false), .worker 0 .svcReturn, .worker 0 .svcReturn, .worker 0 .svcReturn,
    .worker 0 .svcReturn]

/-- The same peer closes the connection after its call has been served. -/
theorem conn_alive_returned : ∃ s, Reached (svcRunStep mtmode2) (ConnSafe mtmode2) (start 1024) s ∧
    workersAlive s = [(⟨1, false, .done⟩, false)] ∧ Alive false s := by
  have hrun : (exec (svcRunStep mtmode2) (ConnSafe mtmode2) (start 1024)
      (acceptConn ++ serveConn ++ finishConn ++ closeConn)).map workersAlive =
      some [(⟨1, false, .done⟩, false)] := by decide +kernel
  obtain ⟨s, hs, hw⟩ := Option.map_eq_some_iff.mp hrun
  have hreached := reached_of_exec _ _ .start _ hs
  exact ⟨s, hreached, hw, conn_alive hreached⟩

/-- A datagram is received and handed to a worker on a clone, which decodes, replies and gets to the
last step of `svc_return`. -/
def serveDatagram : List Event :=
  [.svcudpCreate 0 3 111 .idle, .reap, .svcPoll true, .svcGetreqPoll true, .reap, .recv (.msg .unused),
    .dispatch 1, .worker 0 .getargs, .wait, .wait, .worker 0 (.reply true false), .stat .unused true,
    .worker 0 .svcReturn, .worker 0 .svcReturn, .worker 0 .svcReturn]

/-- The two turns of the reaper that get to the clone. -/
def reapClone : List Event := [.svcGetreqPoll true, .reap, .reap]

/-- With the default settings a clone is destroyed between the mark and the last step of `svc_return`. -/
theorem clone_not_alive :
    ∃ s, Reached (svcRunStep defaultConfig) anyStep (start 1024) s ∧ ¬Alive true s := by
  have hrun : (exec (svcRunStep defaultConfig) anyStep (start 1024)
      (serveDatagram ++ reapClone)).map workersAlive =
      some [(⟨1, true, .marked⟩, false)] := by decide +kernel
  obtain ⟨s, hs, halive⟩ := Option.map_eq_some_iff.mp hrun
  exact ⟨s, reached_of_exec _ _ .start _ hs, not_alive halive rfl⟩

/-- The reaper comes after the whole of `svc_return`. -/
theorem clone_alive_returned :
    ∃ s, Reached (svcRunStep defaultConfig) (CloneSafe defaultConfig) (start 1024) s ∧
      workersAlive s = [(⟨1, true, .done⟩, false)] ∧ Alive true s ∧ Entries s.reg := by
  have hrun : (exec (svcRunStep defaultConfig) (CloneSafe defaultConfig) (start 1024)
      (serveDatagram ++ [.worker 0 .svcReturn] ++ reapClone)).map workersAlive =
      some [(⟨1, true, .done⟩, false)] := by decide +kernel
  obtain ⟨s, hs, hw⟩ := Option.map_eq_some_iff.mp hrun
  have hreached := reached_of_exec _ _ .start _ hs
  exact ⟨s, hreached, hw, clone_alive hreached⟩

end RpcMt.SvcRun
