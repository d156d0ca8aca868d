import RpcMt.TcpServer

/-! What the wait of each mode achieves on one connection. In mtmode 0 the dispatch thread serves nothing
while a worker runs, in mtmode 1 with the mutex wait it never comes back from its first wait, and with
the polling wait it comes back when the last worker has decoded or returned, provided that no
milestone of an earlier worker is left when a call is handed over. -/

open RpcMt.Runs RpcMt.XdrRec

namespace RpcMt.Tcp

/-- All workers but at most one satisfy `p`. -/
def AllButOne (p : Worker → Bool) (ws : List Worker) : Prop :=
  ∃ k : Nat, ∀ (j : Nat) (w : Worker), ws[j]? = some w → p w = false → j = k

variable {p : Worker → Bool} {ws : List Worker} {w w' : Worker} {i : Nat}

/-- If worker `i` does not satisfy `p`, the others do. -/
theorem AllButOne.others (h : AllButOne p ws) (hi : ws[i]? = some w) (hw : p w = false) {v : Worker}
    (hv : v ∈ ws.set i w') : v = w' ∨ p v = true := by
  obtain ⟨k, hk⟩ := h
  obtain ⟨j, hj⟩ := List.mem_iff_getElem?.mp hv
  by_cases hij : i = j
  · left
    rw [← hij, List.getElem?_set_self (List.getElem?_eq_some_iff.mp hi).1] at hj
    exact (Option.some.inj hj).symm
  · right
    rw [List.getElem?_set_ne hij] at hj
    by_contra hno
    apply hij
    calc i
      _ = k := hk i w hi hw
      _ = j := (hk j v hj (by simpa using hno)).symm

theorem AllButOne.set (h : AllButOne p ws) (hi : ws[i]? = some w) (hw : p w = false ∨ p w' = true) :
    AllButOne p (ws.set i w') := by
  obtain ⟨k, hk⟩ := h
  refine ⟨k, fun j v hj hv => ?_⟩
  by_cases hij : i = j
  · subst hij
    rw [List.getElem?_set_self (List.getElem?_eq_some_iff.mp hi).1] at hj
    cases hj
    rcases hw with hw | hw
    · exact hk i w hi hw
    · rw [hv] at hw
      cases hw
  · rw [List.getElem?_set_ne hij] at hj
    exact hk j v hj hv

theorem AllButOne.nil : AllButOne p [] := ⟨0, fun j v hj => by simp at hj⟩

theorem AllButOne.append (h : ∀ v ∈ ws, p v = true) (w : Worker) : AllButOne p (ws ++ [w]) := by
  refine ⟨ws.length, fun j v hj hv => ?_⟩
  by_cases hlt : j < ws.length
  · rw [List.getElem?_append_left hlt] at hj
    have hp := h v (List.mem_of_getElem? hj)
    rw [hv] at hp
    cases hp
  · rw [List.getElem?_append_right (by omega)] at hj
    have hlen := (List.getElem?_eq_some_iff.mp hj).1
    simp only [List.length_singleton] at hlen
    omega

namespace TcpServer

variable {cfg : Config} {xdrCallmsg : RecFilter readtcp RpcMsg} {s t : TcpServer}

def InWait (s : TcpServer) : Prop := s.pc = .waitingReturn ∨ ∃ waiter, s.pc = .waiting waiter

/-! ### mtmode 0 -/

structure ReturnInv (s : TcpServer) : Prop where
  one : AllButOne Worker.returned s.workers
  pc : ∀ waiter, s.pc ≠ .waiting waiter
  done : s.pc ≠ .waitingReturn ∨ s.workerReturn = true → ∀ w ∈ s.workers, w.returned = true

/-- The dispatch thread is not waiting, and starts no worker. -/
theorem ReturnInv.move (h : ReturnInv s) (hw : t.workers = s.workers) (hs : s.pc ≠ .waitingReturn)
    (ht : ∀ waiter, t.pc ≠ .waiting waiter) : ReturnInv t :=
  ⟨hw ▸ h.one, ht, fun _ w hmem => h.done (Or.inl hs) w (hw ▸ hmem)⟩

theorem ReturnInv.running (h : ReturnInv s) (hi : s.workers[i]? = some w) (hw : w.returned = false) :
    s.pc = .waitingReturn ∧ s.workerReturn = false := by
  by_contra hno
  have hdone : s.pc ≠ .waitingReturn ∨ s.workerReturn = true := by
    by_cases hpc : s.pc = .waitingReturn
    · exact Or.inr (by simpa [hpc] using hno)
    · exact Or.inl hpc
  have hret := h.done hdone w (List.mem_of_getElem? hi)
  rw [hw] at hret
  cases hret

/-- A worker does something and goes on. -/
theorem ReturnInv.work (h : ReturnInv s) (hi : s.workers[i]? = some w) (hw : w.returned = false)
    (hworkers : t.workers = s.workers.set i w') (hpc : t.pc = s.pc)
    (hret : t.workerReturn = s.workerReturn) : ReturnInv t := by
  obtain ⟨hwait, hno⟩ := h.running hi hw
  refine ⟨hworkers ▸ h.one.set hi (Or.inl hw), hpc ▸ h.pc, fun hdone => ?_⟩
  rw [hpc, hret, hwait, hno] at hdone
  simp at hdone

theorem returnInv_step (hmode : cfg.mtmode = 0) {e : Event} (h : ReturnInv s)
    (hst : s.step cfg xdrCallmsg e = some t) : ReturnInv t := by
  cases e with
  | arrive r =>
      cases hst
      exact ⟨h.one, h.pc, h.done⟩
  | svcPoll =>
      obtain ⟨hpc, x, rfl, _⟩ := svcPoll_ok hst
      exact h.move rfl (by simp [hpc]) nofun
  | recv =>
      obtain ⟨hpc, r, conn, _, rfl⟩ := recv_ok hst
      exact h.move rfl (by simp [hpc]) (by cases r <;> exact nofun)
  | refuse died =>
      obtain ⟨msg, args, hpc, rfl⟩ := refuse_ok hst
      exact h.move rfl (by simp [hpc]) nofun
  | dispatch =>
      obtain ⟨msg, args, hpc, hcase⟩ := dispatch_ok hst
      have hnot : s.pc ≠ .waitingReturn := by simp [hpc]
      cases hcase with
      | dropped pc hpc' ht =>
          subst ht
          exact h.move rfl hnot (by rcases hpc' with rfl | rfl <;> exact nofun)
      | handed y pc wr _ hcase ht =>
          subst ht
          obtain ⟨_, rfl, rfl⟩ : cfg.mtmode = 0 ∧ pc = .waitingReturn ∧ wr = false := by
            rcases hcase with hcase | ⟨hone, _⟩ | ⟨htwo, _⟩
            · exact hcase
            · simp [hmode] at hone
            · simp [hmode] at htwo
          exact ⟨.append (h.done (Or.inl hnot)) _, nofun, by simp⟩
  | wait =>
      rcases wait_ok hst with ⟨hpc, rfl | ⟨hret, rfl⟩⟩ | ⟨waiter, hpc, _⟩
      · exact h
      · exact ⟨h.one, nofun, fun _ => h.done (Or.inr hret)⟩
      · exact absurd hpc (h.pc waiter)
  | stat =>
      obtain ⟨hpc, xrv, conn, pc, _, hpc', rfl⟩ := stat_ok hst
      exact h.move rfl (by simp [hpc]) (by rcases hpc' with rfl | rfl | rfl <;> exact nofun)
  | getargs i xdrArgs =>
      obtain ⟨w, rv, conn, hi, hw, _, rfl⟩ := getargs_ok hst
      exact h.work hi hw rfl rfl rfl
  | endGetargs i =>
      obtain ⟨w, hi, hw, _, rfl⟩ := endGetargs_ok hst
      exact h.work hi hw rfl rfl rfl
  | reply i died =>
      obtain ⟨w, hi, hw, rfl⟩ := reply_ok hst
      exact h.work hi hw rfl rfl rfl
  | freeargs i rv =>
      cases freeargs_ok hst
      exact ⟨h.one, h.pc, h.done⟩
  | ret i =>
      obtain ⟨w, x, hi, hw, _, _, rfl⟩ := ret_ok hst
      refine ⟨h.one.set hi (Or.inl hw), h.pc, fun _ v hv => ?_⟩
      rcases h.one.others hi hw hv with rfl | hret
      · rfl
      · exact hret

/-! ### mtmode 1 -/

/-- The dispatch thread goes on outside its waits: it leaves the flags of the transport, and starts no worker. -/
structure Moves (s t : TcpServer) : Prop where
  flags : Flags s.xprt t.xprt
  workers : t.workers = s.workers
  outside : ∀ waiter, s.pc ≠ .waiting waiter
  lands : t.pc ≠ .waitingReturn ∧ ∀ waiter, t.pc ≠ .waiting waiter

theorem svcPoll_moves (hmode : cfg.mtmode = 1) (hst : s.svcPoll cfg = some t) : Moves s t := by
  obtain ⟨hpc, x, rfl, _, hzero | rfl⟩ := svcPoll_ok hst
  · simp [hmode] at hzero
  · exact ⟨.refl _, rfl, by simp [hpc], by simp⟩

theorem recv_moves (hst : s.recv cfg xdrCallmsg = some t) : Moves s t := by
  obtain ⟨hpc, r, conn, hr, rfl⟩ := recv_ok hst
  exact ⟨(svctcpRecv_ok hr).1, rfl, by simp [hpc], by cases r <;> simp⟩

theorem refuse_moves {died : Bool} (hst : s.refuse died = some t) : Moves s t := by
  obtain ⟨msg, args, hpc, rfl⟩ := refuse_ok hst
  exact ⟨(svctcpReply_held _ died).toFlags, rfl, by simp [hpc], by simp⟩

theorem stat_moves (hst : s.stat = some t) : Moves s t := by
  obtain ⟨hpc, xrv, conn, pc, hstat, hpc', rfl⟩ := stat_ok hst
  have hf : Flags s.xprt conn.handle.1 := (svctcpStat_ok hstat).1.toFlags
  exact ⟨hf.trans ⟨rfl, rfl, rfl, rfl⟩, rfl, by simp [hpc], by rcases hpc' with rfl | rfl | rfl <;> simp⟩

/-- A call that is dispatched gives a worker, and the thread waits. -/
theorem dispatch_moves (hmode : cfg.mtmode = 1) (hst : s.dispatch cfg = some t) :
    Moves s t ∨ ∃ (msg : RpcMsg) (args : Place) (y : Svcxprt TcpConn) (workerReturn : Bool),
      requestDispatch cfg s.xprt = .call y ∧ (∀ waiter, s.pc ≠ .waiting waiter) ∧
        t = { s.setXprt y with
          pc := .waiting .enter, workerReturn := workerReturn, workers := s.workers ++ [.new msg.rmXid args] } := by
  obtain ⟨msg, args, hpc, hcase⟩ := dispatch_ok hst
  have hnot : ∀ waiter, s.pc ≠ .waiting waiter := by simp [hpc]
  cases hcase with
  | dropped pc hpc' ht =>
      subst ht
      exact Or.inl ⟨.refl _, rfl, hnot, by rcases hpc' with rfl | rfl <;> simp⟩
  | handed y pc wr hreq hcase ht =>
      have hwait : pc = .waiting .enter := by
        rcases hcase with ⟨hzero, _⟩ | ⟨_, hpc⟩ | ⟨htwo, _⟩
        · simp [hmode] at hzero
        · exact hpc
        · simp [hmode] at htwo
      exact Or.inr ⟨msg, args, y, wr, hreq, hnot, hwait ▸ ht⟩

/-! ### mtmode 1 with the mutex wait -/

structure LockedInv (s : TcpServer) : Prop where
  parent : s.xprt.mtxpParent = noParent
  ready : s.xprt.mtxpMtready = true
  pc : s.pc ≠ .waitingReturn ∧ ∀ waiter, s.pc = .waiting waiter → waiter = .enter ∨ waiter = .locking
  idle : (∀ waiter, s.pc ≠ .waiting waiter) → s.workers = []
  one : AllButOne Worker.returned s.workers

/-- The dispatch thread is not waiting, so there is no worker, and it starts none. -/
theorem LockedInv.move (h : LockedInv s) (hm : Moves s t) : LockedInv t := by
  obtain ⟨hret, hwait⟩ := hm.lands
  exact ⟨hm.flags.parent.trans h.parent, hm.flags.ready.trans h.ready,
    ⟨hret, fun waiter hpc => absurd hpc (hwait waiter)⟩, fun _ => hm.workers.trans (h.idle hm.outside),
    hm.workers ▸ h.one⟩

theorem LockedInv.work (h : LockedInv s) (hi : s.workers[i]? = some w) (hw : w.returned = false)
    (hworkers : t.workers = s.workers.set i w') (hpc : t.pc = s.pc) (hparent : t.xprt.mtxpParent = s.xprt.mtxpParent)
    (hready : t.xprt.mtxpMtready = s.xprt.mtxpMtready) : LockedInv t := by
  refine ⟨hparent.trans h.parent, hready.trans h.ready, hpc ▸ h.pc, fun hno => ?_, hworkers ▸ h.one.set hi (Or.inl hw)⟩
  rw [h.idle (hpc ▸ hno)] at hi
  cases hi

theorem svcReturn_flags {x y : Svcxprt TcpConn} (h : svcReturn cfg x = .ok y) :
    y.mtxpParent = x.mtxpParent ∧ y.mtxpMtready = x.mtxpMtready ∧ y.xpPriv.xId = x.xpPriv.xId ∧
      y.mtxpProgress .getargs = x.mtxpProgress .getargs ∧
      (cfg.mtmode = 1 → y.mtxpProgress .returned = true) := by
  unfold svcReturn at h
  split at h
  · rename_i hmode
    cases h
    exact ⟨rfl, rfl, rfl, rfl, by simp [hmode]⟩
  · split at h
    · cases h
    · cases h
      exact ⟨rfl, rfl, rfl, rfl, fun _ => rfl⟩
  · split at h
    · cases h
    · cases h
      exact ⟨rfl, rfl, rfl, rfl, fun _ => rfl⟩
  · cases h

theorem lockedInv_step (hmode : cfg.mtmode = 1) (hm : cfg.waitMethodTcp = waitMutex) {e : Event}
    (h : LockedInv s) (hst : s.step cfg xdrCallmsg e = some t) : LockedInv t := by
  cases e with
  | arrive r =>
      cases hst
      exact ⟨h.parent, h.ready, h.pc, h.idle, h.one⟩
  | svcPoll => exact h.move (svcPoll_moves hmode hst)
  | recv => exact h.move (recv_moves hst)
  | refuse died => exact h.move (refuse_moves hst)
  | dispatch =>
      rcases dispatch_moves hmode hst with hmoves | ⟨msg, args, y, wr, hreq, hnot, ht⟩
      · exact h.move hmoves
      · subst ht
        obtain ⟨_, hready, hparent, _, _⟩ := requestDispatch_call hreq
        refine ⟨hparent.trans h.parent, hready.trans h.ready, ⟨(fun heq => by cases heq), ?_⟩, fun hno => absurd rfl (hno .enter), ?_⟩
        · rintro waiter ⟨⟩
          exact Or.inl rfl
        · apply AllButOne.append
          rw [h.idle hnot]
          exact fun w hw => absurd hw List.not_mem_nil
  | wait =>
      rcases wait_ok hst with ⟨hpc, _⟩ | ⟨waiter, hpc, rfl⟩
      · exact absurd hpc h.pc.1
      · -- The lock is never free, so the thread stays at it.
        have hlock : Wait.waitOnGetargs cfg (waiter, s.xprt) = (.locking, s.xprt) := by
          rcases h.pc.2 waiter hpc with rfl | rfl
          · simp [Wait.waitOnGetargs, Wait.waitMethod, h.parent, hm]
          · simp [Wait.waitOnGetargs, h.ready]
        rw [hlock]
        refine ⟨h.parent, h.ready, ⟨(fun heq => by cases heq), ?_⟩, fun hno => absurd rfl (hno .locking), h.one⟩
        rintro waiter' ⟨⟩
        exact Or.inr rfl
  | stat => exact h.move (stat_moves hst)
  | getargs i xdrArgs =>
      obtain ⟨w, rv, conn, hi, hw, hrun, rfl⟩ := getargs_ok hst
      have hf : Held s.xprt conn.handle.1 := svctcpGetargs_held hrun
      exact h.work hi hw rfl rfl hf.parent hf.ready
  | endGetargs i =>
      obtain ⟨w, hi, hw, _, rfl⟩ := endGetargs_ok hst
      have hend : RpcMt.endGetargs cfg s.xprt = (s.xprt.setProgress .getargs).setBusy 1 := if_pos hm
      exact h.work hi hw rfl rfl (by rw [hend]; rfl) (by rw [hend]; rfl)
  | reply i died =>
      obtain ⟨w, hi, hw, rfl⟩ := reply_ok hst
      exact h.work hi hw rfl rfl rfl rfl
  | freeargs i rv =>
      cases freeargs_ok hst
      exact ⟨h.parent, h.ready, h.pc, h.idle, h.one⟩
  | ret i =>
      obtain ⟨w, x, hi, hw, _, hx, rfl⟩ := ret_ok hst
      obtain ⟨hparent, hready, _⟩ := svcReturn_flags hx
      exact h.work hi hw rfl rfl hparent hready

/-! ### mtmode 1 with the polling wait

A milestone of an earlier worker ends the wait for a later one at once. The condition is that none is
left at a hand-over: `XPRT_GETARGS` is clear, or `XPRT_RETURN` is set, which makes `request_dispatch`
start from zero. -/

/-- No `XPRT_GETARGS` of an earlier worker is left when a call is handed over. -/
def freshHandover (s : TcpServer) : Event → Bool
  | .dispatch => !s.xprt.mtxpProgress .getargs || s.xprt.mtxpProgress .returned
  | _ => true

structure PollInv (s : TcpServer) : Prop where
  parent : s.xprt.mtxpParent = noParent
  pc : s.pc ≠ .waitingReturn ∧ s.pc ≠ .waiting .locking ∧ s.pc ≠ .waiting .done
  one : AllButOne Worker.returned s.workers
  returned : s.xprt.mtxpProgress .returned = true → ∀ w ∈ s.workers, w.returned = true
  getargs : s.xprt.mtxpProgress .getargs = true → ∀ w ∈ s.workers, w.settled = true
  decoding : ∀ w ∈ s.workers, w.decoding.isSome = true → w.decoded = true
  idle : (∀ waiter, s.pc ≠ .waiting waiter) → ∀ w ∈ s.workers, w.returned = false →
    s.xprt.mtxpProgress .getargs = true

/-- Past a wait every worker has decoded or returned. -/
theorem PollInv.settled (h : PollInv s) (hpc : ∀ waiter, s.pc ≠ .waiting waiter) :
    ∀ w ∈ s.workers, w.settled = true := by
  intro w hmem
  cases hret : w.returned with
  | true => simp [Worker.settled, hret]
  | false => exact h.getargs (h.idle hpc w hmem hret) w hmem

theorem PollInv.move (h : PollInv s) (hm : Moves s t) : PollInv t := by
  obtain ⟨hf, hw, hs, hret, hwait⟩ := hm
  refine ⟨hf.parent.trans h.parent, ⟨hret, hwait _, hwait _⟩, hw ▸ h.one, ?_, ?_, hw ▸ h.decoding, ?_⟩
  · rw [hf.returned, hw]
    exact h.returned
  · rw [hf.getargs, hw]
    exact h.getargs
  · rw [hf.getargs, hw]
    exact fun _ => h.idle hs

/-- A worker does something other than setting one of the two milestones. -/
theorem PollInv.work (h : PollInv s) (hi : s.workers[i]? = some w) (hw : w.returned = false)
    (hworkers : t.workers = s.workers.set i w') (hpc : t.pc = s.pc) (hf : Flags s.xprt t.xprt)
    (hsettled : w.settled = true → w'.settled = true)
    (hdecoding : w'.decoding.isSome = true → w'.decoded = true) : PollInv t := by
  have hmem : w ∈ s.workers := List.mem_of_getElem? hi
  have hcases : ∀ {v}, v ∈ t.workers → v = w' ∨ v ∈ s.workers := by
    intro v hv
    rw [hworkers] at hv
    exact (List.mem_or_eq_of_mem_set hv).symm
  refine ⟨hf.parent.trans h.parent, hpc ▸ h.pc, hworkers ▸ h.one.set hi (Or.inl hw), ?_, ?_, ?_, ?_⟩
  · intro hret
    rw [hf.returned] at hret
    have hno := h.returned hret w hmem
    rw [hw] at hno
    cases hno
  · intro hget v hv
    rw [hf.getargs] at hget
    rcases hcases hv with rfl | hv
    · exact hsettled (h.getargs hget w hmem)
    · exact h.getargs hget v hv
  · intro v hv hdec
    rcases hcases hv with rfl | hv
    · exact hdecoding hdec
    · exact h.decoding v hv hdec
  · intro hno v hv hrun
    rw [hf.getargs]
    rw [hpc] at hno
    exact h.idle hno w hmem hw

theorem requestDispatch_fresh {x y : Svcxprt TcpConn} (h : requestDispatch cfg x = .call y)
    (hfresh : x.mtxpProgress .getargs = false ∨ x.mtxpProgress .returned = true) :
    y.mtxpProgress .getargs = false := by
  obtain ⟨_, rfl⟩ | ⟨hno, rfl⟩ := requestDispatch_cases h
  · rfl
  · rw [hno] at hfresh
    simpa [Svcxprt.setProgress] using hfresh

theorem pollInv_dispatch (hmode : cfg.mtmode = 1) (h : PollInv s) (hfresh : freshHandover s .dispatch = true)
    (hst : s.dispatch cfg = some t) : PollInv t := by
  rcases dispatch_moves hmode hst with hmoves | ⟨msg, args, y, wr, hreq, hnot, ht⟩
  · exact h.move hmoves
  · subst ht
    obtain ⟨hret, _, hparent, _, _⟩ := requestDispatch_call hreq
    have hor : s.xprt.mtxpProgress .getargs = false ∨ s.xprt.mtxpProgress .returned = true := by
      simpa [freshHandover] using hfresh
    have hget := requestDispatch_fresh hreq hor
    -- All earlier workers have returned: a running one would have left its `XPRT_GETARGS` alone.
    have hall : ∀ w ∈ s.workers, w.returned = true := by
      intro w hmem
      by_contra hrun
      rcases hor with hclear | hset
      · rw [h.idle hnot w hmem (by simpa using hrun)] at hclear
        cases hclear
      · exact hrun (h.returned hset w hmem)
    refine ⟨hparent.trans h.parent, by simp, .append hall _, ?_, ?_, ?_, ?_⟩
    · intro hno
      exact absurd (hret.symm.trans hno) nofun
    · intro hno
      exact absurd (hget.symm.trans hno) nofun
    · intro w hmem hdec
      rcases List.mem_append.mp hmem with hmem | hmem
      · exact h.decoding w hmem hdec
      · rw [List.mem_singleton] at hmem
        subst hmem
        cases hdec
    · intro hno
      exact absurd rfl (hno .enter)

theorem pollInv_wait (hm : cfg.waitMethodTcp ≠ waitMutex) (h : PollInv s) (hst : s.wait cfg = some t) :
    PollInv t := by
  rcases wait_ok hst with ⟨hpc, _⟩ | ⟨waiter, hpc, rfl⟩
  · exact absurd hpc h.pc.1
  · -- The thread goes on waiting, with a transport that has the same milestones.
    have hstay : ∀ {waiter' x}, Wait.waitOnGetargs cfg (waiter, s.xprt) = (waiter', x) →
        (waiter' = .enter ∨ ∃ n, waiter' = .polling n) → Flags s.xprt x →
        PollInv { s.setXprt x with pc := if waiter' = .done then .status else .waiting waiter' } := by
      intro waiter' x _ hcase hf
      have hnd : waiter' ≠ .done := by rcases hcase with rfl | ⟨n, rfl⟩ <;> simp
      have hnl : waiter' ≠ .locking := by rcases hcase with rfl | ⟨n, rfl⟩ <;> simp
      rw [if_neg hnd]
      refine ⟨hf.parent.trans h.parent, by simp [hnd, hnl], h.one, ?_, ?_, h.decoding, ?_⟩
      · intro hret
        exact h.returned (hf.returned.symm.trans hret)
      · intro hget
        exact h.getargs (hf.getargs.symm.trans hget)
      · intro hno
        exact absurd rfl (hno waiter')
    cases waiter with
    | enter =>
        have hmethod : Wait.waitMethod cfg s.xprt ≠ waitMutex := by
          simpa [Wait.waitMethod, h.parent] using hm
        have heq : Wait.waitOnGetargs cfg (.enter, s.xprt) = (.polling 0, s.xprt.setProgress .wait) := by
          simp [Wait.waitOnGetargs, hmethod]
        rw [heq]
        exact hstay heq (Or.inr ⟨0, rfl⟩) ⟨rfl, rfl, rfl, rfl⟩
    | locking => exact absurd hpc h.pc.2.1
    | polling n =>
        by_cases hn : n < Wait.jiffiesPerInterval cfg
        · by_cases hbits : s.xprt.mtxpProgress .getargs || s.xprt.mtxpProgress .returned
          · have heq : Wait.waitOnGetargs cfg (.polling n, s.xprt) = (.done, s.xprt.clrProgress .wait) := by
              simp only [Wait.waitOnGetargs, hn, hbits, if_true]
            rw [heq, if_pos rfl]
            refine ⟨h.parent, by simp, h.one, h.returned, h.getargs, h.decoding, ?_⟩
            intro _ w hmem hrun
            show s.xprt.mtxpProgress .getargs = true
            rcases Bool.or_eq_true_iff.mp hbits with hget | hret
            · exact hget
            · have hall := h.returned hret w hmem
              rw [hrun] at hall
              cases hall
          · have heq : Wait.waitOnGetargs cfg (.polling n, s.xprt) = (.polling (n + 1), s.xprt) := by
              simp only [Wait.waitOnGetargs, hn, hbits, if_true, if_false, Bool.false_eq_true]
            rw [heq]
            exact hstay heq (Or.inr ⟨n + 1, rfl⟩) (.refl _)
        · have heq : Wait.waitOnGetargs cfg (.polling n, s.xprt) = (.polling 0, s.xprt) := by
            simp only [Wait.waitOnGetargs, hn, if_false]
          rw [heq]
          exact hstay heq (Or.inr ⟨0, rfl⟩) (.refl _)
    | done => exact absurd hpc h.pc.2.2

theorem pollInv_endGetargs (h : PollInv s) (hst : s.endGetargs cfg i = some t) : PollInv t := by
  obtain ⟨w, hi, hw, hdec, rfl⟩ := endGetargs_ok hst
  have hmem : w ∈ s.workers := List.mem_of_getElem? hi
  have hdecoded := h.decoding w hmem hdec
  have hget : (RpcMt.endGetargs cfg s.xprt).mtxpProgress .getargs = true := by
    unfold RpcMt.endGetargs
    by_cases hm : cfg.waitMethodTcp = 1
    · rw [if_pos hm]
      rfl
    · rw [if_neg hm]
      rfl
  have hrest : (RpcMt.endGetargs cfg s.xprt).mtxpParent = s.xprt.mtxpParent ∧
      (RpcMt.endGetargs cfg s.xprt).mtxpProgress .returned = s.xprt.mtxpProgress .returned := by
    unfold RpcMt.endGetargs
    by_cases hm : cfg.waitMethodTcp = 1
    · rw [if_pos hm]
      exact ⟨rfl, rfl⟩
    · rw [if_neg hm]
      exact ⟨rfl, rfl⟩
  refine ⟨hrest.1.trans h.parent, h.pc, h.one.set hi (Or.inl hw), ?_, ?_, ?_, fun _ _ _ _ => hget⟩
  · intro hret
    have hno := h.returned (hrest.2.symm.trans hret) w hmem
    rw [hw] at hno
    cases hno
  · intro _ v hv
    rcases h.one.others hi hw hv with rfl | hret
    · simp [Worker.settled, hdecoded]
    · simp [Worker.settled, hret]
  · intro v hv hsome
    rcases List.mem_or_eq_of_mem_set hv with hv | rfl
    · exact h.decoding v hv hsome
    · cases hsome

theorem pollInv_ret (h : PollInv s) (hst : s.ret cfg i = some t) : PollInv t := by
  obtain ⟨w, x, hi, hw, hdec, hx, rfl⟩ := ret_ok hst
  obtain ⟨hparent, _, _, hget, _⟩ := svcReturn_flags hx
  have hall : ∀ v ∈ s.workers.set i { w with returned := true }, v.returned = true := by
    intro v hv
    rcases h.one.others hi hw hv with rfl | hret
    · rfl
    · exact hret
  refine ⟨hparent.trans h.parent, h.pc, h.one.set hi (Or.inl hw), fun _ => hall, ?_, ?_, ?_⟩
  · intro _ v hv
    simp [Worker.settled, hall v hv]
  · intro v hv hsome
    rcases List.mem_or_eq_of_mem_set hv with hv | rfl
    · exact h.decoding v hv hsome
    · rw [hdec] at hsome
      cases hsome
  · intro _ v hv hrun
    rw [hall v hv] at hrun
    cases hrun

theorem pollInv_step (hmode : cfg.mtmode = 1) (hm : cfg.waitMethodTcp ≠ waitMutex) {e : Event}
    (h : PollInv s) (hfresh : freshHandover s e = true) (hst : s.step cfg xdrCallmsg e = some t) :
    PollInv t := by
  cases e with
  | arrive r =>
      cases hst
      exact ⟨h.parent, h.pc, h.one, h.returned, h.getargs, h.decoding, h.idle⟩
  | svcPoll => exact h.move (svcPoll_moves hmode hst)
  | recv => exact h.move (recv_moves hst)
  | refuse died => exact h.move (refuse_moves hst)
  | dispatch => exact pollInv_dispatch hmode h hfresh hst
  | wait => exact pollInv_wait hm h hst
  | stat => exact h.move (stat_moves hst)
  | getargs i xdrArgs =>
      obtain ⟨w, rv, conn, hi, hw, hrun, rfl⟩ := getargs_ok hst
      have hf : Held s.xprt conn.handle.1 := svctcpGetargs_held hrun
      exact h.work hi hw rfl rfl hf.toFlags (fun _ => rfl) (fun _ => rfl)
  | endGetargs i => exact pollInv_endGetargs h hst
  | reply i died =>
      obtain ⟨w, hi, hw, rfl⟩ := reply_ok hst
      exact h.work hi hw rfl rfl (svctcpReply_held _ died).toFlags id
        (h.decoding w (List.mem_of_getElem? hi))
  | freeargs i rv =>
      cases freeargs_ok hst
      exact ⟨h.parent, h.pc, h.one, h.returned, h.getargs, h.decoding, h.idle⟩
  | ret i => exact pollInv_ret h hst

end TcpServer

end RpcMt.Tcp
