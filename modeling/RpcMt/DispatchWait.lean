import RpcMt.Wait

/-! The end of `request_dispatch`: the service has been called, and the dispatch thread waits as `mtmode`
says, while a worker takes its steps. Without threads it waits in `wait_on_return` for `worker_return`,
with one worker at a time in `wait_on_getargs`, with many not at all. The main result says for which
calls of the worker the wait ends. -/

open RpcMt.Runs

namespace RpcMt.Wait

variable {π : Type}

def WorkerCall.isRet : WorkerCall π → Bool
  | .ret => true
  | _ => false

/-- The two loops of `wait_on_return`, one turn at a time. -/
def waitOnReturn (cfg : Config) (workerReturn : Bool) : Waiter → Waiter
  | .polling i =>
      if i < jiffiesPerInterval cfg then if workerReturn then .done else .polling (i + 1)
      else .polling 0
  | w => w

/-- The dispatch thread takes a step in `wait_on_return`. The flag `worker_return` was cleared before the
service was called, and `svc_return` sets it. -/
def Handshake.tickReturn (cfg : Config) (s : Handshake π) : Handshake π :=
  { s with waiter := waitOnReturn cfg (s.calls.any WorkerCall.isRet) s.waiter }

/-- A step of the dispatch thread. -/
def Handshake.advance (cfg : Config) (s : Handshake π) : Handshake π :=
  match cfg.mtmode with
  | 0 => s.tickReturn cfg
  | 1 => s.tick cfg
  | _ => s

theorem Handshake.advance_return {cfg : Config} (hmode : cfg.mtmode = 0) (s : Handshake π) :
    s.advance cfg = s.tickReturn cfg := by
  simp only [Handshake.advance, hmode]

theorem Handshake.advance_getargs {cfg : Config} (hmode : cfg.mtmode = 1) (s : Handshake π) :
    s.advance cfg = s.tick cfg := by
  simp only [Handshake.advance, hmode]

/-- What transport a service is called with. -/
def kindOf (x : Svcxprt π) : Kind := if x.mtxpClone then .udpClone else .tcpConn

/-- Where the dispatch thread starts. -/
def Waiter.first (cfg : Config) : Waiter := if cfg.mtmode = 0 then .polling 0 else .enter

/-- The steps of the worker and of the dispatch thread, in the order in which they are taken. -/
def takeSteps (cfg : Config) (kind : Kind) : List (HandshakeStep π) → Handshake π → Res (Handshake π)
  | [], s => .ok s
  | .waiter :: steps, s => takeSteps cfg kind steps (s.advance cfg)
  | .worker c :: steps, s => do
      let x ← workerCall cfg kind s.xprt c
      takeSteps cfg kind steps { s with xprt := x, calls := s.calls ++ [c] }

/-- The dispatch thread goes on alone. Two more steps show whether it ever gets past its wait
(`canProceed_iff_tick`). -/
def Handshake.proceed (cfg : Config) (s : Handshake π) : Res (Svcxprt π) :=
  let s := (s.advance cfg).advance cfg
  if s.waiter = .done then .ok s.xprt else .error .noReturn

/-- The wait of each `mtmode`. The two that count jiffies divide by `jiffy`. -/
def finishWait (cfg : Config) (s : Handshake π) : Res (Svcxprt π) :=
  match cfg.mtmode with
  | 0 => if cfg.jiffy = 0 then .error .divideByZero else s.proceed cfg
  | 1 =>
      if waitMethod cfg s.xprt ≠ waitMutex ∧ cfg.jiffy = 0 then .error .divideByZero
      else s.proceed cfg
  | 2 => .ok s.xprt
  | _ => .error .svcDie

/-- `request_dispatch` from the call of the service on. -/
def awaitWorker (cfg : Config) (x : Svcxprt π) (steps : List (HandshakeStep π)) : Res (Svcxprt π) := do
  let s ← takeSteps cfg (kindOf x) steps ⟨.first cfg, x, []⟩
  finishWait cfg s

/-- The calls of the worker. -/
def workerCalls (steps : List (HandshakeStep π)) : List (WorkerCall π) :=
  steps.flatMap fun
    | .waiter => []
    | .worker c => [c]

/-- When the dispatch thread gets past its wait, by the calls of the worker. -/
def WaitEnds (cfg : Config) (x : Svcxprt π) (calls : List (WorkerCall π)) : Prop :=
  match cfg.mtmode with
  | 0 => 0 < jiffiesPerInterval cfg ∧ ∃ c ∈ calls, c.isRet = true
  | 1 => Ends cfg (kindOf x) x calls
  | _ => True

/-! ### What a step leaves alone -/

/-- A worker and the wait for it write the private data, the busy flag, the mutex and the milestones. -/
def Worked (x y : Svcxprt π) : Prop :=
  y = { x with
    xpPriv := y.xpPriv
    mtxpBusy := y.mtxpBusy
    mtxpMtready := y.mtxpMtready
    mtxpProgress := y.mtxpProgress }

theorem Worked.refl (x : Svcxprt π) : Worked x x := rfl

theorem Worked.trans {x y z : Svcxprt π} (hxy : Worked x y) (hyz : Worked y z) : Worked x z := by
  unfold Worked at hxy hyz ⊢
  rw [hxy] at hyz
  exact hyz

theorem Worked.parent {x y : Svcxprt π} (h : Worked x y) : y.mtxpParent = x.mtxpParent := by
  unfold Worked at h
  rw [h]

theorem waitOnGetargs_worked (cfg : Config) (w : Waiter) (x : Svcxprt π) :
    Worked x (waitOnGetargs cfg (w, x)).2 := by
  cases w with
  | enter =>
      rw [waitOnGetargs]
      split <;> rfl
  | locking =>
      rw [waitOnGetargs]
      split <;> rfl
  | polling i =>
      rw [waitOnGetargs]
      split
      · split <;> rfl
      · rfl
  | done => rfl

theorem Handshake.advance_worked (cfg : Config) (s : Handshake π) : Worked s.xprt (s.advance cfg).xprt := by
  unfold Handshake.advance
  split
  · rfl
  · exact waitOnGetargs_worked cfg s.waiter s.xprt
  · rfl

theorem Handshake.advance_calls (cfg : Config) (s : Handshake π) : (s.advance cfg).calls = s.calls := by
  unfold Handshake.advance
  split <;> rfl

theorem svcReturn_worked {cfg : Config} {x y : Svcxprt π} (h : svcReturn cfg x = .ok y) : Worked x y := by
  unfold svcReturn at h
  split at h
  · cases h
    rfl
  · split at h
    · cases h
    · cases h
      rfl
  · split at h
    · cases h
    · cases h
      rfl
  · cases h

theorem workerCall_worked {cfg : Config} {kind : Kind} {x y : Svcxprt π} {c : WorkerCall π}
    (h : workerCall cfg kind x c = .ok y) : Worked x y := by
  cases c with
  | getargs rv priv =>
      cases kind with
      | tcpConn =>
          change svctcpGetargs cfg x rv priv = .ok y at h
          unfold svctcpGetargs at h
          dsimp only at h
          split at h
          · cases h
          · cases h
            split <;> rfl
      | udpClone =>
          cases h
          unfold svcudpGetargs
          split <;> rfl
  | reply stat priv =>
      cases kind with
      | tcpConn =>
          cases h
          rfl
      | udpClone =>
          cases h
          unfold svcudpReply
          dsimp only
          split <;> rfl
  | freeargs rv priv =>
      cases kind with
      | tcpConn =>
          change svctcpFreeargs cfg x rv priv = .ok y at h
          unfold svctcpFreeargs at h
          split at h
          · cases h
          · cases h
            rfl
      | udpClone =>
          cases h
          rfl
  | ret => exact svcReturn_worked h

/-- A transport whose worker can return: in the modes with threads a clone, or a transport that has no
clones. -/
def CanReturn (cfg : Config) (x : Svcxprt π) : Prop :=
  cfg.mtmode ≠ 0 → (x.mtxpParent = noParent ↔ x.mtxpClone = false)

theorem CanReturn.worked {cfg : Config} {x y : Svcxprt π} (h : CanReturn cfg x) (hxy : Worked x y) :
    CanReturn cfg y := by
  unfold Worked at hxy
  rw [hxy]
  exact h

theorem CanReturn.method {cfg : Config} {x : Svcxprt π} (h : CanReturn cfg x) (hmode : cfg.mtmode ≠ 0) :
    waitMethod cfg x = (kindOf x).method cfg := by
  unfold waitMethod kindOf
  cases hclone : x.mtxpClone with
  | true =>
      rw [if_neg fun hparent => absurd ((h hmode).mp hparent) (by simp [hclone])]
      rfl
  | false =>
      rw [if_pos ((h hmode).mpr hclone)]
      rfl

/-- Where the checks of `failfast` are off, no call of the worker ends the program. -/
theorem workerCall_ok {cfg : Config} (hmode : cfg.mtmode ≤ 2) (hfast : cfg.failfast = false) (kind : Kind)
    {x : Svcxprt π} (hx : CanReturn cfg x) (c : WorkerCall π) : ∃ y, workerCall cfg kind x c = .ok y := by
  cases c with
  | getargs rv priv =>
      cases kind with
      | tcpConn =>
          show ∃ y, svctcpGetargs cfg x rv priv = .ok y
          unfold svctcpGetargs
          rw [hfast]
          exact ⟨_, rfl⟩
      | udpClone => exact ⟨_, rfl⟩
  | reply stat priv => cases kind <;> exact ⟨_, rfl⟩
  | freeargs rv priv =>
      cases kind with
      | tcpConn =>
          show ∃ y, svctcpFreeargs cfg x rv priv = .ok y
          unfold svctcpFreeargs
          rw [hfast]
          exact ⟨_, rfl⟩
      | udpClone => exact ⟨_, rfl⟩
  | ret =>
      show ∃ y, svcReturn cfg x = .ok y
      have hlives : cfg.mtmode ≠ 0 → ¬(x.mtxpClone && x.mtxpParent == noParent) = true := by
        intro hne hboth
        obtain ⟨hclone, hparent⟩ := Bool.and_eq_true_iff.mp hboth
        rw [(hx hne).mp (eq_of_beq hparent)] at hclone
        cases hclone
      have hmodes : cfg.mtmode = 0 ∨ cfg.mtmode = 1 ∨ cfg.mtmode = 2 := by omega
      unfold svcReturn
      rcases hmodes with h0 | h1 | h2
      · rw [h0]
        exact ⟨_, rfl⟩
      · rw [h1]
        exact ⟨_, if_neg (hlives (by omega))⟩
      · rw [h2]
        exact ⟨_, if_neg (hlives (by omega))⟩

/-! ### Runs -/

theorem takeSteps_ok {cfg : Config} (hmode : cfg.mtmode ≤ 2) (hfast : cfg.failfast = false) (kind : Kind)
    (steps : List (HandshakeStep π)) {s : Handshake π} (hs : CanReturn cfg s.xprt) :
    ∃ t, takeSteps cfg kind steps s = .ok t := by
  induction steps generalizing s with
  | nil => exact ⟨s, rfl⟩
  | cons e steps ih =>
      cases e with
      | waiter => exact ih (hs.worked (s.advance_worked cfg))
      | worker c =>
          obtain ⟨y, hy⟩ := workerCall_ok hmode hfast kind hs c
          rw [takeSteps, hy]
          exact ih (s := { s with xprt := y, calls := s.calls ++ [c] }) (hs.worked (workerCall_worked hy))

theorem takeSteps_worked {cfg : Config} {kind : Kind} {steps : List (HandshakeStep π)} {s t : Handshake π}
    (h : takeSteps cfg kind steps s = .ok t) :
    Worked s.xprt t.xprt ∧ t.calls = s.calls ++ workerCalls steps := by
  induction steps generalizing s with
  | nil =>
      cases h
      exact ⟨.refl _, (List.append_nil _).symm⟩
  | cons e steps ih =>
      cases e with
      | waiter =>
          obtain ⟨hworked, hcalls⟩ := ih h
          exact ⟨(s.advance_worked cfg).trans hworked, by rw [hcalls, s.advance_calls]; rfl⟩
      | worker c =>
          obtain ⟨y, hy, h⟩ := bind_ok h
          obtain ⟨hworked, hcalls⟩ := ih h
          exact ⟨(workerCall_worked hy).trans hworked, by rw [hcalls, List.append_assoc]; rfl⟩

/-- With one worker at a time the steps are those of the handshake. -/
theorem takeSteps_reached {cfg : Config} (hmode : cfg.mtmode = 1) {kind : Kind} {steps : List (HandshakeStep π)}
    {s₀ s t : Handshake π} (hs : Reached (handshakeStep cfg kind) anyStep s₀ s)
    (h : takeSteps cfg kind steps s = .ok t) : Reached (handshakeStep cfg kind) anyStep s₀ t := by
  induction steps generalizing s with
  | nil =>
      cases h
      exact hs
  | cons e steps ih =>
      cases e with
      | waiter =>
          refine ih (hs.next (e := .waiter) trivial ?_) h
          rw [Handshake.advance_getargs hmode]
          rfl
      | worker c =>
          obtain ⟨y, hy, h⟩ := bind_ok h
          refine ih (hs.next (e := .worker c) trivial ?_) h
          rw [handshakeStep, hy]

/-! ### When the waits end -/

/-- Where the dispatch thread can be in `wait_on_return`. -/
structure ReturnInv (cfg : Config) (s : Handshake π) : Prop where
  pc : s.waiter = .done ∨ ∃ i, s.waiter = .polling i
  stuck : jiffiesPerInterval cfg ≤ 0 → s.waiter = .polling 0
  idle : s.calls.any WorkerCall.isRet = false → s.waiter ≠ .done

theorem returnInv_tick {cfg : Config} {s : Handshake π} (h : ReturnInv cfg s) : ReturnInv cfg (s.tickReturn cfg) := by
  refine ⟨?_, ?_, ?_⟩
  · rcases h.pc with hw | ⟨i, hw⟩
    · exact Or.inl (by simp [Handshake.tickReturn, hw, waitOnReturn])
    · simp only [Handshake.tickReturn, hw, waitOnReturn]
      split
      · split <;> simp
      · simp
  · intro hj
    simp [Handshake.tickReturn, h.stuck hj, waitOnReturn, Int.not_lt.mpr hj]
  · intro hno
    have hflag : s.calls.any WorkerCall.isRet = false := hno
    rcases h.pc with hw | ⟨i, hw⟩
    · exact absurd hw (h.idle hflag)
    · simp only [Handshake.tickReturn, hw, waitOnReturn, hflag]
      split <;> simp

theorem returnInv_takeSteps {cfg : Config} (hmode : cfg.mtmode = 0) {kind : Kind} {steps : List (HandshakeStep π)}
    {s t : Handshake π} (hs : ReturnInv cfg s) (h : takeSteps cfg kind steps s = .ok t) : ReturnInv cfg t := by
  induction steps generalizing s with
  | nil =>
      cases h
      exact hs
  | cons e steps ih =>
      cases e with
      | waiter =>
          refine ih ?_ h
          rw [Handshake.advance_return hmode]
          exact returnInv_tick hs
      | worker c =>
          obtain ⟨y, _, h⟩ := bind_ok h
          have hnext : ReturnInv cfg { s with xprt := y, calls := s.calls ++ [c] } := by
            refine ⟨hs.pc, hs.stuck, fun hno => hs.idle ?_⟩
            rw [List.any_append, Bool.or_eq_false_iff] at hno
            exact hno.1
          exact ih hnext h

theorem ReturnInv.done_iff {cfg : Config} {s : Handshake π} (h : ReturnInv cfg s) :
    ((s.tickReturn cfg).tickReturn cfg).waiter = .done ↔
      0 < jiffiesPerInterval cfg ∧ s.calls.any WorkerCall.isRet = true := by
  constructor
  · intro hdone
    have hinv := returnInv_tick (returnInv_tick h)
    refine ⟨?_, ?_⟩
    · by_contra hj
      rw [hinv.stuck (by omega)] at hdone
      cases hdone
    · by_contra hno
      exact hinv.idle (Bool.eq_false_iff.mpr hno) hdone
  · rintro ⟨hj, hret⟩
    rcases h.pc with hw | ⟨i, hw⟩
    · simp [Handshake.tickReturn, hw, waitOnReturn]
    · by_cases hi : i < jiffiesPerInterval cfg
      · simp [Handshake.tickReturn, hw, waitOnReturn, hi, hret]
      · simp [Handshake.tickReturn, hw, waitOnReturn, hi, hj, hret]

/-- The dispatch thread is in one of its loops, and nothing there lets it out. -/
def Blocked (cfg : Config) (s : Handshake π) : Prop :=
  (s.waiter = .locking ∧ s.xprt.mtxpMtready = true) ∨
    ∃ i, s.waiter = .polling i ∧
      ((s.xprt.mtxpProgress .getargs || s.xprt.mtxpProgress .returned) = false ∨
        jiffiesPerInterval cfg ≤ i ∧ jiffiesPerInterval cfg ≤ 0)

theorem Blocked.tick {cfg : Config} {s : Handshake π} (h : Blocked cfg s) : Blocked cfg (s.tick cfg) := by
  rcases h with ⟨hw, hlocked⟩ | ⟨i, hw, hno | ⟨hi, hj⟩⟩
  · exact Or.inl (by simp [Handshake.tick, hw, waitOnGetargs, hlocked])
  · by_cases hi : i < jiffiesPerInterval cfg
    · refine Or.inr ⟨i + 1, ?_, Or.inl ?_⟩
      · simp [Handshake.tick, hw, waitOnGetargs, hi, hno]
      · simp [Handshake.tick, hw, waitOnGetargs, hi, hno]
    · refine Or.inr ⟨0, ?_, Or.inl ?_⟩
      · simp [Handshake.tick, hw, waitOnGetargs, hi]
      · simpa [Handshake.tick, hw, waitOnGetargs, hi] using hno
  · exact Or.inr ⟨0, by simp [Handshake.tick, hw, waitOnGetargs, Int.not_lt.mpr hi], Or.inr ⟨hj, hj⟩⟩

theorem Blocked.not_done {cfg : Config} {s : Handshake π} (h : Blocked cfg s) : s.waiter ≠ .done := by
  rcases h with ⟨hw, _⟩ | ⟨i, hw, _⟩
  · simp [hw]
  · simp [hw]

/-- At the head of the inner loop the thread looks at the milestones at once, or never. -/
theorem polling_tick (cfg : Config) {s : Handshake π} (hw : s.waiter = .polling 0) :
    (s.tick cfg).waiter = .done ∨ Blocked cfg (s.tick cfg) := by
  by_cases hj : 0 < jiffiesPerInterval cfg
  · cases hbits : s.xprt.mtxpProgress .getargs || s.xprt.mtxpProgress .returned with
    | true => exact Or.inl (by simp [Handshake.tick, hw, waitOnGetargs, hj, hbits])
    | false =>
        have hblocked : Blocked cfg s := Or.inr ⟨0, hw, Or.inl hbits⟩
        exact Or.inr hblocked.tick
  · have hblocked : Blocked cfg s := Or.inr ⟨0, hw, Or.inr ⟨by omega, by omega⟩⟩
    exact Or.inr hblocked.tick

theorem locking_tick (cfg : Config) {s : Handshake π} (hw : s.waiter = .locking) :
    (s.tick cfg).waiter = .done ∨ Blocked cfg (s.tick cfg) := by
  cases hready : s.xprt.mtxpMtready with
  | true =>
      have hblocked : Blocked cfg s := Or.inl ⟨hw, hready⟩
      exact Or.inr hblocked.tick
  | false => exact Or.inl (by simp [Handshake.tick, hw, waitOnGetargs, hready])

theorem done_tick (cfg : Config) {s : Handshake π} (hw : s.waiter = .done) : (s.tick cfg).waiter = .done := by
  simp [Handshake.tick, hw, waitOnGetargs]

theorem done_or_blocked (cfg : Config) (s : Handshake π) :
    ((s.tick cfg).tick cfg).waiter = .done ∨ Blocked cfg ((s.tick cfg).tick cfg) := by
  have hstay : (s.tick cfg).waiter = .done ∨ Blocked cfg (s.tick cfg) →
      ((s.tick cfg).tick cfg).waiter = .done ∨ Blocked cfg ((s.tick cfg).tick cfg) := by
    rintro (hdone | hblocked)
    · exact Or.inl (done_tick cfg hdone)
    · exact Or.inr hblocked.tick
  cases hw : s.waiter with
  | enter =>
      by_cases hm : waitMethod cfg s.xprt = waitMutex
      · exact locking_tick cfg (by simp [Handshake.tick, hw, waitOnGetargs, hm])
      · exact polling_tick cfg (by simp [Handshake.tick, hw, waitOnGetargs, hm])
  | locking => exact hstay (locking_tick cfg hw)
  | polling i =>
      by_cases hi : i < jiffiesPerInterval cfg
      · cases hbits : s.xprt.mtxpProgress .getargs || s.xprt.mtxpProgress .returned with
        | true => exact hstay (Or.inl (by simp [Handshake.tick, hw, waitOnGetargs, hi, hbits]))
        | false =>
            have hblocked : Blocked cfg s := Or.inr ⟨i, hw, Or.inl hbits⟩
            exact hstay (Or.inr hblocked.tick)
      · exact polling_tick cfg (by simp [Handshake.tick, hw, waitOnGetargs, hi])
  | done => exact hstay (Or.inl (done_tick cfg hw))

theorem CanProceed.tick {cfg : Config} {s : Handshake π} (h : CanProceed cfg s) : CanProceed cfg (s.tick cfg) := by
  obtain ⟨n, hn⟩ := h
  refine ⟨n, ?_⟩
  rw [← Function.iterate_succ_apply, Function.iterate_succ_apply']
  exact done_tick cfg hn

/-- The thread that waits for the milestones is past its wait in two steps, or never. -/
theorem canProceed_iff_tick (cfg : Config) (s : Handshake π) :
    CanProceed cfg s ↔ ((s.tick cfg).tick cfg).waiter = .done := by
  constructor
  · intro h
    obtain ⟨n, hn⟩ := h.tick.tick
    rcases done_or_blocked cfg s with hdone | hblocked
    · exact hdone
    · have hstays : Blocked cfg ((Handshake.tick cfg)^[n] ((s.tick cfg).tick cfg)) :=
        Function.Iterate.rec (Blocked cfg) hblocked (fun _ => Blocked.tick) n
      exact absurd hn hstays.not_done
  · intro hdone
    exact ⟨2, hdone⟩

theorem proceed_ok_iff (cfg : Config) (s : Handshake π) :
    (∃ y, s.proceed cfg = .ok y) ↔ ((s.advance cfg).advance cfg).waiter = .done := by
  unfold Handshake.proceed
  dsimp only
  split
  · rename_i hdone
    exact ⟨fun _ => hdone, fun _ => ⟨_, rfl⟩⟩
  · rename_i hdone
    exact ⟨nofun, fun h => absurd h hdone⟩

/-- A thread that counts jiffies does not get past its wait where `jiffy` is zero. -/
theorem jiffy_ne_zero {cfg : Config} (h : 0 < jiffiesPerInterval cfg) : cfg.jiffy ≠ 0 := by
  intro hzero
  rw [jiffiesPerInterval, hzero, Int.tdiv_zero, Int.mul_zero] at h
  exact absurd h (Int.lt_irrefl 0)

theorem finishWait_return {cfg : Config} (hmode : cfg.mtmode = 0) {s : Handshake π} (h : ReturnInv cfg s) :
    (∃ y, finishWait cfg s = .ok y) ↔ 0 < jiffiesPerInterval cfg ∧ ∃ c ∈ s.calls, c.isRet = true := by
  have hdone : (∃ y, s.proceed cfg = .ok y) ↔ 0 < jiffiesPerInterval cfg ∧ ∃ c ∈ s.calls, c.isRet = true := by
    rw [proceed_ok_iff, Handshake.advance_return hmode, Handshake.advance_return hmode, h.done_iff, List.any_eq_true]
  rw [← hdone]
  simp only [finishWait, hmode]
  by_cases hzero : cfg.jiffy = 0
  · rw [if_pos hzero]
    exact ⟨nofun, fun hok => absurd hzero (jiffy_ne_zero (hdone.mp hok).1)⟩
  · rw [if_neg hzero]

theorem finishWait_getargs {cfg : Config} (hmode : cfg.mtmode = 1) {x : Svcxprt π} {s : Handshake π}
    (hx : CanReturn cfg x) (hret : x.mtxpProgress .returned = false) (hworked : Worked x s.xprt)
    (hs : Reached (handshakeStep cfg (kindOf x)) anyStep ⟨.enter, x, []⟩ s) :
    (∃ y, finishWait cfg s = .ok y) ↔ Ends cfg (kindOf x) x s.calls := by
  have hmethod : waitMethod cfg x = (kindOf x).method cfg := hx.method (by omega)
  have hsame : waitMethod cfg s.xprt = (kindOf x).method cfg := by
    rw [← hmethod]
    exact waitMethod_congr cfg hworked.parent
  have hdone : (∃ y, s.proceed cfg = .ok y) ↔ Ends cfg (kindOf x) x s.calls := by
    rw [← canProceed_iff_ends hmode hmethod hret hs, canProceed_iff_tick, proceed_ok_iff,
      Handshake.advance_getargs hmode, Handshake.advance_getargs hmode]
  rw [← hdone]
  simp only [finishWait, hmode, hsame]
  by_cases hzero : (kindOf x).method cfg ≠ waitMutex ∧ cfg.jiffy = 0
  · rw [if_pos hzero]
    refine ⟨nofun, fun hok => absurd hzero.2 (jiffy_ne_zero ?_)⟩
    have hends := hdone.mp hok
    rw [Ends, if_neg hzero.1] at hends
    exact hends.1
  · rw [if_neg hzero]

/-- Without threads the wait does nothing to the transport, and it ends once the service has returned. -/
theorem finishWait_returned {cfg : Config} (hmode : cfg.mtmode = 0) (hj : 0 < jiffiesPerInterval cfg)
    (x : Svcxprt π) {calls : List (WorkerCall π)} (hret : calls.any WorkerCall.isRet = true) :
    finishWait cfg ⟨.first cfg, x, calls⟩ = .ok x := by
  have hfirst : Waiter.first cfg = .polling 0 := if_pos hmode
  have hproceed : (⟨.first cfg, x, calls⟩ : Handshake π).proceed cfg = .ok x := by
    unfold Handshake.proceed
    rw [Handshake.advance_return hmode, Handshake.advance_return hmode, hfirst]
    simp [Handshake.tickReturn, waitOnReturn, hj, hret]
  simp only [finishWait, hmode]
  rw [if_neg (jiffy_ne_zero hj), hproceed]

/-- What a transport is after the wait. -/
theorem awaitWorker_worked {cfg : Config} {x y : Svcxprt π} {steps : List (HandshakeStep π)}
    (h : awaitWorker cfg x steps = .ok y) : Worked x y := by
  obtain ⟨s, hs, hfinish⟩ := bind_ok h
  have hworked := (takeSteps_worked hs).1
  have hproceed : s.proceed cfg = .ok y → Worked s.xprt y := by
    intro hok
    unfold Handshake.proceed at hok
    dsimp only at hok
    split at hok
    · cases hok
      exact (s.advance_worked cfg).trans ((s.advance cfg).advance_worked cfg)
    · cases hok
  refine hworked.trans ?_
  unfold finishWait at hfinish
  split at hfinish
  · split at hfinish
    · cases hfinish
    · exact hproceed hfinish
  · split at hfinish
    · cases hfinish
    · exact hproceed hfinish
  · cases hfinish
    exact .refl _
  · cases hfinish

/-- The dispatch thread gets past the wait for a worker if and only if the calls of the worker are such as
to end it. -/
theorem awaitWorker_ok_iff {cfg : Config} (hmode : cfg.mtmode ≤ 2) (hfast : cfg.failfast = false) {x : Svcxprt π}
    (hx : CanReturn cfg x) (hret : x.mtxpProgress .returned = false) (steps : List (HandshakeStep π)) :
    (∃ y, awaitWorker cfg x steps = .ok y) ↔ WaitEnds cfg x (workerCalls steps) := by
  obtain ⟨s, hs⟩ := takeSteps_ok hmode hfast (kindOf x) steps (s := ⟨.first cfg, x, []⟩) hx
  obtain ⟨hworked, hcalls⟩ := takeSteps_worked hs
  rw [List.nil_append] at hcalls
  rw [awaitWorker, hs]
  show (∃ y, finishWait cfg s = .ok y) ↔ _
  rw [← hcalls]
  have hmodes : cfg.mtmode = 0 ∨ cfg.mtmode = 1 ∨ cfg.mtmode = 2 := by omega
  rcases hmodes with h0 | h1 | h2
  · have hfirst : Waiter.first cfg = .polling 0 := if_pos h0
    have hstart : ReturnInv cfg (⟨.first cfg, x, []⟩ : Handshake π) := by
      refine ⟨Or.inr ⟨0, hfirst⟩, fun _ => hfirst, fun _ => ?_⟩
      rw [hfirst]
      exact Waiter.noConfusion
    rw [finishWait_return h0 (returnInv_takeSteps h0 hstart hs)]
    simp only [WaitEnds, h0]
  · have hfirst : Waiter.first cfg = .enter := if_neg (by omega)
    rw [hfirst] at hs
    rw [finishWait_getargs h1 hx hret hworked (takeSteps_reached h1 .start hs)]
    simp only [WaitEnds, h1]
  · simp only [WaitEnds, finishWait, h2, iff_true]
    exact ⟨_, rfl⟩

end RpcMt.Wait
