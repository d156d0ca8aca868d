import RpcMt.Runs
import RpcMt.Worker

/-! The handshake of mtmode 1 between the dispatch thread, which waits in `wait_on_getargs`, and the
worker that it has handed a transport to. The state keeps the calls the worker has completed, in
order. A mutex wait ends when `mtxp_mtready` is found unlocked, a polling wait when one of the
milestones `XPRT_GETARGS` and `XPRT_RETURN` is found set; the main result says after which worker
histories the waiting thread can proceed. -/

open RpcMt.Runs

namespace RpcMt.Wait

variable {π : Type}

/-- The two kinds of transport that a worker runs on. -/
inductive Kind where
  | tcpConn
  | udpClone
  deriving DecidableEq, Repr

/-- A completed call of the worker, with the outcome of its XDR filter. -/
inductive WorkerCall (π : Type) where
  | getargs (rv : Bool) (priv : π)
  | reply (stat : Bool) (priv : π)
  | freeargs (rv : Bool) (priv : π)
  | ret

def workerCall (cfg : Config) (kind : Kind) (x : Svcxprt π) : WorkerCall π → Res (Svcxprt π)
  | .getargs rv priv => match kind with
      | .tcpConn => svctcpGetargs cfg x rv priv
      | .udpClone => .ok (svcudpGetargs x priv)
  | .reply stat priv => match kind with
      | .tcpConn => .ok (svctcpReply x priv)
      | .udpClone => .ok (svcudpReply x stat priv)
  | .freeargs rv priv => match kind with
      | .tcpConn => svctcpFreeargs cfg x rv priv
      | .udpClone => .ok (svcudpFreeargs x priv)
  | .ret => svcReturn cfg x

/-- Where the dispatch thread is in `wait_on_getargs`: before it, in the loop of
`wait_on_getargs_mutex`, at the head of the inner loop of `wait_on_getargs_usleep`, past it. -/
inductive Waiter where
  | enter
  | locking
  | polling (i : Int)
  | done
  deriving DecidableEq, Repr

def jiffiesPerInterval (cfg : Config) : Int :=
  cfg.waitTraceInterval * Int.tdiv 1000000000 cfg.jiffy

def waitMethod (cfg : Config) (x : Svcxprt π) : Nat :=
  if x.mtxpParent = noParent then cfg.waitMethodTcp else cfg.waitMethodUdp

/-- One step of the dispatch thread: a dispatch to one of the two loops, one attempt to lock the
mutex, one turn of a polling loop. -/
def waitOnGetargs (cfg : Config) : Waiter × Svcxprt π → Waiter × Svcxprt π
  | (.enter, x) =>
      if waitMethod cfg x = waitMutex then (.locking, x) else (.polling 0, x.setProgress .wait)
  | (.locking, x) => if x.mtxpMtready then (.locking, x) else (.done, { x with mtxpMtready := true })
  | (.polling i, x) =>
      if i < jiffiesPerInterval cfg then
        if x.mtxpProgress .getargs || x.mtxpProgress .returned then (.done, x.clrProgress .wait)
        else (.polling (i + 1), x)
      else (.polling 0, x)
  | (.done, x) => (.done, x)

/-! ### Transports as they are handed over -/

/-- What can happen to a connection before the request at hand: earlier requests are received,
dispatched, waited for and served. -/
inductive ConnEvent (π : Type) where
  | recv (priv : π)
  | dispatch
  | wait (w : Waiter)
  | call (c : WorkerCall π)
  | stat (xrv : XprtStat)

def connStep (cfg : Config) (x : Svcxprt π) : ConnEvent π → Option (Svcxprt π)
  | .recv priv => some (svctcpRecv x priv)
  | .dispatch => match requestDispatch cfg x with
      | .call y => some y
      | _ => none
  | .wait w => some (waitOnGetargs cfg (w, x)).2
  | .call c => (workerCall cfg .tcpConn x c).toOption
  | .stat xrv => some { x with mtxpStat := xrv }

/-- The transports that `request_dispatch` hands to a worker: a connection after any history, or a
fresh clone of a registered master. -/
inductive HandedOver (cfg : Config) : Kind → Svcxprt π → Prop
  | tcpConn {sock : Nat} {priv : π} {stat : XprtStat} {x y : Svcxprt π}
      (hx : Reached (connStep cfg) anyStep (Svcxprt.newXprt sock 0 false priv stat) x)
      (hy : requestDispatch cfg x = .call y) : HandedOver cfg .tcpConn y
  | udpClone {px y : Svcxprt π} {priv : π} {id : Nat} (hid : px.mtxpId ≠ noParent)
      (hy : requestDispatch cfg { px.cloneXprt priv with mtxpId := id } = .call y) :
      HandedOver cfg .udpClone y

/-! ### Runs of the handshake -/

structure Handshake (π : Type) where
  waiter : Waiter
  xprt : Svcxprt π
  calls : List (WorkerCall π)

inductive HandshakeStep (π : Type) where
  | waiter
  | worker (c : WorkerCall π)

/-- The dispatch thread takes a step. -/
def Handshake.tick (cfg : Config) (s : Handshake π) : Handshake π :=
  { s with
    waiter := (waitOnGetargs cfg (s.waiter, s.xprt)).1
    xprt := (waitOnGetargs cfg (s.waiter, s.xprt)).2 }

def handshakeStep (cfg : Config) (kind : Kind) (s : Handshake π) :
    HandshakeStep π → Option (Handshake π)
  | .waiter => some (s.tick cfg)
  | .worker c => match workerCall cfg kind s.xprt c with
      | .ok x => some { s with xprt := x, calls := s.calls ++ [c] }
      | .error _ => none

/-- The worker does nothing more, and the dispatch thread gets past its wait all the same. -/
def CanProceed (cfg : Config) (s : Handshake π) : Prop :=
  ∃ n, ((Handshake.tick cfg)^[n] s).waiter = .done

/-- The calls that are to end the wait. -/
def WorkerCall.signals : WorkerCall π → Bool
  | .getargs _ _ => true
  | .ret => true
  | _ => false

def WorkerCall.isGetargs : WorkerCall π → Bool
  | .getargs _ _ => true
  | _ => false

def Kind.method (cfg : Config) : Kind → Nat
  | .tcpConn => cfg.waitMethodTcp
  | .udpClone => cfg.waitMethodUdp

/-- The first of the calls `svc_getargs` and `svc_return` is a `svc_getargs`. -/
def getargsFirst (calls : List (WorkerCall π)) : Bool :=
  (calls.find? WorkerCall.signals).any WorkerCall.isGetargs

/-- When the wait ends: a polling wait if its inner loop runs at all, a mutex wait if the transport is
a clone whose worker decodes its arguments before it returns. -/
def Released (cfg : Config) (kind : Kind) (calls : List (WorkerCall π)) : Prop :=
  if kind.method cfg = waitMutex then kind = .udpClone ∧ getargsFirst calls = true
  else 0 < jiffiesPerInterval cfg

/-- When the wait for a transport handed over as `x` ends. A milestone that an earlier request has left
ends a polling wait too, and a mutex that is free from the start a mutex wait. -/
def Ends (cfg : Config) (kind : Kind) (x : Svcxprt π) (calls : List (WorkerCall π)) : Prop :=
  if kind.method cfg = waitMutex then
    x.mtxpMtready = false ∨ kind = .udpClone ∧ getargsFirst calls = true
  else
    0 < jiffiesPerInterval cfg ∧ (x.mtxpProgress .getargs = true ∨ ∃ c ∈ calls, c.signals = true)

theorem getargsFirst_append {calls : List (WorkerCall π)} (c : WorkerCall π)
    (h : ∃ c ∈ calls, c.signals = true) : getargsFirst (calls ++ [c]) = getargsFirst calls := by
  obtain ⟨c', hc', hsig⟩ := h
  have hsome : (calls.find? WorkerCall.signals).isSome = true :=
    List.find?_isSome.mpr ⟨c', hc', hsig⟩
  obtain ⟨d, hd⟩ := Option.isSome_iff_exists.mp hsome
  simp [getargsFirst, List.find?_append, hd]

theorem getargsFirst_append_of_none {calls : List (WorkerCall π)} (c : WorkerCall π)
    (h : ¬∃ c ∈ calls, c.signals = true) : getargsFirst (calls ++ [c]) = c.isGetargs := by
  have hnone : calls.find? WorkerCall.signals = none :=
    List.find?_eq_none.mpr fun d hd hsig => h ⟨d, hd, hsig⟩
  cases c <;> simp [getargsFirst, List.find?_append, hnone, WorkerCall.signals, WorkerCall.isGetargs]

/-! ### What one step does to the signals -/

/-- The calls that unlock `mtxp_mtready`: on a clone a `svc_getargs` before the return, on a
connection a `svc_getargs` under any wait method but the mutex one. -/
def unlocks (cfg : Config) (kind : Kind) (x : Svcxprt π) (c : WorkerCall π) : Bool :=
  c.isGetargs && match kind with
    | .tcpConn => decide (cfg.waitMethodTcp ≠ 1)
    | .udpClone => !x.mtxpProgress .returned

/-- The effect of one worker call on what the waiting thread looks at. -/
structure CallEffect (cfg : Config) (kind : Kind) (x y : Svcxprt π) (c : WorkerCall π) : Prop where
  parent : y.mtxpParent = x.mtxpParent
  returned : x.mtxpProgress .returned = true → y.mtxpProgress .returned = true
  getargs : x.mtxpProgress .getargs = true → y.mtxpProgress .getargs = true
  fresh : c.signals = false → y.mtxpProgress .returned = x.mtxpProgress .returned
  still : c.signals = false → y.mtxpProgress .getargs = x.mtxpProgress .getargs
  signal : c.signals = true → y.mtxpProgress .getargs = true ∨ y.mtxpProgress .returned = true
  ret : c.signals = true → c.isGetargs = false → y.mtxpProgress .returned = true
  ready : y.mtxpMtready = (x.mtxpMtready && !unlocks cfg kind x c)

theorem callEffect_getargs_tcpConn {cfg : Config} {x y : Svcxprt π} {rv : Bool} {priv : π}
    (h : svctcpGetargs cfg x rv priv = .ok y) :
    CallEffect cfg .tcpConn x y (.getargs rv priv) := by
  unfold svctcpGetargs at h
  dsimp only at h
  split at h
  · cases h
  · by_cases hm : cfg.waitMethodTcp = 1
    · rw [if_pos hm] at h
      cases h
      constructor <;>
        simp_all [Svcxprt.setBusy, Svcxprt.setProgress, WorkerCall.signals, WorkerCall.isGetargs, unlocks]
    · rw [if_neg hm] at h
      cases h
      constructor <;> simp_all [Svcxprt.setBusy, Svcxprt.setProgress, Svcxprt.unlockMtready,
        WorkerCall.signals, WorkerCall.isGetargs, unlocks]

theorem callEffect_getargs_udpClone {cfg : Config} {x : Svcxprt π} {rv : Bool} {priv : π} :
    CallEffect cfg .udpClone x (svcudpGetargs x priv) (.getargs rv priv) := by
  unfold svcudpGetargs
  cases hret : x.mtxpProgress .returned <;> constructor <;>
    simp_all [Svcxprt.setBusy, Svcxprt.setProgress, Svcxprt.unlockMtready, WorkerCall.signals,
      WorkerCall.isGetargs, unlocks]

/-- A call that sets a milestone nobody waits for. -/
theorem callEffect_of_milestone {cfg : Config} {kind : Kind} {x y : Svcxprt π} {c : WorkerCall π}
    (hc : c.signals = false) (hparent : y.mtxpParent = x.mtxpParent)
    (hready : y.mtxpMtready = x.mtxpMtready)
    (hbits : ∀ m, m = .returned ∨ m = .getargs → y.mtxpProgress m = x.mtxpProgress m) :
    CallEffect cfg kind x y c := by
  have hget : c.isGetargs = false := by
    cases c <;> simp_all [WorkerCall.signals, WorkerCall.isGetargs]
  refine ⟨hparent, ?_, ?_, ?_, ?_, ?_, ?_, ?_⟩
  · rw [hbits _ (Or.inl rfl)]
    exact id
  · rw [hbits _ (Or.inr rfl)]
    exact id
  · intro _
    exact hbits _ (Or.inl rfl)
  · intro _
    exact hbits _ (Or.inr rfl)
  · simp [hc]
  · simp [hc]
  · simp [hready, unlocks, hget]

theorem callEffect_ret {cfg : Config} {kind : Kind} {x y : Svcxprt π} (hmode : cfg.mtmode = 1)
    (h : svcReturn cfg x = .ok y) : CallEffect cfg kind x y .ret := by
  unfold svcReturn at h
  simp only [hmode] at h
  split at h
  · cases h
  · cases h
    constructor <;> simp_all [Svcxprt.setBusy, Svcxprt.setProgress, WorkerCall.signals,
      WorkerCall.isGetargs, unlocks]

theorem workerCall_effect {cfg : Config} {kind : Kind} {x y : Svcxprt π} {c : WorkerCall π}
    (hmode : cfg.mtmode = 1) (h : workerCall cfg kind x c = .ok y) : CallEffect cfg kind x y c := by
  cases c with
  | getargs rv priv =>
      cases kind with
      | tcpConn => exact callEffect_getargs_tcpConn h
      | udpClone =>
          cases h
          exact callEffect_getargs_udpClone
  | reply stat priv =>
      apply callEffect_of_milestone rfl
      all_goals
        cases kind <;> cases stat <;> cases h <;>
          simp [svctcpReply, svcudpReply, Svcxprt.setProgress]
  | freeargs rv priv =>
      cases kind with
      | tcpConn =>
          change svctcpFreeargs cfg x rv priv = .ok y at h
          unfold svctcpFreeargs at h
          split at h
          · cases h
          · cases h
            apply callEffect_of_milestone rfl <;> simp [Svcxprt.setProgress]
      | udpClone =>
          cases h
          apply callEffect_of_milestone rfl <;> simp [svcudpFreeargs, Svcxprt.setProgress]
  | ret => exact callEffect_ret hmode h

theorem waitOnGetargs_priv (cfg : Config) (w : Waiter) (x : Svcxprt π) :
    (waitOnGetargs cfg (w, x)).2.xpPriv = x.xpPriv := by
  cases w with
  | enter =>
      rw [waitOnGetargs]
      split <;> rfl
  | locking =>
      rw [waitOnGetargs]
      split <;> rfl
  | polling i =>
      rw [waitOnGetargs]
      split
      · split <;> rfl
      · rfl
  | done => rfl

/-- A step of the waiting thread changes no milestone but its own and never unlocks the mutex. -/
theorem waitOnGetargs_frame (cfg : Config) (w : Waiter) (x : Svcxprt π) :
    (waitOnGetargs cfg (w, x)).2.mtxpParent = x.mtxpParent ∧
      (waitOnGetargs cfg (w, x)).2.mtxpProgress .getargs = x.mtxpProgress .getargs ∧
      (waitOnGetargs cfg (w, x)).2.mtxpProgress .returned = x.mtxpProgress .returned ∧
      (x.mtxpMtready = true → (waitOnGetargs cfg (w, x)).2.mtxpMtready = true) := by
  cases w with
  | enter =>
      simp only [waitOnGetargs]
      split <;> simp [Svcxprt.setProgress]
  | locking =>
      simp only [waitOnGetargs]
      split <;> simp
  | polling i =>
      simp only [waitOnGetargs]
      split
      · split <;> simp [Svcxprt.clrProgress]
      · simp
  | done => simp [waitOnGetargs]

theorem waitMethod_congr (cfg : Config) {x y : Svcxprt π} (h : y.mtxpParent = x.mtxpParent) :
    waitMethod cfg y = waitMethod cfg x := by
  rw [waitMethod, waitMethod, h]

/-! ### The mutex of a transport at its hand-over -/

/-- Under the mutex method nothing ever unlocks the mutex of a connection. -/
theorem conn_locked {cfg : Config} (hmode : cfg.mtmode = 1) {x₀ x : Svcxprt π}
    (h₀ : x₀.mtxpParent = noParent ∧ (cfg.waitMethodTcp = 1 → x₀.mtxpMtready = true))
    (h : Reached (connStep cfg) anyStep x₀ x) :
    x.mtxpParent = noParent ∧ (cfg.waitMethodTcp = 1 → x.mtxpMtready = true) := by
  apply h.invariant (fun x => x.mtxpParent = noParent ∧ (cfg.waitMethodTcp = 1 → x.mtxpMtready = true)) h₀
  intro s e t hinv _ hst
  obtain ⟨hparent, hready⟩ := hinv
  cases e with
  | recv priv =>
      cases hst
      exact ⟨hparent, hready⟩
  | dispatch =>
      simp only [connStep] at hst
      split at hst
      · rename_i y hy
        cases hst
        obtain ⟨_, hm, hp, _⟩ := requestDispatch_call hy
        exact ⟨hp.trans hparent, fun hw => hm.trans (hready hw)⟩
      · cases hst
  | wait w =>
      cases hst
      obtain ⟨hp, _, _, hm⟩ := waitOnGetargs_frame cfg w s
      exact ⟨hp.trans hparent, fun hw => hm (hready hw)⟩
  | call c =>
      cases hcall : workerCall cfg .tcpConn s c with
      | error e =>
          simp [connStep, hcall, Except.toOption] at hst
      | ok y =>
          simp only [connStep, hcall, Except.toOption, Option.some.injEq] at hst
          subst hst
          have heff := workerCall_effect hmode hcall
          refine ⟨heff.parent.trans hparent, fun hw => ?_⟩
          rw [heff.ready, hready hw]
          simp [unlocks, hw]
  | stat xrv =>
      cases hst
      exact ⟨hparent, hready⟩

/-- A transport is handed over without a return on record, and the mutex it is waited for with is
locked. -/
theorem HandedOver.spec {cfg : Config} (hmode : cfg.mtmode = 1) {kind : Kind} {x : Svcxprt π}
    (h : HandedOver cfg kind x) :
    waitMethod cfg x = kind.method cfg ∧ x.mtxpProgress .returned = false ∧
      (kind.method cfg = waitMutex → x.mtxpMtready = true) := by
  cases h with
  | @tcpConn sock priv stat x y hx hy =>
      obtain ⟨hret, hready, hparent, _⟩ := requestDispatch_call hy
      obtain ⟨hp, hm⟩ := conn_locked hmode ⟨rfl, fun _ => rfl⟩ hx
      refine ⟨?_, hret, fun hw => hready.trans (hm hw)⟩
      simp [waitMethod, hparent.trans hp, Kind.method]
  | @udpClone px y priv id hid hy =>
      obtain ⟨hret, hready, hparent, _⟩ := requestDispatch_call hy
      have hne : x.mtxpParent ≠ noParent := fun h => hid (hparent.symm.trans h)
      refine ⟨?_, hret, fun _ => hready⟩
      simp [waitMethod, hne, Kind.method]

/-! ### The two waits along a run -/

def Signalled (s : Handshake π) : Prop := ∃ c ∈ s.calls, c.signals = true

/-- What holds along every run under the polling method from a transport handed over as `x₀`. -/
structure PollInv (cfg : Config) (x₀ : Svcxprt π) (s : Handshake π) : Prop where
  method : waitMethod cfg s.xprt ≠ waitMutex
  pc : s.waiter ≠ .locking
  bits : (s.xprt.mtxpProgress .getargs = true ∨ s.xprt.mtxpProgress .returned = true) ↔
    (x₀.mtxpProgress .getargs = true ∨ Signalled s)
  stuck : jiffiesPerInterval cfg ≤ 0 → s.waiter ≠ .done ∧ ∀ i, s.waiter = .polling i → i = 0
  idle : ¬(x₀.mtxpProgress .getargs = true ∨ Signalled s) → s.waiter ≠ .done

/-- What holds along every run under the mutex method from a transport handed over as `x₀`. -/
structure LockInv (cfg : Config) (kind : Kind) (x₀ : Svcxprt π) (s : Handshake π) : Prop where
  kindMethod : kind.method cfg = waitMutex
  method : waitMethod cfg s.xprt = waitMutex
  pc : ∀ i, s.waiter ≠ .polling i
  held : ¬(x₀.mtxpMtready = false ∨ kind = .udpClone ∧ getargsFirst s.calls = true) →
    s.xprt.mtxpMtready = true ∧ s.waiter ≠ .done
  free : x₀.mtxpMtready = false ∨ kind = .udpClone ∧ getargsFirst s.calls = true →
    s.xprt.mtxpMtready = false ∨ s.waiter = .done
  fresh : ¬Signalled s → s.xprt.mtxpProgress .returned = false
  late : Signalled s → getargsFirst s.calls = false → s.xprt.mtxpProgress .returned = true

theorem pollInv_tick {cfg : Config} {x₀ : Svcxprt π} {s : Handshake π} (h : PollInv cfg x₀ s) :
    PollInv cfg x₀ (s.tick cfg) := by
  obtain ⟨hparent, hget, hret, _⟩ := waitOnGetargs_frame cfg s.waiter s.xprt
  have hm := h.method
  refine ⟨?_, ?_, ?_, ?_, ?_⟩
  · exact (waitMethod_congr cfg hparent).trans_ne hm
  · cases hw : s.waiter with
    | enter => simp [Handshake.tick, waitOnGetargs, hw, hm]
    | locking => exact absurd hw h.pc
    | polling i =>
        simp only [Handshake.tick, waitOnGetargs, hw]
        split
        · split <;> simp
        · simp
    | done => simp [Handshake.tick, waitOnGetargs, hw]
  · simp only [Handshake.tick, hget, hret]
    exact h.bits
  · intro hj
    obtain ⟨hdone, hzero⟩ := h.stuck hj
    cases hw : s.waiter with
    | enter => simp [Handshake.tick, waitOnGetargs, hw, hm]
    | locking => exact absurd hw h.pc
    | polling i =>
        have hi := hzero i hw
        simp [Handshake.tick, waitOnGetargs, hw, hi, Int.not_lt.mpr hj]
    | done => exact absurd hw hdone
  · intro hno
    have hbits := mt h.bits.mp hno
    rw [not_or] at hbits
    cases hw : s.waiter with
    | enter => simp [Handshake.tick, waitOnGetargs, hw, hm]
    | locking => exact absurd hw h.pc
    | polling i =>
        simp only [Handshake.tick, waitOnGetargs, hw, Bool.eq_false_iff.mpr hbits.1,
          Bool.eq_false_iff.mpr hbits.2]
        split <;> simp
    | done => exact absurd hw (h.idle hno)

theorem signalled_append {s : Handshake π} {x : Svcxprt π} {c : WorkerCall π} :
    Signalled { s with xprt := x, calls := s.calls ++ [c] } ↔ Signalled s ∨ c.signals = true := by
  simp only [Signalled, List.mem_append, List.mem_singleton]
  constructor
  · rintro ⟨d, hd | rfl, hsig⟩
    · exact Or.inl ⟨d, hd, hsig⟩
    · exact Or.inr hsig
  · rintro (⟨d, hd, hsig⟩ | hsig)
    · exact ⟨d, Or.inl hd, hsig⟩
    · exact ⟨c, Or.inr rfl, hsig⟩

theorem pollInv_worker {cfg : Config} {kind : Kind} (hmode : cfg.mtmode = 1) {x₀ x : Svcxprt π}
    {s : Handshake π} {c : WorkerCall π} (h : PollInv cfg x₀ s)
    (hcall : workerCall cfg kind s.xprt c = .ok x) :
    PollInv cfg x₀ { s with xprt := x, calls := s.calls ++ [c] } := by
  have heff := workerCall_effect hmode hcall
  refine ⟨?_, h.pc, ?_, h.stuck, ?_⟩
  · rw [waitMethod_congr cfg heff.parent]
    exact h.method
  · rw [signalled_append, ← or_assoc, ← h.bits]
    cases hsig : c.signals with
    | true => exact ⟨fun _ => Or.inr rfl, fun _ => heff.signal hsig⟩
    | false =>
        dsimp only
        rw [heff.fresh hsig, heff.still hsig]
        simp
  · rw [signalled_append, ← or_assoc, not_or]
    intro hno
    exact h.idle hno.1

theorem pollInv_step {cfg : Config} {kind : Kind} (hmode : cfg.mtmode = 1) {x₀ : Svcxprt π}
    {s t : Handshake π} {e : HandshakeStep π} (h : PollInv cfg x₀ s)
    (hst : handshakeStep cfg kind s e = some t) : PollInv cfg x₀ t := by
  cases e with
  | waiter =>
      cases hst
      exact pollInv_tick h
  | worker c =>
      simp only [handshakeStep] at hst
      split at hst
      · rename_i y hy
        cases hst
        exact pollInv_worker hmode h hy
      · cases hst

theorem lockInv_tick {cfg : Config} {kind : Kind} {x₀ : Svcxprt π} {s : Handshake π}
    (h : LockInv cfg kind x₀ s) : LockInv cfg kind x₀ (s.tick cfg) := by
  obtain ⟨hparent, _, hret, hready⟩ := waitOnGetargs_frame cfg s.waiter s.xprt
  have hm := h.method
  refine ⟨h.kindMethod, ?_, ?_, ?_, ?_, ?_, ?_⟩
  · exact (waitMethod_congr cfg hparent).trans hm
  · intro i
    cases hw : s.waiter with
    | enter => simp [Handshake.tick, waitOnGetargs, hw, hm]
    | locking =>
        simp only [Handshake.tick, waitOnGetargs, hw]
        split <;> simp
    | polling j => exact absurd hw (h.pc j)
    | done => simp [Handshake.tick, waitOnGetargs, hw]
  · intro hno
    obtain ⟨hlocked, hdone⟩ := h.held hno
    refine ⟨hready hlocked, ?_⟩
    cases hw : s.waiter with
    | enter => simp [Handshake.tick, waitOnGetargs, hw, hm]
    | locking => simp [Handshake.tick, waitOnGetargs, hw, hlocked]
    | polling j => exact absurd hw (h.pc j)
    | done => exact absurd hw hdone
  · intro hfrees
    cases hw : s.waiter with
    | enter =>
        have hfree := (h.free hfrees).resolve_right (by simp [hw])
        exact Or.inl (by simp [Handshake.tick, waitOnGetargs, hw, hm, hfree])
    | locking =>
        have hfree := (h.free hfrees).resolve_right (by simp [hw])
        exact Or.inr (by simp [Handshake.tick, waitOnGetargs, hw, hfree])
    | polling j => exact absurd hw (h.pc j)
    | done => exact Or.inr (by simp [Handshake.tick, waitOnGetargs, hw])
  · intro hsig
    exact hret.trans (h.fresh hsig)
  · intro hsig hfirst
    exact hret.trans (h.late hsig hfirst)

/-- The call that decides: the first one that signals. Later calls find the mutex as it left it, or
unlock it once more. -/
theorem lockInv_worker {cfg : Config} {kind : Kind} (hmode : cfg.mtmode = 1) {s : Handshake π}
    {x₀ x : Svcxprt π} {c : WorkerCall π} (h : LockInv cfg kind x₀ s)
    (hcall : workerCall cfg kind s.xprt c = .ok x) :
    LockInv cfg kind x₀ { s with xprt := x, calls := s.calls ++ [c] } := by
  have heff := workerCall_effect hmode hcall
  have htcp : kind = .tcpConn → unlocks cfg kind s.xprt c = false := by
    rintro rfl
    have hm : cfg.waitMethodTcp = 1 := h.kindMethod
    simp [unlocks, hm]
  refine ⟨h.kindMethod, (waitMethod_congr cfg heff.parent).trans h.method, h.pc, ?_, ?_, ?_, ?_⟩
  · intro hno
    dsimp only at hno ⊢
    rw [not_or] at hno
    have hkeep : ¬(kind = .udpClone ∧ getargsFirst s.calls = true) ∧
        unlocks cfg kind s.xprt c = false := by
      cases kind with
      | tcpConn => exact ⟨by simp, htcp rfl⟩
      | udpClone =>
          by_cases hsig : Signalled s
          · rw [getargsFirst_append c hsig] at hno
            have hfirst : getargsFirst s.calls = false := by simpa using hno.2
            exact ⟨by simp [hfirst], by simp [unlocks, h.late hsig hfirst]⟩
          · rw [getargsFirst_append_of_none c hsig] at hno
            have hget : c.isGetargs = false := by simpa using hno.2
            have hfind : s.calls.find? WorkerCall.signals = none :=
              List.find?_eq_none.mpr fun d hd hd' => hsig ⟨d, hd, hd'⟩
            exact ⟨by simp [getargsFirst, hfind], by simp [unlocks, hget]⟩
    obtain ⟨hlocked, hdone⟩ := h.held (not_or.mpr ⟨hno.1, hkeep.1⟩)
    refine ⟨?_, hdone⟩
    rw [heff.ready, hlocked, hkeep.2]
    rfl
  · intro hfrees
    dsimp only at hfrees ⊢
    have hold : x₀.mtxpMtready = false ∨ kind = .udpClone ∧ getargsFirst s.calls = true →
        x.mtxpMtready = false ∨ s.waiter = .done := by
      intro hbefore
      rcases h.free hbefore with hfree | hdone
      · exact Or.inl (by rw [heff.ready, hfree, Bool.false_and])
      · exact Or.inr hdone
    rcases hfrees with hstart | ⟨rfl, hfirst⟩
    · exact hold (Or.inl hstart)
    · by_cases hsig : Signalled s
      · rw [getargsFirst_append c hsig] at hfirst
        exact hold (Or.inr ⟨rfl, hfirst⟩)
      · rw [getargsFirst_append_of_none c hsig] at hfirst
        exact Or.inl (by simp [heff.ready, unlocks, hfirst, h.fresh hsig])
  · intro hsig
    rw [signalled_append, not_or] at hsig
    exact (heff.fresh (by simpa using hsig.2)).trans (h.fresh hsig.1)
  · intro hsig hfirst
    dsimp only at hfirst ⊢
    by_cases hold : Signalled s
    · rw [getargsFirst_append c hold] at hfirst
      exact heff.returned (h.late hold hfirst)
    · rw [getargsFirst_append_of_none c hold] at hfirst
      exact heff.ret ((signalled_append.mp hsig).resolve_left hold) hfirst

theorem lockInv_step {cfg : Config} {kind : Kind} (hmode : cfg.mtmode = 1) {x₀ : Svcxprt π}
    {s t : Handshake π} {e : HandshakeStep π} (h : LockInv cfg kind x₀ s)
    (hst : handshakeStep cfg kind s e = some t) : LockInv cfg kind x₀ t := by
  cases e with
  | waiter =>
      cases hst
      exact lockInv_tick h
  | worker c =>
      simp only [handshakeStep] at hst
      split at hst
      · rename_i y hy
        cases hst
        exact lockInv_worker hmode h hy
      · cases hst

/-! ### Which histories release the wait -/

theorem PollInv.canProceed_iff {cfg : Config} {x₀ : Svcxprt π} {s : Handshake π} (h : PollInv cfg x₀ s) :
    CanProceed cfg s ↔ 0 < jiffiesPerInterval cfg ∧ (x₀.mtxpProgress .getargs = true ∨ Signalled s) := by
  have hm := h.method
  constructor
  · rintro ⟨n, hn⟩
    have hinv : PollInv cfg x₀ ((Handshake.tick cfg)^[n] s) ∧
        ((Handshake.tick cfg)^[n] s).calls = s.calls :=
      Function.Iterate.rec (fun t => PollInv cfg x₀ t ∧ t.calls = s.calls) ⟨h, rfl⟩
        (fun _ ht => ⟨pollInv_tick ht.1, ht.2⟩) n
    refine ⟨?_, ?_⟩
    · by_contra hj
      -- Without a turn of the inner loop the thread never looks at the milestones.
      exact (hinv.1.stuck (by omega)).1 hn
    · by_contra hno
      refine hinv.1.idle ?_ hn
      unfold Signalled at hno ⊢
      rwa [hinv.2]
  · rintro ⟨hj, hsig⟩
    have hbits := h.bits.mpr hsig
    have hpoll : ∀ t : Handshake π, t.waiter = .polling 0 →
        t.xprt.mtxpProgress .getargs = true ∨ t.xprt.mtxpProgress .returned = true →
        (t.tick cfg).waiter = .done := by
      intro t ht hx
      simp [Handshake.tick, waitOnGetargs, ht, hj, hx]
    cases hw : s.waiter with
    | enter =>
        refine ⟨2, hpoll (s.tick cfg) ?_ ?_⟩
        · simp [Handshake.tick, waitOnGetargs, hw, hm]
        · simpa [Handshake.tick, waitOnGetargs, hw, hm, Svcxprt.setProgress] using hbits
    | locking => exact absurd hw h.pc
    | polling i =>
        by_cases hi : i < jiffiesPerInterval cfg
        · exact ⟨1, by simp [Handshake.tick, waitOnGetargs, hw, hi, hbits]⟩
        · refine ⟨2, hpoll (s.tick cfg) ?_ ?_⟩
          · simp [Handshake.tick, waitOnGetargs, hw, hi]
          · simpa [Handshake.tick, waitOnGetargs, hw, hi] using hbits
    | done => exact ⟨0, hw⟩

theorem LockInv.canProceed_iff {cfg : Config} {kind : Kind} {x₀ : Svcxprt π} {s : Handshake π}
    (h : LockInv cfg kind x₀ s) :
    CanProceed cfg s ↔ x₀.mtxpMtready = false ∨ kind = .udpClone ∧ getargsFirst s.calls = true := by
  have hm := h.method
  constructor
  · rintro ⟨n, hn⟩
    by_contra hno
    have hinv : LockInv cfg kind x₀ ((Handshake.tick cfg)^[n] s) ∧
        ((Handshake.tick cfg)^[n] s).calls = s.calls :=
      Function.Iterate.rec (fun t => LockInv cfg kind x₀ t ∧ t.calls = s.calls) ⟨h, rfl⟩
        (fun _ ht => ⟨lockInv_tick ht.1, ht.2⟩) n
    rw [← hinv.2] at hno
    exact (hinv.1.held hno).2 hn
  · intro hfrees
    rcases h.free hfrees with hfree | hdone
    · cases hw : s.waiter with
      | enter =>
          refine ⟨2, ?_⟩
          simp [Handshake.tick, waitOnGetargs, hw, hm, hfree]
      | locking => exact ⟨1, by simp [Handshake.tick, waitOnGetargs, hw, hfree]⟩
      | polling i => exact absurd hw (h.pc i)
      | done => exact ⟨0, hw⟩
    · exact ⟨0, hdone⟩

section HandOver

variable {cfg : Config} {kind : Kind} {x₀ : Svcxprt π} {s : Handshake π}

theorem lockInv_start (hmethod : waitMethod cfg x₀ = kind.method cfg)
    (hret : x₀.mtxpProgress .returned = false) (hmutex : kind.method cfg = waitMutex) :
    LockInv cfg kind x₀ ⟨.enter, x₀, []⟩ := by
  refine ⟨hmutex, hmethod.trans hmutex, ?_, ?_, ?_, ?_, ?_⟩
  · simp
  · intro hno
    rw [not_or] at hno
    exact ⟨by simpa using hno.1, by simp⟩
  · rintro (hfree | ⟨_, hfirst⟩)
    · exact Or.inl hfree
    · simp [getargsFirst] at hfirst
  · intro _
    exact hret
  · rintro ⟨c, hc, _⟩
    cases hc

theorem pollInv_start (hmethod : waitMethod cfg x₀ = kind.method cfg)
    (hret : x₀.mtxpProgress .returned = false) (hpoll : kind.method cfg ≠ waitMutex) :
    PollInv cfg x₀ ⟨.enter, x₀, []⟩ := by
  refine ⟨hmethod.trans_ne hpoll, ?_, ?_, ?_, ?_⟩
  · simp
  · simp [Signalled, hret]
  · simp
  · simp

/-- Whatever transport is handed over without a return on record, the calls of its worker decide. -/
theorem canProceed_iff_ends (hmode : cfg.mtmode = 1) (hmethod : waitMethod cfg x₀ = kind.method cfg)
    (hret : x₀.mtxpProgress .returned = false)
    (h : Reached (handshakeStep cfg kind) anyStep ⟨.enter, x₀, []⟩ s) :
    CanProceed cfg s ↔ Ends cfg kind x₀ s.calls := by
  unfold Ends
  split
  · rename_i hmutex
    have hinv : LockInv cfg kind x₀ s :=
      h.invariant _ (lockInv_start hmethod hret hmutex) fun _ _ _ hi _ hst => lockInv_step hmode hi hst
    exact hinv.canProceed_iff
  · rename_i hpoll
    have hinv : PollInv cfg x₀ s :=
      h.invariant _ (pollInv_start hmethod hret hpoll) fun _ _ _ hi _ hst => pollInv_step hmode hi hst
    exact hinv.canProceed_iff

end HandOver

/-- After the worker has completed a `svc_getargs` or a `svc_return`, the waiting thread can proceed
in exactly these cases: it polls and its inner loop has at least one turn, or it waits for the mutex
of a clone whose worker decoded its arguments before returning. -/
theorem wait_released_iff {cfg : Config} (hmode : cfg.mtmode = 1) {kind : Kind} {x₀ : Svcxprt π}
    (hx : HandedOver cfg kind x₀) {s : Handshake π}
    (h : Reached (handshakeStep cfg kind) anyStep ⟨.enter, x₀, []⟩ s) (hsig : Signalled s) :
    CanProceed cfg s ↔ Released cfg kind s.calls := by
  obtain ⟨hmethod, hret, hlocked⟩ := hx.spec hmode
  rw [canProceed_iff_ends hmode hmethod hret h, Ends, Released]
  split
  · rename_i hmutex
    rw [hlocked hmutex]
    simp
  · exact and_iff_left (Or.inr hsig)

/-- A UDP master on descriptor 5, registered under id 0. -/
def someMaster : Svcxprt Unit := { Svcxprt.newXprt 5 111 true () .idle with mtxpId := 0 }

def someClone : Svcxprt Unit :=
  { someMaster.cloneXprt () with mtxpId := 1 }.setProgress .dispatch

def someConn : Svcxprt Unit := (Svcxprt.newXprt 6 0 false () .idle).setProgress .dispatch

theorem handedOver_someClone : HandedOver defaultConfig .udpClone someClone := by
  have hid : someMaster.mtxpId ≠ noParent := by decide
  exact .udpClone hid rfl

theorem handedOver_someConn : HandedOver defaultConfig .tcpConn someConn := .tcpConn .start rfl

/-- A clone whose worker has decoded its arguments lets the dispatch thread go on. -/
theorem wait_released_clone : ∃ s : Handshake Unit,
    Reached (handshakeStep defaultConfig .udpClone) anyStep ⟨.enter, someClone, []⟩ s ∧
      Signalled s ∧ CanProceed defaultConfig s := by
  let calls : List (WorkerCall Unit) := [.getargs true ()]
  have hrun : exec (handshakeStep defaultConfig .udpClone) anyStep ⟨.enter, someClone, []⟩
      [.worker (.getargs true ())] = some ⟨.enter, svcudpGetargs someClone (), calls⟩ := rfl
  have hreached := reached_of_exec _ _ .start _ hrun
  have hsig : Signalled ⟨.enter, svcudpGetargs someClone (), calls⟩ := ⟨_, List.mem_singleton_self _, rfl⟩
  refine ⟨_, hreached, hsig, ?_⟩
  exact (wait_released_iff rfl handedOver_someClone hreached hsig).mpr ⟨rfl, rfl⟩

/-- With the default settings a TCP worker that has decoded its arguments, replied and returned
leaves the dispatch thread waiting for ever. -/
theorem wait_not_released_conn : ∃ s : Handshake Unit,
    Reached (handshakeStep defaultConfig .tcpConn) anyStep ⟨.enter, someConn, []⟩ s ∧
      Signalled s ∧ ¬CanProceed defaultConfig s := by
  have hrun : (exec (handshakeStep defaultConfig .tcpConn) anyStep ⟨.enter, someConn, []⟩
      [.worker (.getargs true ()), .worker (.reply true ()), .worker .ret]).isSome = true := rfl
  obtain ⟨s, hs⟩ := Option.isSome_iff_exists.mp hrun
  have hreached := reached_of_exec _ _ .start _ hs
  have hcalls : s.calls = [.getargs true (), .reply true (), .ret] := by
    cases hs
    rfl
  refine ⟨s, hreached, ⟨_, hcalls ▸ List.mem_cons_self, rfl⟩, ?_⟩
  obtain ⟨hmethod, hret, hlocked⟩ := handedOver_someConn.spec rfl
  have hmutex : Kind.method defaultConfig .tcpConn = waitMutex := rfl
  rw [canProceed_iff_ends rfl hmethod hret hreached, Ends, if_pos hmutex, hlocked hmutex]
  rintro (hfree | ⟨hkind, _⟩)
  · cases hfree
  · cases hkind

end RpcMt.Wait
