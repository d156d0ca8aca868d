import RpcMt.Callouts
import RpcMt.DispatchWait
import RpcMt.Gc

/-! From a ready descriptor to the requests on it: `svc_getreq_common`, `svc_getreq_common_rv`,
`get_single_request` and `request_dispatch` of `svc.c`, with the status that `struct req` carries back
up. What the operations of a transport do, which calls a worker makes and when, and what
`_authenticate` answers, is given from outside, as is everything that other threads do to the transport
in the meantime. The checks of `check_xports` and `fsck_busy` are left out, and the mark that
`svc_return` makes for the reaper. -/

namespace RpcMt.GetReq

/-- `enum auth_stat`. -/
inductive AuthStat where
  | ok
  | badcred
  | rejectedcred
  | badverf
  | rejectedverf
  | tooweak
  | invalidresp
  | failed
  deriving DecidableEq, Repr

/-- The part of a transport that its operations and the service may change. -/
structure Left (π : Type) where
  xpPriv : π
  mtxpBusy : Nat
  mtxpMtready : Bool
  mtxpProgress : Progress

def Left.of {π : Type} (l : Left π) (x : Svcxprt π) : Svcxprt π :=
  { x with
    xpPriv := l.xpPriv
    mtxpBusy := l.mtxpBusy
    mtxpMtready := l.mtxpMtready
    mtxpProgress := l.mtxpProgress }

/-- One turn of the loop: the message that `SVC_RECV` accepts, if it does, where a clone is allocated,
the steps of a worker and of the wait for it, what `SVC_STAT` answers, and how the transport is left by
`SVC_RECV`, by an error reply, and by `SVC_STAT`. -/
structure Turn (π : Type) where
  msg : Option RpcMsg
  clone : Addr
  clonePriv : π
  steps : List (Wait.HandshakeStep π)
  stat : XprtStat
  atRecv : Left π
  atReply : Left π
  atStat : Left π

/-- What is done about a message. -/
inductive Answer (H : Type) where
  | auth (why : AuthStat)
  | noProg
  | progVers (lowVers highVers : Nat)
  | dispatched (h : H)

/-- `struct req`, with what was done about the message. -/
structure Req (β π H : Type) where
  reg : Registry β π
  workerXprt : Addr
  rv : Int
  answer : Option (Answer H)

section Model

variable {β π H : Type} [IdSet β] (cfg : Config) (svcHead : List (Callout H))
  (authenticate : RpcMsg → AuthStat)

/-- `svc_xprt_clone`. -/
def svcXprtClone (s : Registry β π) (a : Addr) (turn : Turn π) : Res (Registry β π) := do
  let x ← s.deref a
  (s.store turn.clone (x.cloneXprt turn.clonePriv)).xprtRegister turn.clone

/-- The transport that `request_dispatch` uses. -/
def chooseWorker (s : Registry β π) (a : Addr) (turn : Turn π) : Res (Registry β π × Addr) := do
  let x ← s.deref a
  if cfg.mtmode ≠ 0 ∧ x.mtxpClone then do
    let s ← svcXprtClone s a turn
    pure (s, turn.clone)
  else pure (s, a)

def requestDispatch (s : Registry β π) (a : Addr) (turn : Turn π) (h : H) : Res (Req β π H) := do
  let (s, w) ← chooseWorker cfg s a turn
  let x ← s.deref w
  match RpcMt.requestDispatch cfg x with
  | .destroy => do
      let s ← s.svcDestroy w
      pure ⟨s, w, 0, none⟩
  | .gcMark => do
      let s ← s.xprtGcMark w
      pure ⟨s, w, 0, none⟩
  | .call x => do
      let x ← Wait.awaitWorker cfg x turn.steps
      pure ⟨s.store w x, w, 0, some (.dispatched h)⟩

/-- `svcerr_auth`, `svcerr_noprog` or `svcerr_progvers`, with the status that `request_lookup` sets. -/
def svcerr (s : Registry β π) (a : Addr) (turn : Turn π) (rv : Int) (answer : Answer H) :
    Res (Req β π H) := do
  let x ← s.deref a
  let entry ← s.xportsAt x.mtxpId
  if entry = .ref a then pure ⟨s.store a (turn.atReply.of x), a, rv, some answer⟩
  else .error .svcDie

def requestLookup (s : Registry β π) (a : Addr) (turn : Turn π) (msg : RpcMsg) : Res (Req β π H) :=
  match RpcMt.requestLookup svcHead (decide (authenticate msg = .ok)) msg with
  | .authError => svcerr s a turn (-1) (.auth (authenticate msg))
  | .noProg => svcerr s a turn 0 .noProg
  | .progVers lowVers highVers => svcerr s a turn 0 (.progVers lowVers highVers)
  | .dispatch h => requestDispatch cfg s a turn h

/-- `SVC_STAT`; on a transport that is cloned it is `svcudp_stat`. -/
def svcStat (x : Svcxprt π) (turn : Turn π) : XprtStat := if x.mtxpClone then .idle else turn.stat

/-- `SVC_RECV` and what follows from it. -/
def recvRequest (s : Registry β π) (a : Addr) (turn : Turn π) : Res (Req β π H) := do
  let x ← s.deref a
  let s := s.store a (turn.atRecv.of x)
  match turn.msg with
  | none => pure ⟨s, a, 0, none⟩
  | some msg => requestLookup cfg svcHead authenticate s a turn msg

/-- What becomes of a transport that has died. -/
def retire (s : Registry β π) (w : Addr) : Res (Registry β π) :=
  if cfg.mtmode = 0 then s.svcDestroy w else s.xprtGcMark w

/-- `SVC_STAT` and what follows from it, with the status. -/
def statRequest (req : Req β π H) (turn : Turn π) : Res (Req β π H × XprtStat) := do
  let w ← req.reg.deref req.workerXprt
  let xrv := svcStat w turn
  let s := req.reg.store req.workerXprt { turn.atStat.of w with mtxpStat := xrv }
  if xrv = .died then do
    let s ← retire cfg s req.workerXprt
    pure ({ req with reg := s }, xrv)
  else pure ({ req with reg := s }, xrv)

def getSingleRequest (s : Registry β π) (a : Addr) (turn : Turn π) : Res (Req β π H × XprtStat) := do
  let req ← recvRequest cfg svcHead authenticate s a turn
  statRequest cfg req turn

/-- What happened in a turn. -/
abbrev Log (H : Type) := List (Option RpcMsg × Option (Answer H))

/-- The loop of `svc_getreq_common_rv`, one element of the list for each turn; past the end of the list
the loop is still in `SVC_RECV`. -/
def getRequests (a : Addr) : List (Turn π) → Registry β π → Res (Int × Registry β π × Log H)
  | [], s => .ok (0, s, [])
  | turn :: turns, s => do
      let (req, xrv) ← getSingleRequest cfg svcHead authenticate s a turn
      if req.rv ≠ 0 then pure (req.rv, req.reg, [(turn.msg, req.answer)])
      else if xrv ≠ .morereqs then pure (0, req.reg, [(turn.msg, req.answer)])
      else do
        let (rv, s, log) ← getRequests a turns req.reg
        pure (rv, s, (turn.msg, req.answer) :: log)

/-- The reaping at the start of `svc_getreq_common_rv`. -/
def reap (s : Registry β π) : Res (Registry β π) :=
  if cfg.mtmode ≠ 0 then s.xprtGcReapAll else .ok s

def svcGetreqCommonRv (s : Registry β π) (fd : Nat) (turns : List (Turn π)) :
    Res (Int × Registry β π × Log H) := do
  let s ← reap cfg s
  match ← s.sockXportsAt fd with
  | .null => pure (0, s, [])
  | .bad => pure (0, s, [])
  | .ref a => do
      let x ← s.deref a
      let entry ← s.xportsAt x.mtxpId
      if entry = .ref a then getRequests cfg svcHead authenticate a turns s else .error .svcDie

def svcGetreqCommon (s : Registry β π) (fd : Nat) (turns : List (Turn π)) :
    Res (Registry β π × Log H) := do
  let (err, s, log) ← svcGetreqCommonRv cfg svcHead authenticate s fd turns
  if err ≠ 0 then .error .svcDie else pure (s, log)

end Model

/-! ### Requests on a registered transport -/

section Requests

variable {β π H : Type} [IdSet β] {cfg : Config} {svcHead : List (Callout H)}
  {authenticate : RpcMsg → AuthStat} {s : Registry β π} {a : Addr} {x y : Svcxprt π} {turn : Turn π}

/-- Transport `x` at `a` owns its socket and is registered. -/
structure Ready (s : Registry β π) (a : Addr) (x : Svcxprt π) : Prop where
  size_le : s.xportsSize ≤ Registry.fdSetsize
  heap : s.heap a = some x
  entry : s.xports x.mtxpId = .ref a
  id_lt : x.mtxpId < s.xportsSize
  id_le : x.mtxpId ≤ s.xportsMaxid
  sock_lt : x.xpSock < s.xportsSize
  master : x.mtxpParent = noParent
  getBit : ∃ b, IdSet.getBit s.xprtgcIdset x.mtxpId = .ok b
  setBit : ∃ t, IdSet.setBit s.xprtgcIdset x.mtxpId = .ok t
  clrBit : ∃ t, IdSet.clrBit s.xportsIdset x.mtxpId = .ok t

theorem Ready.store (h : Ready s a x) (hid : y.mtxpId = x.mtxpId) (hsock : y.xpSock = x.xpSock)
    (hparent : y.mtxpParent = x.mtxpParent) : Ready (s.store a y) a y where
  size_le := h.size_le
  heap := Function.update_self ..
  entry := hid ▸ h.entry
  id_lt := hid ▸ h.id_lt
  id_le := hid ▸ h.id_le
  sock_lt := hsock ▸ h.sock_lt
  master := hparent ▸ h.master
  getBit := hid ▸ h.getBit
  setBit := hid ▸ h.setBit
  clrBit := hid ▸ h.clrBit

theorem Ready.left (h : Ready s a x) (l : Left π) : Ready (s.store a (l.of x)) a (l.of x) := h.store rfl rfl rfl

theorem Ready.deref (h : Ready s a x) : s.deref a = .ok x := Registry.deref_of_heap h.heap

theorem Ready.xportsAt (h : Ready s a x) : s.xportsAt x.mtxpId = .ok (.ref a) := by
  rw [Registry.xportsAt, if_pos h.id_lt, h.entry]

theorem Ready.xprtGcMark (h : Ready s a x) : ∃ t, s.xprtGcMark a = .ok t := by
  obtain ⟨b, hb⟩ := h.getBit
  obtain ⟨idset, hset⟩ := h.setBit
  unfold Registry.xprtGcMark
  rw [h.deref]
  cases b with
  | true => simp [bind, Except.bind, hb, pure, Except.pure]
  | false => simp [bind, Except.bind, hb, hset, pure, Except.pure]

theorem Ready.svcDestroy (h : Ready s a x) : ∃ t, s.svcDestroy a = .ok t := by
  obtain ⟨idset, hclr⟩ := h.clrBit
  have hle : ¬s.xportsMaxid < x.mtxpId := Nat.not_lt.mpr h.id_le
  simp [Registry.svcDestroy, Registry.xprtUnregister, Registry.releaseSocket, Registry.unregisterId,
    Registry.pollfdRemove, bind, Except.bind, pure, Except.pure, h.deref, h.xportsAt, hle, h.master,
    h.sock_lt, hclr]

theorem Ready.retire (h : Ready s a x) (cfg : Config) : ∃ t, retire cfg s a = .ok t := by
  unfold GetReq.retire
  split
  · exact h.svcDestroy
  · exact h.xprtGcMark

/-- What should be done about a message. -/
def expected (svcHead : List (Callout H)) (authenticate : RpcMsg → AuthStat) (msg : RpcMsg) : Answer H :=
  match RpcMt.requestLookup svcHead (decide (authenticate msg = .ok)) msg with
  | .authError => .auth (authenticate msg)
  | .noProg => .noProg
  | .progVers lowVers highVers => .progVers lowVers highVers
  | .dispatch h => .dispatched h

/-- An id can be had. -/
def IdFree (s : Registry β π) : Prop := ∃ id t, s.xprtIdAlloc = .ok (id, t)

/-- A transport that is used again starts without milestones. -/
def restarted (x : Svcxprt π) : Svcxprt π :=
  if x.mtxpProgress .returned then { x with mtxpProgress := .zero } else x

/-- The transport can be handed to a service, and the wait for the worker ends: a clone can be registered,
or the transport itself carries no return of an earlier request, or can be used again. -/
def HandsOver (cfg : Config) (s : Registry β π) (x : Svcxprt π) (turn : Turn π) : Prop :=
  if cfg.mtmode ≠ 0 ∧ x.mtxpClone = true then
    IdFree s ∧ Wait.WaitEnds cfg (x.cloneXprt turn.clonePriv) (Wait.workerCalls turn.steps)
  else
    (x.mtxpProgress .returned = true → cfg.mtmode ≠ 0 ∧ x.isReusable = true) ∧
      Wait.WaitEnds cfg (restarted x) (Wait.workerCalls turn.steps)

/-- The credentials of the message are accepted, and what it asks for can be handed over and waited for. -/
def Accepts (cfg : Config) (svcHead : List (Callout H)) (authenticate : RpcMsg → AuthStat)
    (s : Registry β π) (x : Svcxprt π) (turn : Turn π) : Prop :=
  ∀ msg, turn.msg = some msg → (msg.oaFlavor = authNull ∨ authenticate msg = .ok) ∧
    (Dispatchable svcHead (decide (authenticate msg = .ok)) msg → HandsOver cfg s (turn.atRecv.of x) turn)

theorem xprtIdAlloc_store (s : Registry β π) (a : Addr) (x : Svcxprt π) :
    (s.store a x).xprtIdAlloc = s.xprtIdAlloc.map fun r => (r.1, r.2.store a x) := by
  unfold Registry.xprtIdAlloc
  show ((s.xprtIdChoose >>= _ : Res _) = _)
  cases s.xprtIdChoose with
  | error e => rfl
  | ok r =>
      show ((if s.xportsSize ≤ r.1 then _ else _ : Res _) = Except.map _ (if s.xportsSize ≤ r.1 then _ else _))
      split
      · rfl
      · show ((IdSet.setBit s.xportsIdset r.1 >>= _ : Res _) = _)
        cases IdSet.setBit s.xportsIdset r.1 with
        | error e => rfl
        | ok idset => rfl

theorem idFree_store (s : Registry β π) (a : Addr) (x : Svcxprt π) : IdFree (s.store a x) ↔ IdFree s := by
  unfold IdFree
  rw [xprtIdAlloc_store]
  cases s.xprtIdAlloc with
  | error e => simp [Except.map]
  | ok r => exact ⟨fun _ => ⟨r.1, r.2, rfl⟩, fun _ => ⟨r.1, r.2.store a x, rfl⟩⟩

theorem handsOver_store (s : Registry β π) (a : Addr) (x y : Svcxprt π) :
    HandsOver cfg (s.store a y) x turn ↔ HandsOver cfg s x turn := by
  unfold HandsOver
  rw [idFree_store]

/-! ### Handing over -/

theorem chooseWorker_self (h : Ready s a x) (hno : ¬(cfg.mtmode ≠ 0 ∧ x.mtxpClone = true)) :
    chooseWorker cfg s a turn = .ok (s, a) := by
  unfold chooseWorker
  rw [h.deref]
  show (if _ then _ else _ : Res _) = _
  rw [if_neg hno]
  rfl

theorem Ready.id_ne (h : Ready s a x) : x.mtxpId ≠ noParent := by
  have hlt : x.mtxpId < Registry.fdSetsize := h.id_lt.trans_le h.size_le
  unfold noParent
  have hsize : Registry.fdSetsize < sizeMax := by decide
  omega

/-- A clone of `x`, as it is before it is handed over. -/
structure CloneOf (x y : Svcxprt π) : Prop where
  progress : y.mtxpProgress = .zero
  mtready : y.mtxpMtready = true
  clone : y.mtxpClone = x.mtxpClone
  parent : y.mtxpParent = x.mtxpId

/-- A clone is registered, and found, when there is an id for it. -/
theorem svcXprtClone_ok (h : Ready s a x) (hfresh : turn.clone ≠ a) (hfree : IdFree s) :
    ∃ t y, svcXprtClone s a turn = .ok t ∧ t.heap turn.clone = some y ∧ CloneOf x y := by
  obtain ⟨id, u, halloc⟩ := hfree
  obtain ⟨maxid, idset, _, hlt, _, hu⟩ := Registry.xprtIdAlloc_ok halloc
  let c := x.cloneXprt turn.clonePriv
  let v := (u.store turn.clone c).store turn.clone { c with mtxpId := id }
  have hself : (s.store turn.clone c).heap turn.clone = some c := Function.update_self ..
  have halloc' : (s.store turn.clone c).xprtIdAlloc = .ok (id, u.store turn.clone c) := by
    rw [xprtIdAlloc_store, halloc]
    rfl
  have hreg : svcXprtClone s a turn = v.enterXports turn.clone c id := by
    rw [svcXprtClone, h.deref]
    exact Registry.xprtRegister_of_alloc hself rfl halloc'
  have hsize : v.xportsSize = s.xportsSize := by
    show u.xportsSize = s.xportsSize
    rw [hu]
  -- Before its parent is counted up the clone is in place, and its parent where it was.
  have hclone : v.heap turn.clone = some { c with mtxpId := id } := Function.update_self ..
  have hparent : v.heap a = some x := by
    show Function.update (Function.update u.heap turn.clone _) turn.clone _ a = some x
    rw [Function.update_of_ne hfresh.symm, Function.update_of_ne hfresh.symm, hu, h.heap]
  let e : Registry β π := { v with xports := Function.update v.xports id (.ref turn.clone) }
  have hentry : ∃ p px, e.xports x.mtxpId = .ref p ∧ e.heap p = some px := by
    show ∃ p px, Function.update v.xports id (.ref turn.clone) x.mtxpId = .ref p ∧ v.heap p = some px
    by_cases hid : x.mtxpId = id
    · rw [hid, Function.update_self]
      exact ⟨turn.clone, _, rfl, hclone⟩
    · rw [Function.update_of_ne hid, show v.xports = s.xports by show u.xports = _; rw [hu], h.entry]
      exact ⟨a, x, rfl, hparent⟩
  obtain ⟨p, px, hp, hpx⟩ := hentry
  have hlt' : x.mtxpId < e.xportsSize := by
    show x.mtxpId < v.xportsSize
    rw [hsize]
    exact h.id_lt
  rw [Registry.enterXports_clone (by rwa [hsize]) (show c.mtxpParent ≠ noParent from h.id_ne)] at hreg
  replace hreg := hreg.trans (Registry.countParent_of 1 hlt' hp hpx)
  by_cases hpb : p = turn.clone
  · subst hpb
    cases hclone.symm.trans hpx
    exact ⟨_, _, hreg, Function.update_self .., rfl, rfl, rfl, rfl⟩
  · exact ⟨_, _, hreg, (Function.update_of_ne (Ne.symm hpb) _ _).trans hclone, rfl, rfl, rfl, rfl⟩

/-- What is to be found of a request that was dispatched or replied to: its worker, and the transport
itself where that is the worker. -/
structure Found (s t : Registry β π) (a w : Addr) (x y : Svcxprt π) : Prop where
  heap : t.heap w = some y
  clone : y.mtxpClone = x.mtxpClone
  self : (w = a ∧ t = s.store a y ∧ ∀ l : Left π, l.of y = l.of x) ∨ x.mtxpClone = true

theorem left_of_worked (h : Wait.Worked x y) (l : Left π) : l.of y = l.of x := by
  unfold Wait.Worked at h
  rw [h]
  rfl

theorem clone_of_worked (h : Wait.Worked x y) : y.mtxpClone = x.mtxpClone := by
  unfold Wait.Worked at h
  rw [h]

/-- The wait looks at the mutex and at one milestone of the transport. -/
theorem waitEnds_congr {calls : List (Wait.WorkerCall π)} (hready : y.mtxpMtready = x.mtxpMtready)
    (hget : y.mtxpProgress .getargs = x.mtxpProgress .getargs) (hclone : y.mtxpClone = x.mtxpClone) :
    Wait.WaitEnds cfg y calls ↔ Wait.WaitEnds cfg x calls := by
  unfold Wait.WaitEnds Wait.Ends Wait.kindOf
  rw [hready, hget, hclone]

theorem requestDispatch_call_iff (cfg : Config) (x : Svcxprt π) :
    (∃ y, RpcMt.requestDispatch cfg x = .call y) ↔
      (x.mtxpProgress .returned = true → cfg.mtmode ≠ 0 ∧ x.isReusable = true) := by
  unfold RpcMt.requestDispatch
  split
  · rename_i hret
    rw [forall_prop_of_true hret]
    by_cases hzero : cfg.mtmode = 0
    · rw [if_pos hzero]
      exact ⟨nofun, fun h => absurd hzero h.1⟩
    · rw [if_neg hzero, and_iff_right hzero]
      by_cases huse : x.isReusable = true
      · rw [if_pos huse]
        exact ⟨fun _ => huse, fun _ => ⟨_, rfl⟩⟩
      · rw [if_neg huse]
        exact ⟨nofun, fun h => absurd h huse⟩
  · rename_i hret
    exact ⟨fun _ h => absurd h hret, fun _ => ⟨_, rfl⟩⟩

/-- A transport that is handed over without a clone. -/
theorem waitEnds_restarted {calls : List (Wait.WorkerCall π)} (h : RpcMt.requestDispatch cfg x = .call y) :
    Wait.WaitEnds cfg y calls ↔ Wait.WaitEnds cfg (restarted x) calls := by
  unfold restarted
  obtain ⟨hret, rfl⟩ | ⟨hret, rfl⟩ := requestDispatch_cases h
  · rw [if_pos hret]
    exact waitEnds_congr rfl rfl rfl
  · rw [if_neg (Bool.eq_false_iff.mp hret)]
    exact waitEnds_congr rfl rfl rfl

/-- From the worker on, `request_dispatch` is its wait. -/
theorem requestDispatch_waits {t : Registry β π} {w : Addr} {z : Svcxprt π}
    (hchoose : chooseWorker cfg s a turn = .ok (t, w)) (hz : t.heap w = some z)
    (hcall : RpcMt.requestDispatch cfg z = .call y) (hd : H) :
    requestDispatch cfg s a turn hd = (Wait.awaitWorker cfg y turn.steps >>= fun x =>
      pure ⟨t.store w x, w, 0, some (.dispatched hd)⟩ : Res (Req β π H)) := by
  rw [requestDispatch, hchoose]
  show (t.deref w >>= _ : Res _) = _
  rw [Registry.deref_of_heap hz]
  show (match RpcMt.requestDispatch cfg z with | .destroy => _ | .gcMark => _ | .call x => _ : Res _) = _
  rw [hcall]

/-- Where a clone is made, it is what is handed over. -/
theorem chooseWorker_clone (h : Ready s a x) (hclone : cfg.mtmode ≠ 0 ∧ x.mtxpClone = true) {t : Registry β π}
    (hreg : svcXprtClone s a turn = .ok t) : chooseWorker cfg s a turn = .ok (t, turn.clone) := by
  rw [chooseWorker, h.deref]
  show (if _ then _ else _ : Res _) = _
  rw [if_pos hclone, hreg]
  rfl

/-- A clone is handed over, and its worker can return. -/
theorem CloneOf.call (hy : CloneOf x y) (h : Ready s a x) (hclone : x.mtxpClone = true) (cfg : Config) :
    RpcMt.requestDispatch cfg y = .call (y.setProgress .dispatch) ∧ Wait.CanReturn cfg (y.setProgress .dispatch) := by
  refine ⟨?_, fun _ => ⟨fun hparent => absurd (hy.parent.symm.trans hparent) h.id_ne, fun hno => ?_⟩⟩
  · unfold RpcMt.requestDispatch
    rw [hy.progress]
    rfl
  · exact absurd (hno.symm.trans (hy.clone.trans hclone)) Bool.false_ne_true

theorem CloneOf.waitEnds {calls : List (Wait.WorkerCall π)} (hy : CloneOf x y) (priv : π) :
    Wait.WaitEnds cfg (y.setProgress .dispatch) calls ↔ Wait.WaitEnds cfg (x.cloneXprt priv) calls := by
  have hready : (y.setProgress .dispatch).mtxpMtready = (x.cloneXprt priv).mtxpMtready := hy.mtready
  have hclone : (y.setProgress .dispatch).mtxpClone = (x.cloneXprt priv).mtxpClone := hy.clone
  refine waitEnds_congr hready ?_ hclone
  simp [Svcxprt.setProgress, hy.progress, Svcxprt.cloneXprt]

/-- The transport itself is handed over, and its worker can return. -/
theorem Ready.canReturn (h : Ready s a x) (hno : ¬(cfg.mtmode ≠ 0 ∧ x.mtxpClone = true))
    (hcall : RpcMt.requestDispatch cfg x = .call y) : Wait.CanReturn cfg y := by
  obtain ⟨_, _, hparent, hclone, _⟩ := requestDispatch_call hcall
  intro hmode
  refine ⟨fun _ => ?_, fun _ => hparent.trans h.master⟩
  rw [hclone]
  exact Bool.eq_false_iff.mpr fun hc => hno ⟨hmode, hc⟩

theorem requestDispatch_ok (h : Ready s a x) (hmode : cfg.mtmode ≤ 2) (hfast : cfg.failfast = false)
    (hfresh : turn.clone ≠ a) (hover : HandsOver cfg s x turn) (hd : H) :
    ∃ t w y, requestDispatch cfg s a turn hd = .ok ⟨t, w, 0, some (.dispatched hd)⟩ ∧ Found s t a w x y := by
  unfold HandsOver at hover
  by_cases hclone : cfg.mtmode ≠ 0 ∧ x.mtxpClone = true
  · rw [if_pos hclone] at hover
    obtain ⟨hfree, hends⟩ := hover
    obtain ⟨t, y, hreg, hy, hof⟩ := svcXprtClone_ok h hfresh hfree
    obtain ⟨hcall, hcan⟩ := hof.call h hclone.2 cfg
    obtain ⟨z, hz⟩ := (Wait.awaitWorker_ok_iff hmode hfast hcan (requestDispatch_call hcall).1 turn.steps).mpr
      ((hof.waitEnds turn.clonePriv).mpr hends)
    have hworked := Wait.awaitWorker_worked hz
    refine ⟨t.store turn.clone z, turn.clone, z, ?_, Function.update_self ..,
      (clone_of_worked hworked).trans hof.clone, Or.inr hclone.2⟩
    rw [requestDispatch_waits (chooseWorker_clone h hclone hreg) hy hcall, hz]
    rfl
  · rw [if_neg hclone] at hover
    obtain ⟨huse, hends⟩ := hover
    obtain ⟨y, hcall⟩ := (requestDispatch_call_iff cfg x).mpr huse
    have hcan := h.canReturn hclone hcall
    obtain ⟨z, hz⟩ := (Wait.awaitWorker_ok_iff hmode hfast hcan (requestDispatch_call hcall).1 turn.steps).mpr
      ((waitEnds_restarted hcall).mpr hends)
    have hworked := Wait.awaitWorker_worked hz
    have hleft : ∀ l : Left π, l.of z = l.of x := by
      intro l
      rw [left_of_worked hworked]
      obtain ⟨_, rfl⟩ | ⟨_, rfl⟩ := requestDispatch_cases hcall
      · rfl
      · rfl
    refine ⟨s.store a z, a, z, ?_, Function.update_self .., ?_, Or.inl ⟨rfl, rfl, hleft⟩⟩
    · rw [requestDispatch_waits (chooseWorker_self h hclone) h.heap hcall, hz]
      rfl
    · exact (clone_of_worked hworked).trans (requestDispatch_call hcall).2.2.2.1

/-- A request that has been dispatched was handed over and waited for. -/
theorem requestDispatch_handsOver (h : Ready s a x) (hmode : cfg.mtmode ≤ 2) (hfast : cfg.failfast = false)
    (hfresh : turn.clone ≠ a) {hd : H} {req : Req β π H} (hreq : requestDispatch cfg s a turn hd = .ok req)
    (hans : req.answer = some (.dispatched hd)) : HandsOver cfg s x turn := by
  unfold HandsOver
  split
  · rename_i hclone
    have hfree : IdFree s := by
      obtain ⟨⟨t, w⟩, hchoose, _⟩ := bind_ok hreq
      rw [chooseWorker, h.deref] at hchoose
      change (if _ then _ else _ : Res _) = _ at hchoose
      rw [if_pos hclone] at hchoose
      obtain ⟨t', hreg, _⟩ := bind_ok hchoose
      rw [svcXprtClone, h.deref] at hreg
      have hself : (s.store turn.clone (x.cloneXprt turn.clonePriv)).heap turn.clone =
          some (x.cloneXprt turn.clonePriv) := Function.update_self ..
      obtain ⟨id, s₁, halloc, _⟩ := Registry.xprtRegister_ok hself rfl hreg
      exact (idFree_store _ _ _).mp ⟨id, s₁, halloc⟩
    obtain ⟨t, y, hreg, hy, hof⟩ := svcXprtClone_ok h hfresh hfree
    obtain ⟨hcall, hcan⟩ := hof.call h hclone.2 cfg
    rw [requestDispatch_waits (chooseWorker_clone h hclone hreg) hy hcall] at hreq
    obtain ⟨z, hz, _⟩ := bind_ok hreq
    have hends := (Wait.awaitWorker_ok_iff hmode hfast hcan (requestDispatch_call hcall).1 turn.steps).mp ⟨z, hz⟩
    exact ⟨hfree, (hof.waitEnds turn.clonePriv).mp hends⟩
  · rename_i hclone
    by_cases huse : x.mtxpProgress .returned = true → cfg.mtmode ≠ 0 ∧ x.isReusable = true
    · obtain ⟨y, hcall⟩ := (requestDispatch_call_iff cfg x).mpr huse
      rw [requestDispatch_waits (chooseWorker_self h hclone) h.heap hcall] at hreq
      obtain ⟨z, hz, _⟩ := bind_ok hreq
      have hends := (Wait.awaitWorker_ok_iff hmode hfast (h.canReturn hclone hcall) (requestDispatch_call hcall).1
        turn.steps).mp ⟨z, hz⟩
      exact ⟨huse, (waitEnds_restarted hcall).mp hends⟩
    · -- The transport is destroyed or marked, and the message dropped.
      rw [requestDispatch, chooseWorker_self h hclone] at hreq
      change (s.deref a >>= _ : Res _) = _ at hreq
      rw [h.deref] at hreq
      change (match RpcMt.requestDispatch cfg x with | .destroy => _ | .gcMark => _ | .call x => _ : Res _) = _ at hreq
      cases hcase : RpcMt.requestDispatch cfg x with
      | destroy =>
          rw [hcase] at hreq
          obtain ⟨u, _, hpure⟩ := bind_ok hreq
          cases hpure
          cases hans
      | gcMark =>
          rw [hcase] at hreq
          obtain ⟨u, _, hpure⟩ := bind_ok hreq
          cases hpure
          cases hans
      | call y => exact absurd ((requestDispatch_call_iff cfg x).mp ⟨y, hcase⟩) huse

theorem svcerr_ok (h : Ready s a x) (rv : Int) (answer : Answer H) :
    svcerr s a turn rv answer = .ok ⟨s.store a (turn.atReply.of x), a, rv, some answer⟩ := by
  rw [svcerr, h.deref]
  show (s.xportsAt x.mtxpId >>= _ : Res _) = _
  rw [h.xportsAt]
  exact if_pos rfl

omit [IdSet β] in
theorem found_left (s : Registry β π) (a : Addr) (x : Svcxprt π) (l : Left π) :
    Found s (s.store a (l.of x)) a a x (l.of x) :=
  ⟨Function.update_self .., rfl, Or.inl ⟨rfl, rfl, fun _ => rfl⟩⟩

/-! ### One turn -/

/-- A transport after a turn that ends in `XPRT_MOREREQS`. -/
def next (x : Svcxprt π) (turn : Turn π) : Svcxprt π := { turn.atStat.of x with mtxpStat := .morereqs }

theorem statRequest_ok {t : Registry β π} {w : Addr} (cfg : Config) (turn : Turn π) (h : Ready s a x)
    (hf : Found s t a w x y) (rv : Int) (answer : Option (Answer H)) :
    ∃ u, statRequest cfg ⟨t, w, rv, answer⟩ turn = .ok (⟨u, w, rv, answer⟩, svcStat x turn) ∧
      (svcStat x turn = .morereqs → u = s.store a (next x turn)) := by
  have hstat : svcStat y turn = svcStat x turn := by rw [svcStat, svcStat, hf.clone]
  let z : Svcxprt π := { turn.atStat.of y with mtxpStat := svcStat x turn }
  have hrun : statRequest cfg ⟨t, w, rv, answer⟩ turn =
      if svcStat x turn = .died then do
        let s ← retire cfg (t.store w z) w
        pure (⟨s, w, rv, answer⟩, svcStat x turn)
      else pure (⟨t.store w z, w, rv, answer⟩, svcStat x turn) := by
    rw [statRequest, Registry.deref_of_heap hf.heap]
    show (if svcStat y turn = .died then _ else _ : Res _) = _
    rw [hstat]
  rw [hrun]
  by_cases hdied : svcStat x turn = .died
  · rw [if_pos hdied]
    obtain ⟨rfl, rfl, hleft⟩ | hclone := hf.self
    · have hsame := hleft turn.atStat
      have hid : y.mtxpId = x.mtxpId := (congrArg Svcxprt.mtxpId hsame :)
      have hsock : y.xpSock = x.xpSock := (congrArg Svcxprt.xpSock hsame :)
      have hparent : y.mtxpParent = x.mtxpParent := (congrArg Svcxprt.mtxpParent hsame :)
      have hready : Ready ((s.store w y).store w z) w z := (h.store hid hsock hparent).store rfl rfl rfl
      obtain ⟨u, hu⟩ := hready.retire cfg
      rw [hu]
      exact ⟨u, rfl, fun hmore => absurd (hdied.symm.trans hmore) nofun⟩
    · rw [svcStat, if_pos hclone] at hdied
      cases hdied
  · rw [if_neg hdied]
    refine ⟨_, rfl, fun hmore => ?_⟩
    obtain ⟨rfl, rfl, hleft⟩ | hclone := hf.self
    · show (s.store w y).store w { turn.atStat.of y with mtxpStat := svcStat x turn } = _
      rw [hmore, hleft turn.atStat]
      simp only [Registry.store, Function.update_idem, next]
    · rw [svcStat, if_pos hclone] at hmore
      cases hmore

theorem statRequest_keeps {req req' : Req β π H} {xrv : XprtStat}
    (h : statRequest cfg req turn = .ok (req', xrv)) : req'.rv = req.rv ∧ req'.answer = req.answer := by
  obtain ⟨w, _, h⟩ := bind_ok h
  dsimp only at h
  split at h
  · obtain ⟨u, _, h⟩ := bind_ok h
    cases h
    exact ⟨rfl, rfl⟩
  · cases h
    exact ⟨rfl, rfl⟩

theorem lookup_authError (svcHead : List (Callout H)) {msg : RpcMsg} :
    RpcMt.requestLookup svcHead (decide (authenticate msg = .ok)) msg = .authError ↔
      ¬(msg.oaFlavor = authNull ∨ authenticate msg = .ok) := by
  unfold RpcMt.requestLookup
  by_cases hauth : msg.oaFlavor ≠ authNull ∧ decide (authenticate msg = .ok) = false
  · rw [if_pos hauth]
    simpa using hauth
  · rw [if_neg hauth]
    have hok : msg.oaFlavor = authNull ∨ authenticate msg = .ok := by
      by_contra hnot
      rw [not_or] at hnot
      exact hauth ⟨hnot.1, by simpa using hnot.2⟩
    exact ⟨fun h => absurd h (matchProgVersion_ne_authError _ _ _ _ _ _), fun h => absurd hok h⟩

/-- A turn whose message is accepted answers it as it should. -/
theorem turn_ok (h : Ready s a x) (hmode : cfg.mtmode ≤ 2) (hfast : cfg.failfast = false) (hfresh : turn.clone ≠ a)
    (hacc : Accepts cfg svcHead authenticate s x turn) :
    ∃ u w, getSingleRequest cfg svcHead authenticate s a turn =
        .ok (⟨u, w, 0, turn.msg.map (expected svcHead authenticate)⟩, svcStat x turn) ∧
      (svcStat x turn = .morereqs → u = s.store a (next x turn)) := by
  have hready := h.left turn.atRecv
  -- Whatever the message, the request finds its worker with status 0 and the right answer.
  have hrecv : ∃ t w y, recvRequest cfg svcHead authenticate s a turn =
      .ok ⟨t, w, 0, turn.msg.map (expected svcHead authenticate)⟩ ∧
      Found (s.store a (turn.atRecv.of x)) t a w (turn.atRecv.of x) y := by
    rw [recvRequest, h.deref]
    cases hmsg : turn.msg with
    | none => exact ⟨_, a, _, rfl, Function.update_self .., rfl, Or.inl ⟨rfl, by simp [Registry.store], fun _ => rfl⟩⟩
    | some msg =>
        obtain ⟨hcreds, hover⟩ := hacc msg hmsg
        show ∃ t w y, requestLookup cfg svcHead authenticate (s.store a (turn.atRecv.of x)) a turn msg = _ ∧ _
        have hno := mt (lookup_authError svcHead).mp (not_not.mpr hcreds)
        rw [requestLookup, Option.map_some, expected]
        cases hlook : RpcMt.requestLookup svcHead (decide (authenticate msg = .ok)) msg with
        | authError => exact absurd hlook hno
        | noProg => exact ⟨_, a, _, svcerr_ok hready 0 _, found_left ..⟩
        | progVers lowVers highVers => exact ⟨_, a, _, svcerr_ok hready 0 _, found_left ..⟩
        | dispatch hd =>
            have hdisp := (requestLookup_dispatch_iff svcHead _ msg).mp ⟨hd, hlook⟩
            exact requestDispatch_ok hready hmode hfast hfresh
              ((handsOver_store s a _ _).mpr (hover hdisp)) hd
  obtain ⟨t, w, y, hreq, hfound⟩ := hrecv
  obtain ⟨u, hstat, hmore⟩ := statRequest_ok cfg turn hready hfound 0
    (turn.msg.map (expected svcHead authenticate))
  refine ⟨u, w, ?_, fun hm => ?_⟩
  · rw [getSingleRequest, hreq]
    exact hstat
  · rw [hmore hm]
    simp only [Registry.store, Function.update_idem]
    rfl

/-- A turn whose message is not accepted ends the program, or fails to answer it. -/
theorem turn_bad (h : Ready s a x) (hmode : cfg.mtmode ≤ 2) (hfast : cfg.failfast = false) (hfresh : turn.clone ≠ a)
    (hacc : ¬Accepts cfg svcHead authenticate s x turn) {req : Req β π H}
    {xrv : XprtStat} (hst : getSingleRequest cfg svcHead authenticate s a turn = .ok (req, xrv)) :
    req.rv ≠ 0 ∨ req.answer ≠ turn.msg.map (expected svcHead authenticate) := by
  have hready := h.left turn.atRecv
  obtain ⟨req', hrecv, hstat⟩ := bind_ok hst
  obtain ⟨hrv, hans⟩ := statRequest_keeps hstat
  rw [hrv, hans]
  unfold Accepts at hacc
  push Not at hacc
  obtain ⟨msg, hmsg, hacc⟩ := hacc
  rw [recvRequest, h.deref] at hrecv
  change (match turn.msg with | none => _ | some msg => _ : Res _) = _ at hrecv
  rw [hmsg] at hrecv
  change requestLookup cfg svcHead authenticate (s.store a (turn.atRecv.of x)) a turn msg = _ at hrecv
  rw [requestLookup] at hrecv
  by_cases hcreds : msg.oaFlavor = authNull ∨ authenticate msg = .ok
  · right
    obtain ⟨hdisp, hover⟩ := hacc hcreds
    obtain ⟨hd, hlook⟩ := (requestLookup_dispatch_iff svcHead _ msg).mpr hdisp
    rw [hlook] at hrecv
    rw [hmsg, Option.map_some, expected, hlook]
    intro hdispatched
    have hhands := requestDispatch_handsOver hready hmode hfast hfresh hrecv hdispatched
    exact hover ((handsOver_store s a _ _).mp hhands)
  · left
    rw [(lookup_authError svcHead).mpr hcreds] at hrecv
    change svcerr _ a turn (-1) _ = _ at hrecv
    rw [svcerr_ok hready] at hrecv
    cases hrecv
    exact nofun

/-! ### A whole call -/

/-- Every message of the call is accepted, as far as the loop goes. -/
def AcceptsAll (cfg : Config) (svcHead : List (Callout H)) (authenticate : RpcMsg → AuthStat)
    (s : Registry β π) : List (Turn π) → Svcxprt π → Prop
  | [], _ => True
  | turn :: turns, x => Accepts cfg svcHead authenticate s x turn ∧
      (svcStat x turn = .morereqs → AcceptsAll cfg svcHead authenticate s turns (next x turn))

theorem acceptsAll_store (s : Registry β π) (a : Addr) (y : Svcxprt π) (turns : List (Turn π))
    (x : Svcxprt π) : AcceptsAll cfg svcHead authenticate (s.store a y) turns x ↔
      AcceptsAll cfg svcHead authenticate s turns x := by
  induction turns generalizing x with
  | nil => rfl
  | cons turn turns ih => simp only [AcceptsAll, Accepts, handsOver_store, ih]

/-- Each message has had the answer that it should have. -/
def Answered (svcHead : List (Callout H)) (authenticate : RpcMsg → AuthStat) (log : Log H) : Prop :=
  ∀ e ∈ log, e.2 = e.1.map (expected svcHead authenticate)

theorem getRequests_iff {turns : List (Turn π)} (h : Ready s a x) (hmode : cfg.mtmode ≤ 2)
    (hfast : cfg.failfast = false) (hfresh : ∀ turn ∈ turns, turn.clone ≠ a) :
    (∃ t log, getRequests cfg svcHead authenticate a turns s = .ok (0, t, log) ∧
      Answered svcHead authenticate log) ↔ AcceptsAll cfg svcHead authenticate s turns x := by
  induction turns generalizing s x with
  | nil => exact ⟨fun _ => trivial, fun _ => ⟨s, [], rfl, nofun⟩⟩
  | cons turn turns ih =>
      have hrest : ∀ t ∈ turns, t.clone ≠ a := fun t ht => hfresh t (List.mem_cons_of_mem _ ht)
      by_cases hacc : Accepts cfg svcHead authenticate s x turn
      · obtain ⟨u, w, hreq, hmore⟩ := turn_ok h hmode hfast (hfresh turn List.mem_cons_self) hacc
        have hrun : getRequests cfg svcHead authenticate a (turn :: turns) s =
            if svcStat x turn ≠ .morereqs then
              .ok (0, u, [(turn.msg, turn.msg.map (expected svcHead authenticate))])
            else (do
              let (rv, s, log) ← getRequests cfg svcHead authenticate a turns u
              pure (rv, s, (turn.msg, turn.msg.map (expected svcHead authenticate)) :: log)) := by
          rw [getRequests, hreq]
          rfl
        rw [hrun, AcceptsAll, and_iff_right hacc]
        by_cases hstat : svcStat x turn = .morereqs
        · cases hmore hstat
          rw [if_neg (not_not.mpr hstat), forall_prop_of_true hstat]
          have hnext : Ready (s.store a (next x turn)) a (next x turn) := h.store rfl rfl rfl
          rw [← acceptsAll_store s a (next x turn), ← ih hnext hrest]
          constructor
          · rintro ⟨t, log, hres, hall⟩
            obtain ⟨⟨rv, t', log'⟩, hres', hpure⟩ := bind_ok hres
            cases hpure
            exact ⟨_, log', hres', fun e he => hall e (List.mem_cons_of_mem _ he)⟩
          · rintro ⟨t, log, hres, hall⟩
            rw [hres]
            refine ⟨t, _, rfl, fun e he => ?_⟩
            rcases List.mem_cons.mp he with rfl | he
            · rfl
            · exact hall e he
        · rw [if_pos hstat]
          refine ⟨fun _ hm => absurd hm hstat, fun _ => ⟨u, _, rfl, fun e he => ?_⟩⟩
          rw [List.mem_singleton.mp he]
      · refine ⟨?_, fun hall => absurd hall.1 hacc⟩
        rintro ⟨t, log, hres, hall⟩
        rw [getRequests] at hres
        obtain ⟨⟨req, xrv⟩, hreq, hres⟩ := bind_ok hres
        -- The entry of this turn is the first one of the log in every way the loop can go on.
        have hhead : req.rv = 0 ∧ (turn.msg, req.answer) ∈ log := by
          dsimp only at hres
          split at hres
          · rename_i hrv
            exact absurd (congrArg Prod.fst (Except.ok.inj hres)) hrv
          · rename_i hrv
            refine ⟨not_not.mp hrv, ?_⟩
            split at hres
            · cases hres
              exact List.mem_cons_self
            · obtain ⟨⟨rv, t', log'⟩, _, hpure⟩ := bind_ok hres
              cases hpure
              exact List.mem_cons_self
        rcases turn_bad h hmode hfast (hfresh turn List.mem_cons_self) hacc hreq with hrv | hans
        · exact absurd hhead.1 hrv
        · exact absurd (hall _ hhead.2) hans

end Requests

/-! ### Rejected credentials -/

def conn : Svcxprt Unit := Svcxprt.newXprt 3 0 false () .idle

/-- The registry with one TCP connection, on descriptor 3. -/
def oneConn : Registry Bitvec Unit :=
  match ((Registry.createXports 1024).store 0 conn).xprtRegister 0 with
  | .ok s => s
  | .error _ => Registry.createXports 1024

def untouched : Left Unit := ⟨(), 0, false, .zero⟩

/-- A turn in which a message is received and nothing follows it. If it is dispatched, its worker gets the
arguments. -/
def single (msg : RpcMsg) : Turn Unit :=
  { msg := some msg
    clone := 1
    clonePriv := ()
    steps := [.worker (.getargs true ())]
    stat := .idle
    atRecv := { untouched with mtxpMtready := true }
    atReply := untouched
    atStat := untouched }

/-- Authentication as in libc for a flavor that has no handler. -/
def noFlavors (msg : RpcMsg) : AuthStat := if msg.oaFlavor = authNull then .ok else .rejectedcred

def nullService : List (Callout Unit) := [⟨100, 1, ()⟩]

/-- The same call without credentials is dispatched, and under the mutex method the wait for its worker does
not end. -/
example : svcGetreqCommon defaultConfig nullService noFlavors oneConn 3 [single ⟨7, 100, 1, 0, 0⟩] =
    .error .noReturn := rfl

end RpcMt.GetReq
