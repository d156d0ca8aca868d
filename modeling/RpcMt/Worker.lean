import RpcMt.Xprt

/-! What the calls of a worker do to the `mtxprt` half of its transport. The other half, the private
data that the XDR filter of the call reads and writes, is given as the status `rv` the filter returned
and the data `priv` it left; the transport modules supply both. -/

namespace RpcMt

variable {π : Type}

/-- `svctcp_getargs` around its filter. -/
def svctcpGetargs (cfg : Config) (x : Svcxprt π) (rv : Bool) (priv : π) : Res (Svcxprt π) :=
  let x := { x.setBusy 1 with xpPriv := priv }.setBusy 0
  if cfg.failfast && !rv then .error .svcDie
  else
    let x := x.setProgress .getargs
    .ok (if cfg.waitMethodTcp = 1 then x.setBusy 1 else x.unlockMtready)

/-- The part of `svctcp_getargs` after its filter and its failure check. -/
def endGetargs (cfg : Config) (x : Svcxprt π) : Svcxprt π :=
  let x := x.setProgress .getargs
  if cfg.waitMethodTcp = 1 then x.setBusy 1 else x.unlockMtready

/-- `svcudp_getargs` around its filter, which does not run once the worker has returned. -/
def svcudpGetargs (x : Svcxprt π) (priv : π) : Svcxprt π :=
  if x.mtxpProgress .returned then x
  else (({ x with xpPriv := priv }.setProgress .getargs).setBusy 1).unlockMtready

def svctcpFreeargs (cfg : Config) (x : Svcxprt π) (rv : Bool) (priv : π) : Res (Svcxprt π) :=
  if cfg.failfast && !rv then .error .svcDie
  else .ok ({ x with xpPriv := priv }.setProgress .freeargs)

def svcudpFreeargs (x : Svcxprt π) (priv : π) : Svcxprt π :=
  { x with xpPriv := priv }.setProgress .freeargs

def svctcpReply (x : Svcxprt π) (priv : π) : Svcxprt π :=
  { x with xpPriv := priv }.setProgress .reply

/-- `svcudp_reply`: the milestone is set when `xdr_replymsg` succeeded, sent or not. -/
def svcudpReply (x : Svcxprt π) (stat : Bool) (priv : π) : Svcxprt π :=
  let x := { x with xpPriv := priv }
  if stat then x.setProgress .reply else x

/-- `svc_return` on the transport; the mark that it makes for a clone is the registry's. -/
def svcReturn (cfg : Config) (x : Svcxprt π) : Res (Svcxprt π) :=
  match cfg.mtmode with
  | 0 => .ok ((x.setBusy 1).setBusy 0)
  | 1 | 2 =>
      if x.mtxpClone && x.mtxpParent == noParent then .error .svcDie
      else .ok (((x.setBusy 1).setProgress .returned).setBusy 0)
  | _ => .error .svcDie

theorem svcReturn_frame {cfg : Config} {x x' : Svcxprt π} (h : svcReturn cfg x = .ok x') :
    x'.xpPriv = x.xpPriv ∧ x'.xpRaddr = x.xpRaddr := by
  unfold svcReturn at h
  split at h
  · cases h
    exact ⟨rfl, rfl⟩
  · split at h
    · cases h
    · cases h
      exact ⟨rfl, rfl⟩
  · split at h
    · cases h
    · cases h
      exact ⟨rfl, rfl⟩
  · cases h

/-- What `svctcp_recv` does outside the stream. -/
def svctcpRecv (x : Svcxprt π) (priv : π) : Svcxprt π :=
  { x.clrProgress .doneRecv with xpPriv := priv }.setProgress .doneRecv

/-- What `request_dispatch` does with the worker's transport before it calls the service. -/
inductive Dispatch (π : Type) where
  | destroy
  | gcMark
  | call (x : Svcxprt π)

def requestDispatch (cfg : Config) (x : Svcxprt π) : Dispatch π :=
  if x.mtxpProgress .returned then
    if cfg.mtmode = 0 then .destroy
    else if x.isReusable then
      .call ({ x with mtxpProgress := .zero, mtxpBusy := 0 }.setProgress .dispatch)
    else .gcMark
  else .call (x.setProgress .dispatch)

/-- A transport is handed over as it is, or, after a return, with its progress and its busy flag cleared. -/
theorem requestDispatch_cases {cfg : Config} {x y : Svcxprt π} (h : requestDispatch cfg x = .call y) :
    (x.mtxpProgress .returned = true ∧
        y = { x with mtxpProgress := .zero, mtxpBusy := 0 }.setProgress .dispatch) ∨
      (x.mtxpProgress .returned = false ∧ y = x.setProgress .dispatch) := by
  unfold requestDispatch at h
  split at h
  · rename_i hret
    split at h
    · cases h
    · split at h
      · cases h
        exact Or.inl ⟨hret, rfl⟩
      · cases h
  · rename_i hret
    cases h
    exact Or.inr ⟨Bool.eq_false_iff.mpr hret, rfl⟩

theorem requestDispatch_priv {cfg : Config} {x y : Svcxprt π} (h : requestDispatch cfg x = .call y) :
    y.xpPriv = x.xpPriv := by
  obtain ⟨_, rfl⟩ | ⟨_, rfl⟩ := requestDispatch_cases h
  · rfl
  · rfl

/-- A transport handed to the service has no return of an earlier request on record. -/
theorem requestDispatch_call {cfg : Config} {x y : Svcxprt π} (h : requestDispatch cfg x = .call y) :
    y.mtxpProgress .returned = false ∧ y.mtxpMtready = x.mtxpMtready ∧
      y.mtxpParent = x.mtxpParent ∧ y.mtxpClone = x.mtxpClone ∧
      (y.mtxpProgress .getargs = true → x.mtxpProgress .getargs = true) := by
  obtain ⟨_, rfl⟩ | ⟨hret, rfl⟩ := requestDispatch_cases h
  · exact ⟨rfl, rfl, rfl, rfl, fun hget => by simp [Svcxprt.setProgress] at hget⟩
  · refine ⟨?_, rfl, rfl, rfl, fun hget => ?_⟩
    · simpa [Svcxprt.setProgress] using hret
    · simpa [Svcxprt.setProgress] using hget

end RpcMt
