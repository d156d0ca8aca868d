import RpcMt.UdpRequests
import RpcMt.XdrmemReads

/-! What a request on a UDP transport owes to the datagram it came in and what to the buffer's earlier
contents. A receive overwrites the start of the buffer, but the count of bytes left in the stream is
that of the whole buffer, so a filter that asks for more than the datagram holds is handed what some
earlier request has left there. -/

open RpcMt.Runs

namespace RpcMt

variable {V ρ : Type}

/-- What becomes of a request: the status of `svcudp_recv` and the message, and the status and the
arguments of `svc_getargs` when it came to that. -/
structure Served (V : Type) where
  rv : Bool
  msg : Option RpcMsg
  args : Option (Bool × Option V)
  deriving DecidableEq

namespace UdpState

/-- The state with `old` in the buffer of the transport at `a`. -/
def refill (st : UdpState) (a : Addr) (old : List Byte) : UdpState :=
  match st.xprts a with
  | none => st
  | some x => { st with bufs := Function.update st.bufs x.xpPriv.rpcBuffer (some old) }

/-- The transport that serves the request received at `a`: a clone, or the master itself where there
are no workers. -/
def workerXprt (st : UdpState) (a : Addr) : Option (Addr × BufId) → Res (Addr × UdpState)
  | none => .ok (a, st)
  | some (a2, buf) => do
      let st' ← st.svcudpXprtClone a a2 buf
      pure (a2, st')

/-- `svcudp_recv` at `a`, and `svc_getargs` on the worker's transport. -/
def serve (xdrCallmsg : Filter RpcMsg) (xdrArgs : Filter V) (a : Addr) (clone : Option (Addr × BufId))
    (o : RecvOutcome) (st : UdpState) : Res (Served V) := do
  let r ← st.svcudpRecv xdrCallmsg a o
  if r.rv then do
    let (b, st') ← r.st.workerXprt a clone
    let d ← st'.svcudpGetargs b xdrArgs
    pure ⟨true, r.msg, some (d.rv, d.val)⟩
  else pure ⟨false, r.msg, none⟩

/-- The transport at `a` once `svcudp_recv` has a message. -/
def heard (x : Svcxprt SvcudpData) (src : SockaddrIn) (addrlen : Nat) (msg : RpcMsg) : Svcxprt SvcudpData :=
  { x with xpRaddr := src, xpAddrlen := addrlen, xpPriv := { x.xpPriv with suXid := msg.rmXid } }

/-- Whether the lookup in the cache goes through; with a cache of size 0 it divides by zero. -/
def lookupStatus (st : UdpState) (a : Addr) (src : SockaddrIn) (addrlen : Nat) (msg : RpcMsg) : Res Unit := do
  let x ← st.deref a
  let _ ← st.recvCached (heard x src addrlen msg) msg
  pure ()

/-- Whether `svc_getargs` runs the filter of the arguments: the lookup goes through, and the worker has
not returned. -/
def reachesArgs (st : UdpState) (a : Addr) (src : SockaddrIn) (addrlen : Nat)
    (clone : Option (Addr × BufId)) (msg : RpcMsg) : Bool :=
  (st.lookupStatus a src addrlen msg).toOption.isSome &&
    (clone.isSome || match st.xprts a with
      | none => false
      | some x => !x.mtxpProgress .returned)

end UdpState

/-- The filters of a request, one after the other. -/
def requestProg (xdrCallmsg : ReadProg RpcMsg) (xdrArgs : ReadProg V) (reaches : RpcMsg → Bool) :
    ReadProg (RpcMsg × Option (Bool × V)) :=
  xdrCallmsg.bind fun ok msg =>
    if ok && reaches msg then xdrArgs.bind fun argsOk args => .ret true (msg, some (argsOk, args))
    else .ret ok (msg, none)

/-- The words in what `xdrmem_inline` has handed out. -/
def ixdrGet (bytes : List Byte) (i : Nat) : Nat := ntohl ((bytes.drop (4 * i)).take 4)

/-- `xdr_callmsg` on a message with empty credentials and verifier: eight words in line, and two for
the verifier. -/
def nullCallmsg : ReadProg RpcMsg :=
  .call (.inlineGet 32) fun r =>
    let msg : RpcMsg := ⟨ixdrGet r.bytes 0, ixdrGet r.bytes 3, ixdrGet r.bytes 4, ixdrGet r.bytes 5, ixdrGet r.bytes 6⟩
    if r.ok && ixdrGet r.bytes 1 == 0 && ixdrGet r.bytes 2 == 2 && ixdrGet r.bytes 7 == 0 then
      .call (.inlineGet 8) fun v => .ret (v.ok && ixdrGet v.bytes 1 == 0) msg
    else .ret false msg

/-- `xdr_int` as the filter of the arguments. -/
def intArgs : ReadProg Int := .call .getlong fun r => .ret r.ok r.word

namespace UdpState

variable {iosz : Nat} {st : UdpState} {log : List Store} {a : Addr} {x : Svcxprt SvcudpData}
  {old : List Byte}

/-! ### The receive of a datagram -/

theorem svcudpRecv_datagram (h : BufInv iosz st log) (hfits : iosz < uintRange) (hx : st.xprts a = some x)
    (hold : st.bufs x.xpPriv.rpcBuffer = some old) {got : List Byte} (hlen : 16 ≤ (got.take iosz).length)
    (f : Filter RpcMsg) (src : SockaddrIn) (addrlen : Nat) :
    st.svcudpRecv f a (.datagram src addrlen got) =
      (f.run ⟨.decode, received old iosz got, 0, iosz⟩ >>= fun r =>
        let bufs := Function.update st.bufs x.xpPriv.rpcBuffer (some r.2.2.bytes)
        let x' : Svcxprt SvcudpData := { x with xpRaddr := src, xpAddrlen := addrlen, xpPriv := leaveData x.xpPriv .decode r.2.2 }
        if r.1 = false then .ok ⟨false, none, none, { st with bufs := bufs }.store a
          ((x'.clrProgress .doneRecv).setProgress .doneRecv)⟩
        else recvCached { st with bufs := bufs } ((heard x' src addrlen r.2.1).clrProgress .doneRecv) r.2.1 >>=
          fun p => .ok ⟨true, some r.2.1, p.1, { st with bufs := bufs, cache := p.2 }.store a
            (((heard x' src addrlen r.2.1).clrProgress .doneRecv).setProgress .doneRecv)⟩) := by
  have hwf := h.wf a x hx
  have hbuf : Function.update st.bufs x.xpPriv.rpcBuffer (some (received old iosz got))
      (xdrmemCreate x.xpPriv.rpcBuffer iosz .decode).xPrivate.blk = some (received old iosz got) :=
    Function.update_self ..
  rw [svcudpRecv, deref_of_some hx]
  change (recvInto st (x.clrProgress .doneRecv) (.datagram src addrlen got) >>= _) = _
  rw [recvInto, readBuf_of_some (show st.bufs (x.clrProgress .doneRecv).xpPriv.rpcBuffer = some old from hold)]
  change (if (got.take x.xpPriv.suIosz).length < 4 * 4 then _ else _) = _
  rw [hwf.iosz_eq, if_neg (by omega)]
  change (xdrmemSetpos { x.xpPriv.suXdrs with xOp := .decode } 0 >>= _) = _
  rw [setpos_start hwf hfits]
  change (runFilter f (xdrmemCreate x.xpPriv.rpcBuffer iosz .decode)
    (Function.update st.bufs x.xpPriv.rpcBuffer (some (received old x.xpPriv.suIosz got))) >>= _) = _
  rw [hwf.iosz_eq, runFilter_eq f hbuf]
  change ((f.run ⟨.decode, received old iosz got, 0, iosz⟩ >>= _) >>= _) = _
  cases f.run ⟨.decode, received old iosz got, 0, iosz⟩ with
  | error e => rfl
  | ok r =>
      obtain ⟨ok, msg, w⟩ := r
      let bufs := Function.update (Function.update st.bufs x.xpPriv.rpcBuffer (some (received old iosz got)))
        x.xpPriv.rpcBuffer (some w.bytes)
      have hbufs : bufs = Function.update st.bufs x.xpPriv.rpcBuffer (some w.bytes) := Function.update_idem ..
      let x' : Svcxprt SvcudpData :=
        { x with xpRaddr := src, xpAddrlen := addrlen, xpPriv := leaveData x.xpPriv .decode w }
      cases ok with
      | false =>
          show (Except.ok ⟨false, none, none, UdpState.store { st with bufs := bufs } a
            ((x'.clrProgress .doneRecv).setProgress .doneRecv)⟩ : Res Received) = _
          rw [hbufs]
          rfl
      | true =>
          show (recvCached { st with bufs := bufs } ((heard x' src addrlen msg).clrProgress .doneRecv) msg >>=
            fun p => (Except.ok ⟨true, some msg, p.1, UdpState.store { st with bufs := bufs, cache := p.2 } a
              (((heard x' src addrlen msg).clrProgress .doneRecv).setProgress .doneRecv)⟩ : Res Received)) = _
          rw [hbufs]
          rfl

/-- The lookup reads of the transport its xid and address, and of the buffers those of the entries. -/
theorem recvCached_status {bufs : Bufs} (hbufs : ∀ b, (bufs b).isSome = (st.bufs b).isSome)
    {y y' : Svcxprt SvcudpData} (hcache : y'.xpPriv.suCache = y.xpPriv.suCache)
    (hxid : y'.xpPriv.suXid = y.xpPriv.suXid) (hraddr : y'.xpRaddr = y.xpRaddr) (msg : RpcMsg) :
    (recvCached { st with bufs := bufs } y' msg).map (fun _ => ()) =
      (st.recvCached y msg).map (fun _ => ()) := by
  unfold recvCached
  rw [hcache, hxid, hraddr]
  split
  · cases hc : st.cache with
    | none => rfl
    | some c =>
        dsimp only
        cases c.cacheGet y.xpPriv.suXid msg y.xpRaddr with
        | error e => rfl
        | ok p =>
            obtain ⟨hit, c'⟩ := p
            cases hit with
            | none => rfl
            | some ent =>
                have hent := hbufs ent.cacheReply
                show ((readBuf bufs ent.cacheReply >>= _).map _) = ((readBuf st.bufs ent.cacheReply >>= _).map _)
                unfold readBuf
                cases hb : st.bufs ent.cacheReply with
                | none =>
                    rw [hb] at hent
                    rw [Option.isSome_eq_false_iff.mp hent |> Option.isNone_iff_eq_none.mp]
                    rfl
                | some bytes =>
                    rw [hb] at hent
                    obtain ⟨bytes', hbytes'⟩ := Option.isSome_iff_exists.mp hent
                    rw [hbytes']
                    rfl
  · rfl

theorem isSome_update {bufs : Bufs} {b : BufId} {bytes bytes' : List Byte} (h : bufs b = some bytes) (b' : BufId) :
    (Function.update bufs b (some bytes') b').isSome = (bufs b').isSome := by
  by_cases hb : b' = b
  · rw [hb, Function.update_self, h]
    rfl
  · rw [Function.update_of_ne hb]

/-- The worker's transport sees the arguments where the master's stream stands. -/
theorem worker_getargs (h : BufInv iosz st log) (hx : st.xprts a = some x)
    (hbytes : st.bufs x.xpPriv.rpcBuffer = some old) {clone : Option (Addr × BufId)}
    (hfree : ∀ a2 buf, clone = some (a2, buf) → st.bufs buf = none) (f : Filter V) :
    (st.workerXprt a clone >>= fun p => p.2.svcudpGetargs p.1 f >>= fun d => .ok (d.rv, d.val)) =
      if (clone.isSome || !x.mtxpProgress .returned) = true then
        (f.run (x.xpPriv.suXdrs.view old) >>= fun r => .ok (r.1, some r.2.1))
      else .ok (false, none) := by
  cases clone with
  | none =>
      show (st.svcudpGetargs a f >>= _) = _
      cases hret : x.mtxpProgress .returned with
      | true =>
          rw [svcudpGetargs_returned hx hret]
          rfl
      | false =>
          rw [svcudpGetargs_eq h hx hbytes hret]
          cases f.run (x.xpPriv.suXdrs.view old) with
          | error e => rfl
          | ok r => rfl
  | some p =>
      obtain ⟨a2, buf⟩ := p
      have hclone : BufInv iosz { st.store a2 (x.cloneXprt (cloneData x.xpPriv buf)) with
          bufs := Function.update st.bufs buf (some old) } log := h.clone hx hbytes (hfree a2 buf rfl)
      show ((st.svcudpXprtClone a a2 buf >>= fun st' => .ok (a2, st')) >>= _) = _
      rw [svcudpXprtClone_eq h hx hbytes]
      show (UdpState.svcudpGetargs _ a2 f >>= _) = _
      have hview : (x.cloneXprt (cloneData x.xpPriv buf)).xpPriv.suXdrs.view old = x.xpPriv.suXdrs.view old := by
        show View.mk _ old (0 + x.xpPriv.suXdrs.xPrivate.off) _ = _
        rw [Nat.zero_add]
        rfl
      rw [svcudpGetargs_eq hclone (Function.update_self ..) (Function.update_self ..) rfl, hview]
      cases f.run (x.xpPriv.suXdrs.view old) with
      | error e => rfl
      | ok r => rfl

/-! ### A request depends on the buffer through its filters -/

variable {failfast : Bool} {xdrCallmsg : ReadProg RpcMsg} {xdrArgs : ReadProg V} {src : SockaddrIn}
  {addrlen : Nat} {got : List Byte} {clone : Option (Addr × BufId)}

/-- What the filters of a request come to, as `svcudp_recv` and `svc_getargs` report it. -/
def reported (st : UdpState) (a : Addr) (src : SockaddrIn) (addrlen : Nat)
    (r : Bool × (RpcMsg × Option (Bool × V)) × Nat × Nat) : Res (Served V) :=
  if r.1 = false then .ok ⟨false, none, none⟩
  else do
    let _ ← st.lookupStatus a src addrlen r.2.1.1
    pure ⟨true, some r.2.1.1, some (match r.2.1.2 with
      | none => (false, none)
      | some (ok, args) => (ok, some args))⟩

theorem reported_true (msg : RpcMsg) (args : Option (Bool × V)) (p : Nat × Nat) :
    st.reported a src addrlen (true, (msg, args), p) = (st.lookupStatus a src addrlen msg >>= fun _ =>
      .ok ⟨true, some msg, some (match args with
        | none => (false, none)
        | some (ok, args) => (ok, some args))⟩) := rfl

theorem lookupStatus_eq (hx : st.xprts a = some x) (msg : RpcMsg) :
    st.lookupStatus a src addrlen msg = (st.recvCached (heard x src addrlen msg) msg).map fun _ => () := by
  rw [lookupStatus, deref_of_some hx]
  show (st.recvCached (heard x src addrlen msg) msg >>= _) = _
  cases st.recvCached (heard x src addrlen msg) msg with
  | error e => rfl
  | ok p => rfl

theorem getargs_reported {p : Res (Addr × UdpState)} {f : Filter V} {msg : RpcMsg} :
    (p >>= fun q => q.2.svcudpGetargs q.1 f >>= fun d => .ok (⟨true, some msg, some (d.rv, d.val)⟩ : Served V)) =
      ((p >>= fun q => q.2.svcudpGetargs q.1 f >>= fun d => .ok (d.rv, d.val)) >>= fun q =>
        .ok ⟨true, some msg, some q⟩) := by
  cases p with
  | error e => rfl
  | ok q =>
      show (q.2.svcudpGetargs q.1 f >>= _) = ((q.2.svcudpGetargs q.1 f >>= _) >>= _)
      cases q.2.svcudpGetargs q.1 f with
      | error e => rfl
      | ok d => rfl

/-- A message has been decoded: what is left to do goes from where its filter has left the stream. -/
theorem serve_message (h : BufInv iosz st log) (hfits : iosz < uintRange) (hx : st.xprts a = some x)
    (hold : st.bufs x.xpPriv.rpcBuffer = some old) (hlen : 16 ≤ (got.take iosz).length)
    (hfree : ∀ a2 buf, clone = some (a2, buf) → st.bufs buf = none) {f : Filter RpcMsg} {g : Filter V}
    {msg : RpcMsg} {w : View} (hrun : f.run ⟨.decode, received old iosz got, 0, iosz⟩ = .ok (true, msg, w)) :
    st.serve f g a clone (.datagram src addrlen got) = (st.lookupStatus a src addrlen msg >>= fun _ =>
      (if (clone.isSome || !x.mtxpProgress .returned) = true then
        (g.run w >>= fun r => .ok (r.1, some r.2.1)) else .ok (false, none)) >>= fun q =>
          .ok ⟨true, some msg, some q⟩) := by
  have hrecv := svcudpRecv_datagram h hfits hx hold hlen f src addrlen
  rw [hrun] at hrecv
  let x' : Svcxprt SvcudpData :=
    { x with xpRaddr := src, xpAddrlen := addrlen, xpPriv := leaveData x.xpPriv .decode w }
  let y := (heard x' src addrlen msg).clrProgress .doneRecv
  let bufs := Function.update st.bufs x.xpPriv.rpcBuffer (some w.bytes)
  have hstatus : st.lookupStatus a src addrlen msg =
      (recvCached { st with bufs := bufs } y msg).map (fun _ => ()) := by
    rw [lookupStatus_eq hx]
    exact (recvCached_status (isSome_update hold) rfl rfl rfl msg).symm
  have hrecv' : st.svcudpRecv f a (.datagram src addrlen got) =
      (recvCached { st with bufs := bufs } y msg >>= fun p => .ok ⟨true, some msg, p.1,
        UdpState.store { st with bufs := bufs, cache := p.2 } a (y.setProgress .doneRecv)⟩) := hrecv
  rw [hstatus, serve, hrecv']
  cases hcached : recvCached { st with bufs := bufs } y msg with
  | error e => rfl
  | ok p =>
      rw [hcached] at hrecv'
      let st' := UdpState.store { st with bufs := bufs, cache := p.2 } a (y.setProgress .doneRecv)
      have hinv : BufInv iosz st' log := svcudpRecv_bufInv h hfits hx hrecv'
      have hbytes : st'.bufs (y.setProgress .doneRecv).xpPriv.rpcBuffer = some w.bytes := Function.update_self ..
      have hfree' : ∀ a2 buf, clone = some (a2, buf) → st'.bufs buf = none := by
        intro a2 buf hclone
        have hnone := hfree a2 buf hclone
        have hne : buf ≠ x.xpPriv.rpcBuffer := by
          intro heq
          rw [heq, hold] at hnone
          cases hnone
        exact (Function.update_of_ne hne _ _).trans hnone
      have hview : (y.setProgress .doneRecv).xpPriv.suXdrs.view w.bytes = w := by
        have hop : w.xOp = .decode := (f.frame hrun).1
        show View.mk .decode w.bytes w.pos w.handy = w
        rw [← hop]
      have hworker := worker_getargs hinv (Function.update_self ..) hbytes hfree' g
      rw [hview] at hworker
      show (st'.workerXprt a clone >>= fun q => q.2.svcudpGetargs q.1 g >>= fun d =>
        .ok (⟨true, some msg, some (d.rv, d.val)⟩ : Served V)) = _
      rw [getargs_reported, hworker]
      rfl

theorem serve_eq (h : BufInv iosz st log) (hfits : iosz < uintRange) (hx : st.xprts a = some x)
    (hold : st.bufs x.xpPriv.rpcBuffer = some old) (hlen : 16 ≤ (got.take iosz).length)
    (hfree : ∀ a2 buf, clone = some (a2, buf) → st.bufs buf = none) :
    st.serve (xdrCallmsg.prog.filter failfast) (xdrArgs.prog.filter failfast) a clone
        (.datagram src addrlen got) =
      ((requestProg xdrCallmsg xdrArgs (st.reachesArgs a src addrlen clone)).result failfast
        ⟨.decode, received old iosz got, 0, iosz⟩ >>= st.reported a src addrlen) := by
  rw [ReadProg.result, requestProg, ReadProg.run_bind]
  cases hrun : xdrCallmsg.prog.run failfast ⟨.decode, received old iosz got, 0, iosz⟩ with
  | error e =>
      have hf : (xdrCallmsg.prog.filter failfast).run ⟨.decode, received old iosz got, 0, iosz⟩ = .error e := hrun
      rw [serve, svcudpRecv_datagram h hfits hx hold hlen, hf]
      rfl
  | ok r =>
      obtain ⟨ok, msg, w⟩ := r
      have hf : (xdrCallmsg.prog.filter failfast).run ⟨.decode, received old iosz got, 0, iosz⟩ =
        .ok (ok, msg, w) := hrun
      cases ok with
      | false =>
          rw [serve, svcudpRecv_datagram h hfits hx hold hlen, hf]
          rfl
      | true =>
          rw [serve_message h hfits hx hold hlen hfree hf]
          have hreaches : st.reachesArgs a src addrlen clone msg =
              ((st.lookupStatus a src addrlen msg).toOption.isSome &&
                (clone.isSome || !x.mtxpProgress .returned)) := by
            rw [reachesArgs, hx]
          dsimp only [bind, Except.bind]
          rw [Bool.true_and, hreaches]
          cases hstatus : st.lookupStatus a src addrlen msg with
          | error e =>
              show _ = reported st a src addrlen (true, (msg, none), _)
              rw [reported_true, hstatus]
              rfl
          | ok u =>
              cases hgo : (clone.isSome || !x.mtxpProgress .returned) with
              | false =>
                  show _ = reported st a src addrlen (true, (msg, none), _)
                  rw [reported_true, hstatus]
                  rfl
              | true =>
                  show _ = ((xdrArgs.bind fun argsOk args => .ret true (msg, some (argsOk, args))).prog.run
                    failfast w).map _ >>= _
                  rw [ReadProg.run_bind]
                  show ((xdrArgs.prog.run failfast w >>= _) >>= _) = _
                  cases xdrArgs.prog.run failfast w with
                  | error e => rfl
                  | ok q =>
                      show _ = reported st a src addrlen (true, (msg, some (q.1, q.2.1)), _)
                      rw [reported_true, hstatus]
                      rfl

/-! ### What the leftovers can do -/

/-- The earlier contents of the buffer make no difference to the request in the datagram `got`: not to
the statuses, the message and the arguments, and not to what the filters are handed. -/
def LeftoversHidden (st : UdpState) (failfast : Bool) (xdrCallmsg : ReadProg RpcMsg) (xdrArgs : ReadProg V)
    (a : Addr) (clone : Option (Addr × BufId)) (iosz : Nat) (src : SockaddrIn) (addrlen : Nat)
    (got : List Byte) : Prop :=
  ∀ old₁ old₂ : List Byte, old₁.length = iosz → old₂.length = iosz →
    (st.refill a old₁).serve (xdrCallmsg.prog.filter failfast) (xdrArgs.prog.filter failfast) a clone
        (.datagram src addrlen got) =
      (st.refill a old₂).serve (xdrCallmsg.prog.filter failfast) (xdrArgs.prog.filter failfast) a clone
        (.datagram src addrlen got) ∧
    (requestProg xdrCallmsg xdrArgs (st.reachesArgs a src addrlen clone)).handedOut failfast
        ⟨.decode, received old₁ iosz got, 0, iosz⟩ =
      (requestProg xdrCallmsg xdrArgs (st.reachesArgs a src addrlen clone)).handedOut failfast
        ⟨.decode, received old₂ iosz got, 0, iosz⟩

/-- The filters of the request find in the datagram all they ask for: each of their calls lies within
it, or asks for more than the whole buffer has left and is refused. -/
def InDatagram (st : UdpState) (failfast : Bool) (xdrCallmsg : ReadProg RpcMsg) (xdrArgs : ReadProg V)
    (a : Addr) (clone : Option (Addr × BufId)) (iosz : Nat) (src : SockaddrIn) (addrlen : Nat)
    (got : List Byte) : Prop :=
  ∀ x old, st.xprts a = some x → st.bufs x.xpPriv.rpcBuffer = some old →
    (requestProg xdrCallmsg xdrArgs (st.reachesArgs a src addrlen clone)).Within failfast
      (got.take iosz).length ⟨.decode, received old iosz got, 0, iosz⟩

theorem BufInv.refill (h : BufInv iosz st log) (hx : st.xprts a = some x) {old' : List Byte}
    (hlen : old'.length = iosz) :
    BufInv iosz (st.refill a old') log ∧ (st.refill a old').xprts a = some x ∧
      (st.refill a old').bufs x.xpPriv.rpcBuffer = some old' := by
  have heq : st.refill a old' = { st with bufs := Function.update st.bufs x.xpPriv.rpcBuffer (some old') } := by
    rw [UdpState.refill, hx]
  have hown := h.own hx (h.wf a x hx) rfl rfl hlen
  have hsame : Function.update st.xprts a (some x) = st.xprts := by
    rw [← hx, Function.update_eq_self]
  rw [UdpState.store] at hown
  dsimp only at hown
  rw [hsame] at hown
  rw [heq]
  exact ⟨hown, hx, Function.update_self ..⟩

theorem refill_xprts (old' : List Byte) : (st.refill a old').xprts = st.xprts := by
  unfold UdpState.refill
  split
  · rfl
  · rfl

theorem refill_lookupStatus (hx : st.xprts a = some x) (hold : st.bufs x.xpPriv.rpcBuffer = some old)
    (old' : List Byte) (msg : RpcMsg) :
    (st.refill a old').lookupStatus a src addrlen msg = st.lookupStatus a src addrlen msg := by
  have hx' : (st.refill a old').xprts a = some x := by
    rw [refill_xprts]
    exact hx
  rw [lookupStatus_eq hx, lookupStatus_eq hx', UdpState.refill, hx]
  exact recvCached_status (isSome_update hold) rfl rfl rfl msg

/-- What `serve` does with the buffer full of `old'`. -/
theorem serve_refill (h : BufInv iosz st log) (hfits : iosz < uintRange) (hx : st.xprts a = some x)
    (hold : st.bufs x.xpPriv.rpcBuffer = some old) (hlen : 16 ≤ (got.take iosz).length)
    (hfree : ∀ a2 buf, clone = some (a2, buf) → st.bufs buf = none) {old' : List Byte}
    (hlen' : old'.length = iosz) :
    (st.refill a old').serve (xdrCallmsg.prog.filter failfast) (xdrArgs.prog.filter failfast) a clone
        (.datagram src addrlen got) =
      ((requestProg xdrCallmsg xdrArgs (st.reachesArgs a src addrlen clone)).result failfast
        ⟨.decode, received old' iosz got, 0, iosz⟩ >>= st.reported a src addrlen) := by
  obtain ⟨hinv, hx', hold'⟩ := h.refill hx hlen'
  have hfree' : ∀ a2 buf, clone = some (a2, buf) → (st.refill a old').bufs buf = none := by
    intro a2 buf hclone
    have hnone := hfree a2 buf hclone
    rw [UdpState.refill, hx]
    have hne : buf ≠ x.xpPriv.rpcBuffer := by
      intro heq
      rw [heq, hold] at hnone
      cases hnone
    exact (Function.update_of_ne hne _ _).trans hnone
  have hreaches : (st.refill a old').reachesArgs a src addrlen clone = st.reachesArgs a src addrlen clone := by
    funext msg
    rw [reachesArgs, reachesArgs, refill_lookupStatus hx hold, refill_xprts]
  have hreported : (st.refill a old').reported (V := V) a src addrlen = st.reported a src addrlen := by
    funext r
    rw [reported, reported, refill_lookupStatus hx hold]
  rw [serve_eq hinv hfits hx' hold' hlen hfree', hreaches, hreported]

theorem received_append {d L : List Byte} (hd : d = got.take iosz) : received (d ++ L) iosz got = d ++ L := by
  rw [received, ← hd, List.drop_left]

theorem leftoversHidden_iff (h : BufInv iosz st log) (hfits : iosz < uintRange) (hx : st.xprts a = some x)
    (hlen : 16 ≤ (got.take iosz).length) (hfree : ∀ a2 buf, clone = some (a2, buf) → st.bufs buf = none) :
    st.LeftoversHidden failfast xdrCallmsg xdrArgs a clone iosz src addrlen got ↔
      st.InDatagram failfast xdrCallmsg xdrArgs a clone iosz src addrlen got := by
  obtain ⟨old, hold, hold_len⟩ := h.buf a x hx
  have hle : (got.take iosz).length ≤ iosz := List.length_take_le ..
  have hrest : ∀ o : List Byte, o.length = iosz →
      (o.drop (got.take iosz).length).length = iosz - (got.take iosz).length := by
    intro o ho
    rw [List.length_drop, ho]
  have hroom : 0 + iosz ≤ (got.take iosz).length + (iosz - (got.take iosz).length) := by omega
  have hin : st.InDatagram failfast xdrCallmsg xdrArgs a clone iosz src addrlen got ↔
      (requestProg xdrCallmsg xdrArgs (st.reachesArgs a src addrlen clone)).Within failfast
        (got.take iosz).length ⟨.decode, received old iosz got, 0, iosz⟩ := by
    refine ⟨fun hall => hall x old hx hold, fun hw y old' hy hold' => ?_⟩
    cases hx.symm.trans hy
    cases hold.symm.trans hold'
    exact hw
  rw [hin]
  constructor
  · intro hhidden
    have hfull : ∀ L : List Byte, L.length = iosz - (got.take iosz).length →
        (got.take iosz ++ L).length = iosz := by
      intro L hL
      rw [List.length_append, hL]
      omega
    refine ReadProg.within_of_alike (fun L₁ L₂ h₁ h₂ => ?_) hroom (hrest old hold_len)
    obtain ⟨_, hhanded⟩ := hhidden _ _ (hfull L₁ h₁) (hfull L₂ h₂)
    rw [received_append rfl, received_append rfl] at hhanded
    exact hhanded
  · intro hw old₁ old₂ h₁ h₂
    rw [serve_refill h hfits hx hold hlen hfree h₁, serve_refill h hfits hx hold hlen hfree h₂]
    rw [← hrest old hold_len] at hroom
    obtain ⟨hresult, hhanded⟩ := ReadProg.alike_append hw hroom
      ((hrest old₁ h₁).trans (hrest old hold_len).symm) ((hrest old₂ h₂).trans (hrest old hold_len).symm)
    exact ⟨congrArg (· >>= st.reported a src addrlen) hresult, hhanded⟩

/-- In every state of every run: a request that comes in a datagram of 16 bytes or more is served the
same whatever earlier requests have left in the buffer exactly when its filters find in the datagram
all they ask for. `malloc` gives the clone a buffer that is not in use. -/
theorem leftovers_hidden_iff {k : Codec ρ} {cfg : Config} {master : Addr}
    {sock port id sendsz recvsz size : Nat} {pktinfo : Bool} {buf : BufId} {garbage : Nat → Byte}
    {suCache ucOk entriesOk fifoOk : Bool} {fields : Caller} {s : UdpServer V ρ}
    (hs : Reached (UdpServer.step k cfg master) anyStep
      (UdpServer.start master sock port id sendsz recvsz pktinfo buf garbage
        (svcudpEnablecache suCache size ucOk entriesOk fifoOk fields)) s)
    (failfast : Bool) (xdrCallmsg : ReadProg RpcMsg) (xdrArgs : ReadProg V) (src : SockaddrIn) (addrlen : Nat)
    (got : List Byte) (hlen : 16 ≤ (got.take (UdpServer.svcudpBufsize sendsz recvsz)).length)
    (clone : Option (Addr × BufId)) (hfree : ∀ a2 buf, clone = some (a2, buf) → s.st.bufs buf = none) :
    s.st.LeftoversHidden failfast xdrCallmsg xdrArgs master clone (UdpServer.svcudpBufsize sendsz recvsz) src
        addrlen got ↔
      s.st.InDatagram failfast xdrCallmsg xdrArgs master clone (UdpServer.svcudpBufsize sendsz recvsz) src
        addrlen got := by
  have hinv := UdpServer.udpInv_reached (UdpCache.cacheInv_enabled rfl) hs
  obtain ⟨x, hx, _⟩ := hinv.live
  exact leftoversHidden_iff hinv.bufs hinv.fits hx hlen hfree

/-- A master at 0 with a buffer of 48 bytes. -/
def idleServer : UdpServer Int (List Nat) := UdpServer.start 0 3 111 0 48 48 false 10 (fun _ => 0) none

/-- A call with its argument, served by a clone. -/
theorem leftovers_hidden_whole :
    idleServer.st.LeftoversHidden true nullCallmsg intArgs 0 (some (1, 11)) 48 (UdpServer.someClient 1000) 16
      (nullCall 7 200 1 5 [42]) := by
  have hstart : Reached (UdpServer.step nullCodec UdpServer.unwaitedConfig 0) anyStep
      (UdpServer.start 0 3 111 0 48 48 false 10 (fun _ => 0)
        (svcudpEnablecache true 0 true true true ⟨0, 0, 0, ⟨0, 0, 0, 0⟩⟩)) idleServer := .start
  have hfree : ∀ a2 buf, some (1, 11) = some (a2, buf) → idleServer.st.bufs buf = none := by
    intro a2 buf h
    cases h
    rfl
  refine (leftovers_hidden_iff hstart true nullCallmsg intArgs (UdpServer.someClient 1000) 16
    (nullCall 7 200 1 5 [42]) (by decide) (some (1, 11)) hfree).mpr ?_
  intro x old hx hold
  cases hx
  cases hold
  decide +kernel

/-- The same call without its argument: the argument is taken from what is left in the buffer. -/
theorem leftovers_hidden_fails :
    ¬idleServer.st.LeftoversHidden true nullCallmsg intArgs 0 (some (1, 11)) 48 (UdpServer.someClient 1000) 16
      (nullCall 7 200 1 5 []) := by
  intro h
  obtain ⟨hserve, _⟩ := h (List.replicate 48 0) (List.replicate 48 1) rfl rfl
  exact absurd (congrArg Except.toOption hserve) (by decide +kernel)

end UdpState

end RpcMt
