import RpcMt.DispatchWait
import RpcMt.RecBuffered
import RpcMt.TcpWrites

/-! The calls that come in over a connection when there are no threads. `svc_run` finds something on the socket,
`svc_getreq_common_rv` receives call after call as long as more of them are in the buffer, and each service gets its
arguments, replies and returns; `request_dispatch` waits for that before the next. A call whose credential
`_authenticate` does not accept gets its reply and ends the program. The header of a call, the services and their
filters are parameters; `svc_freeargs` and what `svc_poll` does to a transport that has returned are left out. -/

open RpcMt.XdrRec RpcMt.RecMarking RpcMt.Tcp

namespace RpcMt.TcpCalls

/-- The two halves of the connection's stream, and what has been allocated in decoding. -/
abbrev Connection := Decoding (OutStream × Stream Conn)

/-- A reply that waits for the xid that `svctcp_reply` puts into it. -/
abbrev Reply := Nat → Item

/-- What comes of a message: `svcerr_auth`, one of the other errors that the dispatcher replies with itself, or the
call of a service. That gets its arguments by a filter and may reply to what it has got. -/
inductive Handling where
  | reject (msg : Reply)
  | refuse (msg : Reply)
  | dispatch (xdrArgs : Ty) (msg : Bool → Obj → Option Reply)

/-- The header of a call, and what is done with the message that it is decoded to. -/
structure Services where
  xdrCallmsg : Ty
  rmXid : Obj → Nat
  handle : Obj → Handling

/-- `readtcp` for who holds `poll_lock` already. -/
def locked : Readit Conn := fun _ _ => none

def xprt (c : Connection) : Svcxprt TcpConn := c.stream.2.handle.1

def onXprt (f : Svcxprt TcpConn → Svcxprt TcpConn) (c : Connection) : Connection :=
  { c with stream := (c.stream.1, Tcp.onXprt f c.stream.2) }

section Calls

variable (cfg : Config) (services : Services) (env : XdrEnv) (results : Nat → WriteResult)

/-- `writetcp` on the connection. -/
abbrev writeit : Writeit := tcpWriteit results ⟨0, [], .idle⟩

/-- The connection's writes so far. -/
abbrev wire (out : OutStream) : Outgoing := afterWrites results ⟨0, [], .idle⟩ out.written

def svctcpRecv (c : Connection) : Res (Option Obj × Connection) := do
  let c := onXprt (·.clrProgress .doneRecv) c
  let (_, x) ← onIn c.stream.1 (xdrrecSkiprecord readtcp (turns c.stream.2) c.stream.2)
  let (ok, msg, c) ← services.xdrCallmsg.decode (xdrrecOps (writeit results) readtcp) env { c with stream := x }
  if ok then
    let c := onXprt (fun x => { x with xpPriv := { x.xpPriv with xId := services.rmXid msg } }) c
    pure (some msg, onXprt (·.setProgress .doneRecv) c)
  else
    let c := onXprt (fun x => { x with xpPriv := { x.xpPriv with strmStat := .died } }) c
    if cfg.failfast then .error .svcDie else pure (none, onXprt (·.setProgress .doneRecv) c)

def svctcpGetargs (xdrArgs : Ty) (c : Connection) : Res (Bool × Obj × Connection) := do
  let (rv, args, c) ← xdrArgs.decode (xdrrecOps (writeit results) locked) env (onXprt (·.setBusy 1) c)
  let c := onXprt (·.setBusy 0) c
  if cfg.failfast && !rv then .error .svcDie else pure (rv, args, onXprt (endGetargs cfg) c)

/-- `svctcp_reply`. The status of `xdrrec_endofrecord` is dropped, and a write that fails shows in `strm_stat`. -/
def svctcpReply (msg : Reply) (c : Connection) : Res (Bool × Connection) := do
  let item := msg (xprt c).xpPriv.xId
  let (stat, x) ← item.func.encode (xdrrecOps (writeit results) locked) env item.data c.stream
  let (_, out) ← xdrrecEndofrecord (writeit results) true x.1
  let died := (wire results out).strmStat == .died
  pure (stat, onXprt (fun x => (Tcp.svctcpReply x died).2) { c with stream := (out, x.2) })

/-- `request_dispatch` with the service, which has returned when the wait for it begins. The transport is not looked
at again once it is destroyed. -/
def requestDispatch (xdrArgs : Ty) (msg : Bool → Obj → Option Reply) (c : Connection) : Res Connection :=
  match RpcMt.requestDispatch cfg (xprt c) with
  | .call x => do
      let (rv, args, c) ← svctcpGetargs cfg env results xdrArgs (onXprt (fun _ => x) c)
      let c ← match msg rv args with
        | some msg => (svctcpReply env results msg c).map Prod.snd
        | none => pure c
      let x ← svcReturn cfg (xprt c)
      let x ← Wait.finishWait cfg ⟨.first cfg, x, [.ret]⟩
      pure (onXprt (fun _ => x) c)
  | _ => .error .badPointer

/-- `request_lookup`, with `rv` of `struct req`. -/
def requestLookup (msg : Obj) (c : Connection) : Res (Int × Connection) :=
  match services.handle msg with
  | .reject msg => (svctcpReply env results msg c).map fun r => (-1, r.2)
  | .refuse msg => (svctcpReply env results msg c).map fun r => (0, r.2)
  | .dispatch xdrArgs msg => (requestDispatch cfg env results xdrArgs msg c).map fun c => (0, c)

def svctcpStat (c : Connection) : Res (XprtStat × Connection) := do
  let (xrv, x) ← onIn c.stream.1 (Tcp.svctcpStat c.stream.2)
  pure (xrv, { c with stream := x })

def getSingleRequest (c : Connection) : Res (Int × XprtStat × Connection) := do
  let (msg, c) ← svctcpRecv cfg services env results c
  let (rv, c) ← match msg with
    | some msg => requestLookup cfg services env results msg c
    | none => pure (0, c)
  let (xrv, c) ← svctcpStat c
  pure (rv, xrv, onXprt (fun x => { x with mtxpStat := xrv }) c)

/-- The loop of `svc_getreq_common_rv`. -/
def getRequests : Nat → Connection → Res (Int × XprtStat × Connection)
  | 0, _ => .error .noReturn
  | turns + 1, c => do
      let (rv, xrv, c) ← getSingleRequest cfg services env results c
      if rv ≠ 0 then pure (rv, xrv, c)
      else if xrv = .morereqs then getRequests turns c
      else pure (0, xrv, c)

def svcGetreqCommon (turns : Nat) (c : Connection) : Res (XprtStat × Connection) := do
  let (err, xrv, c) ← getRequests cfg services env results turns c
  if err ≠ 0 then .error .svcDie else pure (xrv, c)

/-- `svc_run`, until nothing more is on the socket or the connection is destroyed. -/
def svcRun : Nat → Connection → Res Connection
  | 0, _ => .error .noReturn
  | turns + 1, c =>
      if c.stream.2.handle.2.incoming = [] then pure c
      else do
        let (xrv, c) ← svcGetreqCommon cfg services env results (turns + 1) c
        if xrv = .died then pure c else svcRun turns c

end Calls

/-! ### Between calls and within one -/

/-- What a step does to the transport besides the stream and the xid. -/
structure Idle (x y : Svcxprt TcpConn) : Prop where
  stat : y.xpPriv.strmStat = x.xpPriv.strmStat
  returned : y.mtxpProgress .returned = x.mtxpProgress .returned

/-- The connection is up, these readings are still to come in, and the items have been sent. -/
structure Live (results : Nat → WriteResult) (size : Nat) (incoming : List Reading) (sent : List Item)
    (c : Connection) : Prop where
  inSize : c.stream.2.strm.inSize = size
  incoming : c.stream.2.handle.2.incoming = incoming
  alive : (xprt c).xpPriv.strmStat ≠ .died
  returned : (xprt c).mtxpProgress .returned = false
  inv : Inv (writeit results) c.stream.1 (sent.map Item.wire) []
  answered : Answered (writeit results) c.stream.1.written
  flushed : c.stream.1.fragHeader = 0
  sound : ∀ item ∈ sent, item.Sound

/-- These bytes of a record are left in the buffer, and the records `later` behind them. -/
def Within (later : List (List Fragment)) (bs : List Byte) (c : Connection) : Prop :=
  ∃ r cur frags, Buffered c.stream.2 r ∧ Reader.Amid r cur frags later ∧ Reader.Passable frags ∧
    cur ++ payload frags = bs

/-- A record has been read, and the records `later` are in the buffer. -/
def Between (later : List (List Fragment)) (c : Connection) : Prop :=
  ∃ r, Buffered c.stream.2 r ∧ Reader.Amid r [] [] later

section Steps

variable {cfg : Config} {services : Services} {env : XdrEnv} {results : Nat → WriteResult} {size : Nat}
  {incoming : List Reading} {sent : List Item} {later : List (List Fragment)} {bs : List Byte} {c : Connection}

theorem Live.through {f : Svcxprt TcpConn → Svcxprt TcpConn} (hf : ∀ x, Idle x (f x))
    (h : Live results size incoming sent c) : Live results size incoming sent (onXprt f c) :=
  ⟨h.inSize, h.incoming, fun hdied => h.alive ((hf _).stat.symm.trans hdied), (hf _).returned.trans h.returned, h.inv,
    h.answered, h.flushed, h.sound⟩

/-- After calls that have kept the handle of the incoming half and written nothing. -/
theorem Live.kept {d : Connection} (h : Live results size incoming sent c) (hout : d.stream.1 = c.stream.1)
    (hkept : Kept c.stream.2 d.stream.2) : Live results size incoming sent d := by
  obtain ⟨hhandle, hsize⟩ := hkept
  refine ⟨hsize.trans h.inSize, ?_, ?_, ?_, hout ▸ h.inv, hout ▸ h.answered, hout ▸ h.flushed, h.sound⟩
  · rw [hhandle]
    exact h.incoming
  · rw [xprt, hhandle]
    exact h.alive
  · rw [xprt, hhandle]
    exact h.returned

theorem Within.through (f : Svcxprt TcpConn → Svcxprt TcpConn) (h : Within later bs c) :
    Within later bs (onXprt f c) := by
  obtain ⟨r, cur, frags, hs, hrest⟩ := h
  exact ⟨r, cur, frags, ⟨hs.rest, hs.fbtbc, hs.lastFrag, hs.size⟩, hrest⟩

theorem Between.through (f : Svcxprt TcpConn → Svcxprt TcpConn) (h : Between later c) :
    Between later (onXprt f c) := by
  obtain ⟨r, hs, hamid⟩ := h
  exact ⟨r, ⟨hs.rest, hs.fbtbc, hs.lastFrag, hs.size⟩, hamid⟩

/-! ### Replies -/

/-- A write that does not fail takes all its bytes in the end. -/
theorem writeLoop_all (hresults : ∀ k, results k ≠ .failed) (buf : List Byte) (o : Outgoing) :
    (writeLoop results buf o).1 = true := by
  fun_induction writeLoop results buf o with
  | case1 o => rfl
  | case2 buf o hne hfailed => exact absurd hfailed (hresults _)
  | case3 buf o hne more hwrote ih => exact ih

theorem told_true (hresults : ∀ k, results k ≠ .failed) {ok : Bool} {written : List (List Byte)}
    (h : Told (writeit results) ok written) : ok = true := by
  cases ok with
  | true => rfl
  | false =>
      obtain ⟨before, last, _, _, hshort⟩ := h
      refine absurd ?_ hshort
      show (writetcp results last _).1 = _
      unfold writetcp
      dsimp only
      rw [writeLoop_all hresults]
      rfl

theorem wire_alive {out : OutStream} (h : Answered (writeit results) out.written) : (wire results out).strmStat = .idle :=
  (afterWrites_answered h).2

/-- A reply is sent, whole, behind the others. -/
theorem Live.replies (hresults : ∀ k, results k ≠ .failed) (h : Live results size incoming sent c) {msg : Reply}
    (hitem : (msg (xprt c).xpPriv.xId).Sound) (hwithin : Within later bs c) :
    ∃ c', svctcpReply env results msg c = .ok (true, c') ∧
      Live results size incoming (sent ++ [msg (xprt c).xpPriv.xId]) c' ∧ Within later bs c' := by
  have hput := (msg (xprt c).xpPriv.xId).func.encodes (encodes_xdrrec (writeit results) locked) env hitem.hasType
    hitem.fits hitem.short
  obtain ⟨ok, s₁, hbytes, hinv₁⟩ := h.inv.xdrrecPutbytes hput.1
  have htold₁ := h.inv.bounds.pointers.putbytes_told h.inv.bounds.most hbytes h.answered
  cases told_true hresults htold₁
  obtain ⟨ok', s₂, hend, hinv₂, hflushed⟩ := hinv₁.xdrrecEndofrecord true
  have htold₂ := hinv₁.bounds.pointers.endofrecord_told hinv₁.bounds.most hend htold₁
  cases told_true hresults htold₂
  have hencode := hput.2 c.stream.1 c.stream.2 _ [] h.inv
  rw [hbytes] at hencode
  unfold svctcpReply
  dsimp only
  rw [show (msg (xprt c).xpPriv.xId).func.encode (xdrrecOps (writeit results) locked) env _ c.stream = _ from hencode]
  show ∃ c', (xdrrecEndofrecord (writeit results) true s₁ >>= _ : Res _) = .ok (true, c') ∧ _
  rw [hend]
  have hdied : ((wire results s₂).strmStat == .died) = false := by
    rw [wire_alive htold₂]
    rfl
  have hsent : Live results size incoming (sent ++ [msg (xprt c).xpPriv.xId]) { c with stream := (s₂, c.stream.2) } := by
    refine ⟨h.inSize, h.incoming, h.alive, h.returned, ?_, htold₂, hflushed rfl htold₂, ?_⟩
    · rw [List.map_append]
      exact hinv₂
    · intro item hmem
      rcases List.mem_append.mp hmem with hmem | hmem
      · exact h.sound item hmem
      · rw [List.mem_singleton.mp hmem]
        exact hitem
  refine ⟨onXprt (fun x => (Tcp.svctcpReply x false).2) { c with stream := (s₂, c.stream.2) }, ?_, ?_, ?_⟩
  · show Except.ok (true, onXprt (fun x => (Tcp.svctcpReply x _).2) _) = _
    rw [hdied]
  · exact hsent.through fun x => ⟨rfl, rfl⟩
  · exact Within.through _ hwithin

/-! ### Arguments -/

theorem endGetargs_eq (x : Svcxprt TcpConn) : endGetargs cfg x = { x.setProgress .getargs with
    mtxpBusy := if cfg.waitMethodTcp = 1 then 1 else x.mtxpBusy
    mtxpMtready := if cfg.waitMethodTcp = 1 then x.mtxpMtready else false } := by
  unfold endGetargs
  split
  · rfl
  · rfl

/-- The arguments that are in the buffer are decoded, though `poll_lock` is held. -/
theorem Live.getsArgs (cfg : Config) (halloc : ∀ k, env.alloc k = true) (h : Live results size incoming sent c) {args : Item}
    (hargs : args.Sound) (hwithin : Within later (args.wire ++ bs) c) :
    ∃ o c', svctcpGetargs cfg env results args.func c = .ok (true, o, c') ∧ args.func.Holds o args.data ∧
      Live results size incoming sent c' ∧ Within later bs c' ∧ (xprt c').xpPriv.xId = (xprt c).xpPriv.xId := by
  obtain ⟨r, cur, frags, hs, hamid, hpass, hbytes⟩ := hwithin
  obtain ⟨c₁, hc₁⟩ : ∃ c₁, c₁ = onXprt (·.setBusy 1) c := ⟨_, rfl⟩
  have hlive : Live results size incoming sent c₁ := hc₁ ▸ h.through fun x => ⟨rfl, rfl⟩
  have hat : AtHand locked c₁.stream.1 c₁.stream.2 [] later c₁.stream (args.wire ++ bs) := by
    rw [← hbytes, hc₁]
    exact .buffered ⟨hs.rest, hs.fbtbc, hs.lastFrag, hs.size⟩ hamid hpass (.refl _)
  obtain ⟨o, d, hdecode, ho, hleft⟩ := hat.decode hargs halloc (writeit results) c₁.calls c₁.blocks
  obtain ⟨s', r', cur', frags', hstream, hs', hamid', hpass', hkept, hbytes'⟩ := hleft.begun fun hne => absurd rfl hne
  have hlive' : Live results size incoming sent d := hlive.kept (by rw [hstream]) (by rw [hstream]; exact hkept)
  have hwithin' : Within later bs d := ⟨r', cur', frags', by rw [hstream]; exact hs', hamid', hpass', hbytes'⟩
  have hxid : (xprt d).xpPriv.xId = (xprt c).xpPriv.xId := by
    rw [xprt, hstream, hkept.handle, hc₁]
    rfl
  unfold svctcpGetargs
  rw [← hc₁, show args.func.decode (xdrrecOps (writeit results) locked) env c₁ = .ok (true, o, d) from hdecode]
  refine ⟨o, onXprt (endGetargs cfg) (onXprt (·.setBusy 0) d), ?_, ho, ?_, ?_, ?_⟩
  · show (if (cfg.failfast && !true) = true then _ else _ : Res _) = _
    rw [Bool.not_true, Bool.and_false, if_neg Bool.false_ne_true]
    rfl
  · have hbusy : Live results size incoming sent (onXprt (·.setBusy 0) d) := hlive'.through fun x => ⟨rfl, rfl⟩
    refine hbusy.through fun x => ?_
    rw [endGetargs_eq]
    exact ⟨rfl, rfl⟩
  · exact (hwithin'.through _).through _
  · rw [← hxid]
    show (endGetargs cfg ((xprt d).setBusy 0)).xpPriv.xId = _
    rw [endGetargs_eq]
    rfl

/-! ### The next record -/

/-- `svctcp_recv` skips to the record `q`, which is at hand, and then these readings are still to come in. -/
def Ready (results : Nat → WriteResult) (size : Nat) (incoming : List Reading) (sent : List Item) (q : List Fragment)
    (later : List (List Fragment)) (c : Connection) : Prop :=
  ∃ s base, onIn c.stream.1 (xdrrecSkiprecord readtcp (turns c.stream.2) c.stream.2) = .ok (true, c.stream.1, s) ∧
    AtHand readtcp c.stream.1 base q later (c.stream.1, s) (payload q) ∧
    Live results size incoming sent { c with stream := (c.stream.1, base) }

theorem Between.skips (h : Between later c) :
    onIn c.stream.1 (xdrrecSkiprecord readtcp (turns c.stream.2) c.stream.2) =
      .ok (true, c.stream.1, { c.stream.2 with strm := { c.stream.2.strm with lastFrag := false } }) := by
  obtain ⟨r, hs, hamid⟩ := h
  have hfb : c.stream.2.strm.fbtbc = 0 := hs.fbtbc.symm.trans hamid.fbtbc
  have hlast : c.stream.2.strm.lastFrag = true := hs.lastFrag.symm.trans hamid.lastFrag
  unfold xdrrecSkiprecord turns
  rw [skipFragments, hfb, hlast]
  rfl

theorem amid_first {q : List Fragment} (hq : Marked q) (hfits : ∀ f ∈ q, f.Fits) :
    Reader.Amid ⟨(q :: later).flatMap fun q => q.flatMap Fragment.wire, 0, false⟩ [] q later := by
  obtain ⟨init, last, hsplit, _⟩ := hq.delimited
  refine ⟨rfl, rfl, ?_, fun _ => hq.delimited, hfits⟩
  rw [hsplit]
  cases init with
  | nil => rfl
  | cons f fs => rfl

/-- A record that is in the buffer. -/
theorem Live.ready_buffered {q : List Fragment} (h : Live results size incoming sent c) (hq : Marked q)
    (hfits : ∀ f ∈ q, f.Fits) (hbetween : Between (q :: later) c) : Ready results size incoming sent q later c := by
  have hskip := hbetween.skips
  obtain ⟨r, hs, hamid⟩ := hbetween
  have hrest : c.stream.2.strm.input = (q :: later).flatMap fun q => q.flatMap Fragment.wire :=
    hs.rest_eq.symm.trans hamid.rest
  have hfb : c.stream.2.strm.fbtbc = 0 := hs.fbtbc.symm.trans hamid.fbtbc
  have hbuffered : Buffered { c.stream.2 with strm := { c.stream.2.strm with lastFrag := false } }
      ⟨(q :: later).flatMap fun q => q.flatMap Fragment.wire, 0, false⟩ :=
    ⟨(List.append_nil _).trans hrest |>.symm, hfb.symm, rfl, hs.size⟩
  exact ⟨_, c.stream.2, hskip, .buffered hbuffered (amid_first hq hfits) hq.payload_ne_nil ⟨rfl, rfl⟩, h⟩

/-- A record that the next read brings, with those behind it. -/
theorem Live.ready_coming {q : List Fragment} {b : Byte} {bytes : List Byte}
    (h : Live results size (.data b bytes :: incoming) sent c) (hq : Marked q) (hfits : ∀ f ∈ q, f.Fits)
    (hbetween : Between [] c) (hbytes : b :: bytes = (q :: later).flatMap fun q => q.flatMap Fragment.wire)
    (hroom : (b :: bytes).length + 3 ≤ size) : Ready results size incoming sent q later c := by
  have hskip := hbetween.skips
  obtain ⟨r, hs, hamid⟩ := hbetween
  have hnone : c.stream.2.strm.input = [] := hs.rest_eq.symm.trans hamid.rest
  have hfb : c.stream.2.strm.fbtbc = 0 := hs.fbtbc.symm.trans hamid.fbtbc
  obtain ⟨base, hbase⟩ : ∃ base : Stream Conn, base =
      ⟨{ c.stream.2.strm with
          lastFrag := false
          inBoundry := c.stream.2.strm.inBoundry % 4 + (b :: bytes).length
          input := b :: bytes },
        (((xprt c).setProgress .doneRead).setBusy 0,
          ⟨incoming, c.stream.2.handle.2.taken + (b :: bytes).length⟩)⟩ := ⟨_, rfl⟩
  have hlen : (b :: bytes).length ≤ c.stream.2.strm.inSize - c.stream.2.strm.inBoundry % 4 := by
    rw [h.inSize]
    omega
  have hfill : fillInputBuf readtcp { c.stream.2 with strm := { c.stream.2.strm with lastFrag := false } } =
      some (true, base) := by
    unfold fillInputBuf readtcp
    dsimp only
    rw [h.incoming]
    dsimp only [bind, Option.bind]
    rw [List.take_of_length_le hlen, List.drop_eq_nil_of_le hlen, hbase]
    rfl
  have hbuffered : Buffered base ⟨(q :: later).flatMap fun q => q.flatMap Fragment.wire, 0, false⟩ := by
    rw [hbase]
    exact ⟨hbytes.symm.trans (List.append_nil _).symm, hfb.symm, rfl, hs.size⟩
  have hne : q ≠ [] := by
    obtain ⟨init, last, rfl, _⟩ := hq
    exact List.append_ne_nil_of_right_ne_nil init (List.cons_ne_nil _ _)
  have hlive : Live results size incoming sent { c with stream := (c.stream.1, base) } := by
    rw [hbase]
    exact ⟨h.inSize, rfl, h.alive, h.returned, h.inv, h.answered, h.flushed, h.sound⟩
  exact ⟨_, base, hskip, .coming hnone hfill hbuffered (amid_first hq hfits) hne hq.payload_ne_nil (.refl _), hlive⟩

theorem Live.recvs {q : List Fragment} {header : Item} (halloc : ∀ k, env.alloc k = true)
    (hfunc : header.func = services.xdrCallmsg) (hheader : header.Sound) (hne : header.wire ≠ [])
    (hpayload : payload q = header.wire ++ bs)
    (hready : Ready results size incoming sent q later (onXprt (·.clrProgress .doneRecv) c)) :
    ∃ o c', svctcpRecv cfg services env results c = .ok (some o, c') ∧ header.func.Holds o header.data ∧
      Live results size incoming sent c' ∧ Within later bs c' ∧ (xprt c').xpPriv.xId = services.rmXid o := by
  obtain ⟨c₀, hc₀⟩ : ∃ c₀, c₀ = onXprt (·.clrProgress .doneRecv) c := ⟨_, rfl⟩
  rw [← hc₀] at hready
  obtain ⟨s, base, hskip, hat, hlive⟩ := hready
  rw [hpayload] at hat
  obtain ⟨o, d, hdecode, ho, hleft⟩ := hat.decode hheader halloc (writeit results) c₀.calls c₀.blocks
  have hshort : bs.length < (payload q).length := by
    have hpos := List.length_pos_iff.mpr hne
    rw [hpayload, List.length_append]
    omega
  obtain ⟨s', r, cur, frags, hstream, hs, hamid, hpass, hkept, hbytes⟩ := hleft.begun fun _ => hshort
  have hlive' : Live results size incoming sent d := hlive.kept (by rw [hstream]) (by rw [hstream]; exact hkept)
  have hwithin : Within later bs d := ⟨r, cur, frags, by rw [hstream]; exact hs, hamid, hpass, hbytes⟩
  refine ⟨o, onXprt (·.setProgress .doneRecv)
    (onXprt (fun x => { x with xpPriv := { x.xpPriv with xId := services.rmXid o } }) d), ?_, ho, ?_, ?_, rfl⟩
  · unfold svctcpRecv
    rw [← hc₀]
    dsimp only
    rw [hskip]
    dsimp only [bind, Except.bind]
    rw [← hfunc, hdecode]
    rfl
  · have hnamed : Live results size incoming sent
        (onXprt (fun x => { x with xpPriv := { x.xpPriv with xId := services.rmXid o } }) d) :=
      hlive'.through fun x => ⟨rfl, rfl⟩
    exact hnamed.through fun x => ⟨rfl, rfl⟩
  · exact (hwithin.through _).through _

/-! ### A request -/

/-- The services reply to a record of these bytes by the item, or do not reply. Behind the arguments there may be
more bytes. -/
inductive Answers (services : Services) : List Byte → Option Item → Prop where
  | refused {header : Item} {xid : Nat} {msg : Reply} {bs : List Byte} (hfunc : header.func = services.xdrCallmsg)
      (hheader : header.Sound) (hne : header.wire ≠ [])
      (hmsg : ∀ o, header.func.Holds o header.data → services.rmXid o = xid ∧ services.handle o = .refuse msg)
      (hreply : (msg xid).Sound) : Answers services (header.wire ++ bs) (some (msg xid))
  | served {header args : Item} {xid : Nat} {reply : Option Item} {bs : List Byte}
      (hfunc : header.func = services.xdrCallmsg) (hheader : header.Sound) (hne : header.wire ≠ [])
      (hargs : args.Sound)
      (hmsg : ∀ o, header.func.Holds o header.data → services.rmXid o = xid ∧
        ∃ msg, services.handle o = .dispatch args.func msg ∧
          ∀ a, args.func.Holds a args.data → (msg true a).map (fun m => m xid) = reply)
      (hreply : ∀ item ∈ reply, item.Sound) : Answers services (header.wire ++ (args.wire ++ bs)) reply

/-- A service that is called gets the arguments, replies and returns. -/
theorem Live.dispatches (hcfg : cfg.mtmode = 0) (hjiffies : 0 < Wait.jiffiesPerInterval cfg)
    (halloc : ∀ k, env.alloc k = true)
    (hresults : ∀ k, results k ≠ .failed) (h : Live results size incoming sent c) {args : Item} (hargs : args.Sound)
    (hwithin : Within later (args.wire ++ bs) c) {msg : Bool → Obj → Option Reply} {reply : Option Item}
    (hmsg : ∀ a, args.func.Holds a args.data → (msg true a).map (fun m => m (xprt c).xpPriv.xId) = reply)
    (hreply : ∀ item ∈ reply, item.Sound) :
    ∃ c', requestDispatch cfg env results args.func msg c = .ok c' ∧
      Live results size incoming (sent ++ reply.toList) c' ∧ Within later bs c' := by
  have hcall : RpcMt.requestDispatch cfg (xprt c) = .call ((xprt c).setProgress .dispatch) := by
    unfold RpcMt.requestDispatch
    rw [if_neg (by rw [h.returned]; decide)]
  have hlive : Live results size incoming sent (onXprt (fun _ => (xprt c).setProgress .dispatch) c) :=
    ⟨h.inSize, h.incoming, h.alive, h.returned, h.inv, h.answered, h.flushed, h.sound⟩
  obtain ⟨a, c₁, hget, ha, hlive₁, hwithin₁, hxid⟩ := hlive.getsArgs cfg halloc hargs (hwithin.through _)
  have hreturn : ∀ c₂ : Connection, svcReturn cfg (xprt c₂) = .ok (((xprt c₂).setBusy 1).setBusy 0) := by
    intro c₂
    unfold svcReturn
    rw [hcfg]
    rfl
  have hwait : ∀ x : Svcxprt TcpConn, Wait.finishWait cfg ⟨.first cfg, x, [.ret]⟩ = .ok x := by
    intro x
    exact Wait.finishWait_returned hcfg hjiffies x rfl
  have hitem := hmsg a ha
  rw [show (xprt c).xpPriv.xId = (xprt c₁).xpPriv.xId from hxid.symm] at hitem
  unfold requestDispatch
  rw [hcall]
  dsimp only
  rw [hget]
  dsimp only [bind, Except.bind]
  cases hanswer : msg true a with
  | none =>
      rw [hanswer, Option.map_none] at hitem
      subst hitem
      rw [Option.toList_none, List.append_nil]
      dsimp only [pure, Except.pure]
      rw [hreturn]
      dsimp only
      rw [hwait]
      exact ⟨_, rfl, ⟨hlive₁.inSize, hlive₁.incoming, hlive₁.alive, hlive₁.returned, hlive₁.inv, hlive₁.answered,
        hlive₁.flushed, hlive₁.sound⟩, hwithin₁.through _⟩
  | some m =>
      rw [hanswer, Option.map_some] at hitem
      subst hitem
      obtain ⟨c₂, hrep, hlive₂, hwithin₂⟩ := hlive₁.replies hresults (hreply _ rfl) hwithin₁
      dsimp only
      rw [hrep]
      dsimp only [Except.map]
      rw [hreturn]
      dsimp only
      rw [hwait]
      exact ⟨_, rfl, ⟨hlive₂.inSize, hlive₂.incoming, hlive₂.alive, hlive₂.returned, hlive₂.inv, hlive₂.answered,
        hlive₂.flushed, hlive₂.sound⟩, hwithin₂.through _⟩

theorem skipFragments_end {s : Stream Conn} {r : XdrRec.Reader} (hs : Buffered s r) (hamid : Reader.Amid r [] [] later) :
    skipFragments readtcp (turns s) s = some (true, s) := by
  have hfb : s.strm.fbtbc = 0 := hs.fbtbc.symm.trans hamid.fbtbc
  have hlast : s.strm.lastFrag = true := hs.lastFrag.symm.trans hamid.lastFrag
  unfold turns
  rw [skipFragments, hfb, hlast]
  rfl

/-- What `svc_getreq_common_rv` finds behind a record that has been handled. -/
theorem Live.stats (h : Live results size incoming sent c) (hwithin : Within later bs c)
    (hlater : ∀ q ∈ later, Marked q) :
    ∃ c', svctcpStat c = .ok (if later = [] then .idle else .morereqs, c') ∧ Live results size incoming sent c' ∧
      Between later c' := by
  obtain ⟨r, cur, frags, hs, hamid, hpass, _⟩ := hwithin
  have hturns : r.rest.length + 2 ≤ turns c.stream.2 := by
    rw [hs.rest_eq]
    unfold turns
    omega
  obtain ⟨s', r', hskip, hs', hamid', hkept⟩ := hs.skipFragments readtcp hamid hpass hturns
  have hempty : s'.strm.input.isEmpty = later.isEmpty := by
    rw [← hs'.rest_eq, hamid'.rest]
    cases later with
    | nil => rfl
    | cons q later =>
        obtain ⟨init, bs, rfl, _⟩ := hlater q List.mem_cons_self
        have hpos : (⟨true, bs⟩ : Fragment).wire ≠ [] := by
          intro hnil
          have hlen := congrArg List.length hnil
          rw [Fragment.length_wire] at hlen
          exact absurd hlen (by rw [List.length_nil]; omega)
        simp [List.flatMap_cons, List.flatMap_append, hpos]
  refine ⟨{ c with stream := (c.stream.1, s') }, ?_, h.kept rfl hkept, r', hs', hamid'⟩
  have halive : ¬ c.stream.2.handle.1.xpPriv.strmStat = .died := h.alive
  unfold svctcpStat Tcp.svctcpStat xdrrecEof
  rw [if_neg halive, hskip]
  dsimp only [bind, Option.bind, onIn, Except.bind, pure, Except.pure]
  rw [if_pos rfl, hempty]
  cases later with
  | nil => rfl
  | cons q later => rfl

/-- A record is received, handled and replied to. -/
theorem Live.request (hcfg : cfg.mtmode = 0) (hjiffies : 0 < Wait.jiffiesPerInterval cfg)
    (halloc : ∀ k, env.alloc k = true) (hresults : ∀ k, results k ≠ .failed) {q : List Fragment} {reply : Option Item}
    (hanswers : Answers services (payload q) reply) (hlater : ∀ p ∈ later, Marked p)
    (hready : Ready results size incoming sent q later (onXprt (·.clrProgress .doneRecv) c)) :
    ∃ c', getSingleRequest cfg services env results c = .ok (0, if later = [] then .idle else .morereqs, c') ∧
      Live results size incoming (sent ++ reply.toList) c' ∧ Between later c' := by
  have hlookup : ∃ o c₁ c₂ bs, svctcpRecv cfg services env results c = .ok (some o, c₁) ∧
      requestLookup cfg services env results o c₁ = .ok (0, c₂) ∧ Live results size incoming (sent ++ reply.toList) c₂ ∧
      Within later bs c₂ := by
    generalize hpayload : payload q = bytes at hanswers
    cases hanswers with
    | @refused header xid msg bs hfunc hheader hne hmsg hreply =>
        obtain ⟨o, c₁, hrecv, ho, hlive₁, hwithin₁, hxid⟩ := Live.recvs halloc hfunc hheader hne hpayload hready
        obtain ⟨rfl, hhandle⟩ := hmsg o ho
        rw [← hxid] at hreply
        obtain ⟨c₂, hrep, hlive₂, hwithin₂⟩ := hlive₁.replies hresults hreply hwithin₁
        refine ⟨o, c₁, c₂, bs, hrecv, ?_, hxid ▸ hlive₂, hwithin₂⟩
        unfold requestLookup
        rw [hhandle]
        dsimp only
        rw [hrep]
        rfl
    | @served header args xid reply bs hfunc hheader hne hargs hmsg hreply =>
        obtain ⟨o, c₁, hrecv, ho, hlive₁, hwithin₁, hxid⟩ := Live.recvs halloc hfunc hheader hne hpayload hready
        obtain ⟨rfl, msg, hhandle, hmsg⟩ := hmsg o ho
        rw [← hxid] at hmsg
        obtain ⟨c₂, hdispatch, hlive₂, hwithin₂⟩ := hlive₁.dispatches hcfg hjiffies halloc hresults hargs hwithin₁ hmsg hreply
        refine ⟨o, c₁, c₂, bs, hrecv, ?_, hlive₂, hwithin₂⟩
        unfold requestLookup
        rw [hhandle]
        dsimp only
        rw [hdispatch]
        rfl
  obtain ⟨o, c₁, c₂, bs, hrecv, hlookup, hlive₂, hwithin₂⟩ := hlookup
  obtain ⟨c₃, hstat, hlive₃, hbetween₃⟩ := hlive₂.stats hwithin₂ hlater
  refine ⟨onXprt (fun x => { x with mtxpStat := if later = [] then .idle else .morereqs }) c₃, ?_,
    hlive₃.through fun x => ⟨rfl, rfl⟩, hbetween₃.through _⟩
  unfold getSingleRequest
  rw [hrecv]
  dsimp only [bind, Except.bind]
  rw [hlookup]
  dsimp only
  rw [hstat]
  rfl

/-- A record of these bytes is a call whose credential `_authenticate` does not accept. -/
structure Rejects (services : Services) (bytes : List Byte) (header : Item) (xid : Nat) (msg : Reply) : Prop where
  func_eq : header.func = services.xdrCallmsg
  sound : header.Sound
  wire_ne : header.wire ≠ []
  begins : ∃ bs, bytes = header.wire ++ bs
  handled : ∀ o, header.func.Holds o header.data → services.rmXid o = xid ∧ services.handle o = .reject msg
  reply : (msg xid).Sound

/-- A call that is rejected ends the program, whatever is behind it. -/
theorem Live.rejects (halloc : ∀ k, env.alloc k = true) (hresults : ∀ k, results k ≠ .failed) {q : List Fragment}
    {header : Item} {xid : Nat} {msg : Reply} (hrejects : Rejects services (payload q) header xid msg)
    (hlater : ∀ p ∈ later, Marked p)
    (hready : Ready results size incoming sent q later (onXprt (·.clrProgress .doneRecv) c)) (turns : Nat) :
    svcGetreqCommon cfg services env results (turns + 1) c = .error .svcDie := by
  obtain ⟨bs, hpayload⟩ := hrejects.begins
  obtain ⟨o, c₁, hrecv, ho, hlive₁, hwithin₁, hxid⟩ :=
    Live.recvs halloc hrejects.func_eq hrejects.sound hrejects.wire_ne hpayload hready
  obtain ⟨rfl, hhandle⟩ := hrejects.handled o ho
  have hreply := hrejects.reply
  rw [← hxid] at hreply
  obtain ⟨c₂, hrep, hlive₂, hwithin₂⟩ := hlive₁.replies hresults hreply hwithin₁
  obtain ⟨c₃, hstat, _⟩ := hlive₂.stats hwithin₂ hlater
  have hlookup : requestLookup cfg services env results o c₁ = .ok (-1, c₂) := by
    unfold requestLookup
    rw [hhandle]
    dsimp only
    rw [hrep]
    rfl
  unfold svcGetreqCommon
  rw [getRequests, getSingleRequest, hrecv]
  dsimp only [bind, Except.bind]
  rw [hlookup]
  dsimp only
  rw [hstat]
  rfl

/-! ### Requests -/

/-- A record that the services reply to by the item, or not at all. -/
def Call (services : Services) (q : List Fragment) (reply : Option Item) : Prop :=
  Marked q ∧ (∀ f ∈ q, f.Fits) ∧ Answers services (payload q) reply

theorem marked_of_calls {records : List (List Fragment)} {replies : List (Option Item)}
    (h : List.Forall₂ (Call services) records replies) : ∀ q ∈ records, Marked q := by
  have hboth : List.Forall₂ (fun q reply => Marked q ∧ (∀ f ∈ q, f.Fits) ∧ Answers services (payload q) reply) records
      replies := h
  exact ((List.forall₂_and_left _ _).mp hboth).1

/-- The calls that are in the buffer are replied to. -/
theorem Live.requests (hcfg : cfg.mtmode = 0) (hjiffies : 0 < Wait.jiffiesPerInterval cfg)
    (halloc : ∀ k, env.alloc k = true) (hresults : ∀ k, results k ≠ .failed) {q : List Fragment} {reply : Option Item} {replies : List (Option Item)}
    (hcall : Call services q reply) (hcalls : List.Forall₂ (Call services) later replies)
    (hready : Ready results size incoming sent q later (onXprt (·.clrProgress .doneRecv) c)) {turns : Nat}
    (hturns : later.length < turns) :
    ∃ c', getRequests cfg services env results turns c = .ok (0, .idle, c') ∧
      Live results size incoming (sent ++ (reply :: replies).flatMap Option.toList) c' ∧ Between [] c' := by
  induction hcalls generalizing q reply sent c turns with
  | nil =>
      obtain ⟨turns, rfl⟩ : ∃ n, turns = n + 1 := ⟨turns - 1, by omega⟩
      obtain ⟨c', hget, hlive, hbetween⟩ := Live.request hcfg hjiffies halloc hresults hcall.2.2
        (fun p hp => absurd hp List.not_mem_nil) hready
      rw [if_pos rfl] at hget
      rw [getRequests, hget, List.flatMap_cons, List.flatMap_nil, List.append_nil]
      exact ⟨c', rfl, hlive, hbetween⟩
  | @cons q' reply' later replies hcall' hcalls ih =>
      obtain ⟨turns, rfl⟩ : ∃ n, turns = n + 1 := ⟨turns - 1, by omega⟩
      have hmarked : ∀ p ∈ q' :: later, Marked p := marked_of_calls (List.Forall₂.cons hcall' hcalls)
      obtain ⟨c₁, hget, hlive, hbetween⟩ := Live.request hcfg hjiffies halloc hresults hcall.2.2 hmarked hready
      have hlive₁ : Live results size incoming (sent ++ reply.toList) (onXprt (·.clrProgress .doneRecv) c₁) :=
        hlive.through fun x => ⟨rfl, rfl⟩
      have hready₁ := hlive₁.ready_buffered hcall'.1 hcall'.2.1 (hbetween.through _)
      obtain ⟨c', hrest, hlive', hbetween'⟩ := ih hcall' hready₁ (Nat.lt_of_succ_lt_succ hturns)
      rw [if_neg (List.cons_ne_nil _ _)] at hget
      rw [getRequests, hget, List.flatMap_cons, ← List.append_assoc]
      exact ⟨c', hrest, hlive', hbetween'⟩

/-- A read that brings calls, whole, for which there is room in the buffer. -/
def Batch (services : Services) (size : Nat) (reading : Reading) (replies : List (Option Item)) : Prop :=
  ∃ b bytes records, reading = .data b bytes ∧ (b :: bytes) = records.flatMap (fun q => q.flatMap Fragment.wire) ∧
    (b :: bytes).length + 3 ≤ size ∧ List.Forall₂ (Call services) records replies

theorem Live.run (hcfg : cfg.mtmode = 0) (hjiffies : 0 < Wait.jiffiesPerInterval cfg)
    (halloc : ∀ k, env.alloc k = true) (hresults : ∀ k, results k ≠ .failed) {batches : List (List (Option Item))}
    (hbatches : List.Forall₂ (Batch services size) incoming batches) (h : Live results size incoming sent c)
    (hbetween : Between [] c) {turns : Nat} (hturns : batches.flatten.length < turns) :
    ∃ c', svcRun cfg services env results turns c = .ok c' ∧
      Live results size [] (sent ++ batches.flatten.flatMap Option.toList) c' := by
  induction hbatches generalizing sent c turns with
  | nil =>
      obtain ⟨turns, rfl⟩ : ∃ n, turns = n + 1 := ⟨turns - 1, by omega⟩
      rw [svcRun, if_pos h.incoming, List.flatten_nil, List.flatMap_nil, List.append_nil]
      exact ⟨c, rfl, h⟩
  | @cons reading replies incoming batches hbatch hbatches ih =>
      obtain ⟨turns, rfl⟩ : ∃ n, turns = n + 1 := ⟨turns - 1, by omega⟩
      obtain ⟨b, bytes, records, rfl, hbytes, hroom, hcalls⟩ := hbatch
      have hlive : Live results size (.data b bytes :: incoming) sent (onXprt (·.clrProgress .doneRecv) c) :=
        h.through fun x => ⟨rfl, rfl⟩
      cases hcalls with
      | nil => cases hbytes
      | @cons q reply later replies hcall hcalls =>
          have hready := hlive.ready_coming hcall.1 hcall.2.1 (hbetween.through _) hbytes hroom
          have hlen := hcalls.length_eq
          rw [List.flatten_cons, List.length_append, List.length_cons] at hturns
          obtain ⟨c₁, hget, hlive₁, hbetween₁⟩ := Live.requests hcfg hjiffies halloc hresults hcall hcalls hready
            (show later.length < turns + 1 by omega)
          obtain ⟨c', hrun, hlive'⟩ := ih hlive₁ hbetween₁ (show batches.flatten.length < turns by omega)
          have hmore : ¬ c.stream.2.handle.2.incoming = [] := by
            rw [h.incoming]
            exact List.cons_ne_nil _ _
          rw [svcRun, if_neg hmore, svcGetreqCommon, hget, List.flatten_cons, List.flatMap_append, ← List.append_assoc]
          exact ⟨c', hrun, hlive'⟩

end Steps

/-! ### The whole -/

/-- A connection as `makefd_xprt` makes it, with what its reads are to meet. -/
def start (sock sendsize recvsize : Nat) (stat : XprtStat) (garbage : Nat → Byte) (incoming : List Reading) :
    Connection :=
  ⟨(createOut sendsize garbage, ⟨create (fixBufSize recvsize), Svcxprt.newXprt sock 0 false ⟨.idle, 0⟩ stat,
    ⟨incoming, 0⟩⟩), 0, []⟩

theorem start_live (results : Nat → WriteResult) {sendsize recvsize : Nat} (hsize : sendsize + recvsize + 4 < 2 ^ 31)
    (sock : Nat) (stat : XprtStat) (garbage : Nat → Byte) (incoming : List Reading) :
    Live results (fixBufSize recvsize) incoming [] (start sock sendsize recvsize stat garbage incoming) :=
  ⟨rfl, rfl, (by decide : XprtStat.idle ≠ .died), rfl, inv_createOut _ hsize garbage, answered_nil _, rfl,
    fun _ hitem => absurd hitem List.not_mem_nil⟩

theorem start_between {sendsize recvsize : Nat} (hsize : sendsize + recvsize + 4 < 2 ^ 31) (sock : Nat)
    (stat : XprtStat) (garbage : Nat → Byte) (incoming : List Reading) :
    Between [] (start sock sendsize recvsize stat garbage incoming) := by
  refine ⟨⟨[], 0, true⟩, Shows.create hsize _, rfl, rfl, rfl, fun hne => absurd rfl hne, ?_⟩
  exact fun f hf => absurd hf List.not_mem_nil

/-- Without threads and as long as writes do not fail, every call that comes in over a connection is replied to, by
the reply of its service under its own xid, or by the error that it gets. The calls come in reads of whole records
that fit into the buffer, cut into fragments in any way, and none is rejected by `_authenticate` (`Live.rejects`). The
wait for a service counts jiffies, so there must be some in its interval. Any receiver on the other side decodes the
replies and nothing else, in the order of the calls. -/
theorem calls_answered {cfg : Config} (hcfg : cfg.mtmode = 0) (hjiffies : 0 < Wait.jiffiesPerInterval cfg)
    {services : Services} {env : XdrEnv}
    (halloc : ∀ k, env.alloc k = true) {results : Nat → WriteResult} (hresults : ∀ k, results k ≠ .failed)
    {sendsize recvsize : Nat} (hsize : sendsize + recvsize + 4 < 2 ^ 31) (sock : Nat) (stat : XprtStat)
    (garbage : Nat → Byte) {incoming : List Reading} {batches : List (List (Option Item))}
    (hbatches : List.Forall₂ (Batch services (fixBufSize recvsize)) incoming batches) {turns : Nat}
    (hturns : batches.flatten.length < turns) :
    ∃ c, svcRun cfg services env results turns (start sock sendsize recvsize stat garbage incoming) = .ok c ∧
      c.stream.2.handle.2.incoming = [] ∧ (xprt c).xpPriv.strmStat ≠ .died ∧
      ∀ {τ : Type} {readit' : Readit τ} {pending : τ → List Byte}, XdrRec.Supplies readit' pending →
      ∀ {env' : XdrEnv}, (∀ k, env'.alloc k = true) →
      ∀ {sendsize' recvsize' : Nat}, sendsize' + recvsize' + 4 < 2 ^ 31 →
      ∀ handle, pending handle = (wire results c.stream.1).sent → ∀ turns', (pending handle).length + 2 ≤ turns' →
      ∀ writeit' out, ∃ objs d,
        recvRecords writeit' readit' env' turns' ((batches.flatten.flatMap Option.toList).map Item.func)
            ⟨(out, ⟨create (fixBufSize recvsize'), handle⟩), 0, []⟩ = .ok (objs.map (true, ·), d) ∧
          List.Forall₂ (fun o item => item.func.Holds o item.data) objs (batches.flatten.flatMap Option.toList) := by
  obtain ⟨c, hrun, hlive⟩ := (start_live results hsize sock stat garbage incoming).run hcfg hjiffies halloc hresults hbatches
    (start_between hsize sock stat garbage incoming) hturns
  refine ⟨c, hrun, hlive.incoming, hlive.alive, ?_⟩
  intro τ readit' pending hs env' halloc' sendsize' recvsize' hsize' handle hpending turns' hturns' writeit' out
  rw [List.nil_append] at hlive
  have hwritten : pending handle = c.stream.1.written.flatten := by
    rw [hpending, (afterWrites_answered hlive.answered).1]
    rfl
  rw [hwritten] at hturns'
  exact hlive.inv.received hlive.sound hlive.answered hlive.flushed hs halloc' hsize' hwritten hturns' writeit' out

/-- The xid of a call and a number. -/
def numbered (xid : Nat) (n : Int) : Item := ⟨.pair (.scalar .int) (.scalar .int), .pair (.num xid) (.num n)⟩

/-- A call is the xid and a number, and the reply is the xid and twice the number. -/
def doubling : Services where
  xdrCallmsg := .scalar .int
  rmXid
    | .num n => n.toNat
    | _ => 0
  handle _ := .dispatch (.scalar .int) fun _ a => match a with
    | .num n => some fun xid => numbered xid (n + n)
    | _ => none

theorem doubling_answers {xid : Nat} (hxid : (xid : Int) < 2 ^ 31) {n : Int} (hn : -2 ^ 30 ≤ n) (hn' : n < 2 ^ 30) :
    Answers doubling ((⟨.scalar .int, .num xid⟩ : Item).wire ++ ((⟨.scalar .int, .num n⟩ : Item).wire ++ []))
      (some (numbered xid (n + n))) := by
  have hword : ∀ {m : Int}, -2 ^ 31 ≤ m → m < 2 ^ 31 → (⟨.scalar .int, .num m⟩ : Item).Sound :=
    fun hlow hhigh => ⟨⟨_, rfl, hlow, hhigh⟩, trivial, (by decide : 4 < uintRange)⟩
  have hreply : (numbered xid (n + n)).Sound := by
    refine ⟨⟨_, _, rfl, ⟨_, rfl, ?_, hxid⟩, ⟨_, rfl, ?_, ?_⟩⟩, ⟨_, _, rfl, trivial, trivial⟩, (by decide : 8 < uintRange)⟩
    · omega
    · omega
    · omega
  have hmsg : ∀ o, Ty.Holds (.scalar .int) o (.num xid) → doubling.rmXid o = xid ∧
      ∃ msg, doubling.handle o = .dispatch (.scalar .int) msg ∧
        ∀ a, Ty.Holds (.scalar .int) a (.num n) → (msg true a).map (fun m => m xid) = some (numbered xid (n + n)) := by
    rintro o ⟨_, rfl, hnum⟩
    cases hnum
    refine ⟨Int.toNat_natCast xid, _, rfl, ?_⟩
    rintro a ⟨_, rfl, hnum⟩
    cases hnum
    rfl
  refine .served rfl (hword (by omega) hxid) (List.cons_ne_nil _ _) (hword (by omega) (by omega)) hmsg ?_
  intro item hitem
  cases hitem
  exact hreply

/-- Two calls come in at once and are replied to a byte at a time. -/
theorem calls_answered_doubling : ∃ c, svcRun { defaultConfig with mtmode := 0 } doubling .ample (fun _ => .wrote 0) 3
      (start 4 100 400 .idle (fun _ => 0) [.data 0 [0, 0, 4, 0, 0, 0, 5, 128, 0, 0, 4, 0, 0, 0, 21,
        128, 0, 0, 8, 0, 0, 0, 6, 0, 0, 0, 1]]) = .ok c ∧
    c.stream.2.handle.2.incoming = [] ∧
    ∃ objs d, recvRecords (fun _ _ => -1) byThrees .ample ((wire (fun _ => .wrote 0) c.stream.1).sent.length + 2)
        [.pair (.scalar .int) (.scalar .int), .pair (.scalar .int) (.scalar .int)]
        ⟨(createOut 100 fun _ => 0, ⟨create (fixBufSize 400), (wire (fun _ => .wrote 0) c.stream.1).sent⟩), 0, []⟩ =
          .ok (objs.map (true, ·), d) ∧
      List.Forall₂ (fun o (item : Item) => item.func.Holds o item.data) objs [numbered 5 42, numbered 6 2] := by
  have hfits : ∀ {b : Bool} {bs : List Byte}, bs.length ≤ 8 → (⟨b, bs⟩ : Fragment).Fits := by
    intro b bs hlen
    show bs.length < 2 ^ 31
    omega
  have hfirst : Call doubling [⟨false, [0, 0, 0, 5]⟩, ⟨true, [0, 0, 0, 21]⟩] (some (numbered 5 42)) := by
    refine ⟨⟨[⟨false, [0, 0, 0, 5]⟩], [0, 0, 0, 21], rfl, ?_⟩, ?_, @doubling_answers 5 (by decide) 21 (by decide) (by decide)⟩
    · intro f hf
      rw [List.mem_singleton.mp hf]
      exact ⟨rfl, by decide⟩
    · intro f hf
      have hf : f = ⟨false, [0, 0, 0, 5]⟩ ∨ f = ⟨true, [0, 0, 0, 21]⟩ := by simpa using hf
      rcases hf with rfl | rfl
      · exact hfits (by decide)
      · exact hfits (by decide)
  have hsecond : Call doubling [⟨true, [0, 0, 0, 6, 0, 0, 0, 1]⟩] (some (numbered 6 2)) := by
    refine ⟨⟨[], [0, 0, 0, 6, 0, 0, 0, 1], rfl, fun f hf => absurd hf List.not_mem_nil⟩, ?_,
      @doubling_answers 6 (by decide) 1 (by decide) (by decide)⟩
    intro f hf
    rw [List.mem_singleton.mp hf]
    exact hfits (by decide)
  have hbatch : List.Forall₂ (Batch doubling (fixBufSize 400)) [.data 0 [0, 0, 4, 0, 0, 0, 5, 128, 0, 0, 4, 0, 0, 0, 21,
      128, 0, 0, 8, 0, 0, 0, 6, 0, 0, 0, 1]] [[some (numbered 5 42), some (numbered 6 2)]] :=
    .cons ⟨_, _, [[⟨false, [0, 0, 0, 5]⟩, ⟨true, [0, 0, 0, 21]⟩], [⟨true, [0, 0, 0, 6, 0, 0, 0, 1]⟩]], rfl, rfl,
      by decide, .cons hfirst (.cons hsecond .nil)⟩ .nil
  obtain ⟨c, hrun, hincoming, _, hclient⟩ := @calls_answered { defaultConfig with mtmode := 0 } rfl (by decide) doubling .ample
    (fun _ => rfl) (fun _ => .wrote 0) (fun _ h => WriteResult.noConfusion h) 100 400 (by decide) 4 .idle (fun _ => 0) _ _
    hbatch 3 (by decide)
  have hsize : 100 + 400 + 4 < 2 ^ 31 := by decide
  exact ⟨c, hrun, hincoming, hclient byThrees_supplies (fun _ => rfl) hsize _ rfl _ (Nat.le_refl _) (fun _ _ => -1) _⟩

end RpcMt.TcpCalls
