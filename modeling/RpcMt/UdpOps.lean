import RpcMt.UdpOwnership

/-! What each call on a UDP transport does once every transport has its own buffer: the filter runs on
the view that the transport's stream has of that buffer, the view it leaves is the new one, and
nothing but the transport and its buffer changes. -/

namespace RpcMt.UdpState

variable {V ρ : Type} {iosz : Nat} {st : UdpState} {log : List Store} {a : Addr}
  {x : Svcxprt SvcudpData} {bytes : List Byte}

/-- A transport with its stream where a filter has left it. -/
def leaveData (su : SvcudpData) (op : XdrOp) (w : View) : SvcudpData :=
  { su with suXdrs := ⟨op, su.rpcBuffer, ⟨su.rpcBuffer, w.pos⟩, w.handy⟩ }

theorem wf_leaveData {su : SvcudpData} {w : View} (hwf : Wf iosz su) (op : XdrOp)
    (hw : w.pos + w.handy = iosz) : Wf iosz (leaveData su op w) :=
  ⟨rfl, rfl, hw, hwf.iosz_eq, hwf.bufsz⟩

/-- The state after a call of the transport at `a` has left the view `w` in its buffer. -/
def leave (st : UdpState) (a : Addr) (buf : BufId) (w : View) (x' : Svcxprt SvcudpData) : UdpState :=
  { st with bufs := Function.update st.bufs buf (some w.bytes) }.store a x'

theorem setpos_start {su : SvcudpData} (hwf : Wf iosz su) (hfits : iosz < uintRange) (op : XdrOp) :
    xdrmemSetpos { su.suXdrs with xOp := op } 0 = .ok (xdrmemCreate su.rpcBuffer iosz op) := by
  unfold xdrmemSetpos
  have hroom := hwf.room
  dsimp only
  rw [if_neg (by omega), Nat.sub_zero, hroom, hwf.base]
  rfl

theorem runFilter_eq {α : Type} (f : Filter α) {xdrs : Xdr} {bufs : Bufs}
    (h : bufs xdrs.xPrivate.blk = some bytes) :
    runFilter f xdrs bufs = (f.run (xdrs.view bytes) >>= fun r => .ok (r.1, r.2.1, xdrs.leave r.2.2,
      Function.update bufs xdrs.xPrivate.blk (some r.2.2.bytes))) := by
  rw [runFilter, readBuf_of_some h]
  rfl

theorem BufInv.length_eq (h : BufInv iosz st log) (hx : st.xprts a = some x)
    (hbytes : st.bufs x.xpPriv.rpcBuffer = some bytes) : bytes.length = iosz := by
  obtain ⟨bytes', hbytes', hlen⟩ := h.buf a x hx
  cases hbytes.symm.trans hbytes'
  exact hlen

theorem leave_eq {su : SvcudpData} (hwf : Wf iosz su) (w : View) :
    { su with suXdrs := su.suXdrs.leave w } = leaveData su su.suXdrs.xOp w := by
  simp only [leaveData, Xdr.leave, hwf.blk, hwf.base]

/-! ### The calls of a worker -/

theorem svcudpGetargs_eq (h : BufInv iosz st log) (hx : st.xprts a = some x)
    (hbytes : st.bufs x.xpPriv.rpcBuffer = some bytes) (hret : x.mtxpProgress .returned = false)
    (f : Filter V) :
    st.svcudpGetargs a f = (f.run (x.xpPriv.suXdrs.view bytes) >>= fun r =>
      .ok ⟨r.1, some r.2.1, st.leave a x.xpPriv.rpcBuffer r.2.2
        (RpcMt.svcudpGetargs x (leaveData x.xpPriv x.xpPriv.suXdrs.xOp r.2.2))⟩) := by
  have hwf := h.wf a x hx
  have hblk : st.bufs x.xpPriv.suXdrs.xPrivate.blk = some bytes := by rw [hwf.blk, hbytes]
  rw [svcudpGetargs, deref_of_some hx]
  change (if x.mtxpProgress .returned = true then _ else _) = _
  rw [hret, if_neg (by simp), runFilter_eq f hblk]
  cases f.run (x.xpPriv.suXdrs.view bytes) with
  | error e => rfl
  | ok r =>
      change Except.ok _ = Except.ok _
      rw [leave_eq hwf, hwf.blk]
      rfl

theorem svcudpGetargs_returned (hx : st.xprts a = some x) (hret : x.mtxpProgress .returned = true)
    (f : Filter V) : st.svcudpGetargs a f = .ok ⟨false, none, st⟩ := by
  rw [svcudpGetargs, deref_of_some hx]
  change (if x.mtxpProgress .returned = true then _ else _) = _
  rw [if_pos hret]
  rfl

theorem svcudpFreeargs_eq (h : BufInv iosz st log) (hx : st.xprts a = some x)
    (hbytes : st.bufs x.xpPriv.rpcBuffer = some bytes) (f : Filter V) :
    st.svcudpFreeargs a f = (f.run { x.xpPriv.suXdrs.view bytes with xOp := .free } >>= fun r =>
      .ok ⟨r.1, some r.2.1, st.leave a x.xpPriv.rpcBuffer r.2.2
        (RpcMt.svcudpFreeargs x (leaveData x.xpPriv .free r.2.2))⟩) := by
  have hwf := h.wf a x hx
  have hblk : st.bufs { x.xpPriv.suXdrs with xOp := .free }.xPrivate.blk = some bytes := by
    rw [hwf.blk, hbytes]
  rw [svcudpFreeargs, deref_of_some hx]
  change (runFilter f { x.xpPriv.suXdrs with xOp := .free } st.bufs >>= _) = _
  rw [runFilter_eq f hblk]
  change (f.run { x.xpPriv.suXdrs.view bytes with xOp := .free } >>= _) >>= _ = _
  cases f.run { x.xpPriv.suXdrs.view bytes with xOp := .free } with
  | error e => rfl
  | ok r =>
      change Except.ok _ = Except.ok _
      simp only [Xdr.leave, hwf.blk, hwf.base]
      rfl

/-- The reply as it goes out: what `xdr_replymsg` makes of the message with the transport's xid,
written from the start of the buffer, to the transport's remote address. -/
def replyDatagram (x : Svcxprt SvcudpData) (w : View) : Datagram :=
  ⟨x.xpRaddr, if x.xpPriv.pktinfo then sizeofSockaddrIn else x.xpAddrlen,
    w.bytes.take (w.pos % uintRange)⟩

/-- The state in which `svcudp_reply` calls `cache_set`. -/
def encoded (st : UdpState) (a : Addr) (x : Svcxprt SvcudpData) (w : View) : UdpState :=
  st.leave a x.xpPriv.rpcBuffer w { x with xpPriv := leaveData x.xpPriv .encode w }

theorem svcudpReply_eq (h : BufInv iosz st log) (hfits : iosz < uintRange) (hx : st.xprts a = some x)
    (hbytes : st.bufs x.xpPriv.rpcBuffer = some bytes) (xdrReplymsg : ReplyMsg ρ → Filter Unit)
    (msg : ReplyMsg ρ) (sentAll : Bool) (alloc : Option UdpCache.Alloc) :
    st.svcudpReply xdrReplymsg a msg sentAll alloc =
      ((xdrReplymsg { msg with rmXid := x.xpPriv.suXid }).run ⟨.encode, bytes, 0, iosz⟩ >>= fun r =>
        if r.1 = false then .ok ⟨false, none, st.leave a x.xpPriv.rpcBuffer r.2.2
          (RpcMt.svcudpReply x false (leaveData x.xpPriv .encode r.2.2))⟩
        else if (sentAll && x.xpPriv.suCache) = true then
          (({ st with bufs := Function.update st.bufs x.xpPriv.rpcBuffer (some r.2.2.bytes) } :
              UdpState).replyCached (leaveData x.xpPriv .encode r.2.2) (r.2.2.pos % uintRange) alloc >>=
            fun p => .ok ⟨true, some (replyDatagram x r.2.2), p.2.store a (RpcMt.svcudpReply x true p.1)⟩)
        else .ok ⟨sentAll, some (replyDatagram x r.2.2), st.leave a x.xpPriv.rpcBuffer r.2.2
          (RpcMt.svcudpReply x true (leaveData x.xpPriv .encode r.2.2))⟩) := by
  have hwf := h.wf a x hx
  rw [svcudpReply, deref_of_some hx]
  change (xdrmemSetpos { x.xpPriv.suXdrs with xOp := .encode } 0 >>= _) = _
  rw [setpos_start hwf hfits]
  change (runFilter (xdrReplymsg { msg with rmXid := x.xpPriv.suXid })
    (xdrmemCreate x.xpPriv.rpcBuffer iosz .encode) st.bufs >>= _) = _
  rw [runFilter_eq _ (show st.bufs (xdrmemCreate x.xpPriv.rpcBuffer iosz .encode).xPrivate.blk = some bytes
    from hbytes)]
  change (((xdrReplymsg { msg with rmXid := x.xpPriv.suXid }).run ⟨.encode, bytes, 0, iosz⟩ >>= _) >>= _) = _
  cases (xdrReplymsg { msg with rmXid := x.xpPriv.suXid }).run ⟨.encode, bytes, 0, iosz⟩ with
  | error e => rfl
  | ok r =>
      obtain ⟨stat, u, w⟩ := r
      cases stat with
      | false => rfl
      | true =>
          change (readBuf (Function.update st.bufs x.xpPriv.rpcBuffer (some w.bytes)) x.xpPriv.rpcBuffer >>= _)
            = _
          rw [readBuf_of_some (Function.update_self ..)]
          cases sentAll && x.xpPriv.suCache with
          | false => rfl
          | true => rfl

/-! ### The receive -/

theorem length_received {old : List Byte} (hlen : old.length = iosz) (got : List Byte) :
    (received old iosz got).length = iosz := by
  simp only [received, List.length_append, List.length_take, List.length_drop]
  omega

/-- The receive changes the master and its buffer: new contents of the same length, the stream inside
it, and the address of the datagram received last. -/
structure RecvFrame (iosz : Nat) (st : UdpState) (a : Addr) (x : Svcxprt SvcudpData) (o : RecvOutcome)
    (st' : UdpState) (x' : Svcxprt SvcudpData) (bytes : List Byte) : Prop where
  xprts : st'.xprts = Function.update st.xprts a (some x')
  bufs : st'.bufs = Function.update st.bufs x.xpPriv.rpcBuffer (some bytes)
  length : bytes.length = iosz
  wf : Wf iosz x'.xpPriv
  rpcBuffer : x'.xpPriv.rpcBuffer = x.xpPriv.rpcBuffer
  suCache : x'.xpPriv.suCache = x.xpPriv.suCache
  raddr : x'.xpRaddr = o.source x.xpRaddr

/-- The length that a receive reports. -/
def recvLen (iosz : Nat) : RecvOutcome → Nat
  | .datagram _ _ got => (got.take iosz).length
  | _ => sizeMax

/-- What is in the buffer after a receive; one that failed has left there what it found. -/
def recvContents (iosz : Nat) (old : List Byte) : RecvOutcome → List Byte
  | .datagram _ _ got => received old iosz got
  | _ => old

/-- The call message that a receive on the transport at `a` comes up with, if any. -/
def incoming (st : UdpState) (xdrCallmsg : Filter RpcMsg) (a : Addr) (o : RecvOutcome) : Option RpcMsg := do
  let x ← st.xprts a
  let old ← st.bufs x.xpPriv.rpcBuffer
  let iosz := x.xpPriv.suIosz
  if recvLen iosz o < 4 * 4 then none
  else
    match xdrCallmsg.run ⟨.decode, recvContents iosz old o, 0, iosz⟩ with
    | .ok (true, msg, _) => some msg
    | _ => none

theorem incoming_eq (h : BufInv iosz st log) (hx : st.xprts a = some x)
    (hbytes : st.bufs x.xpPriv.rpcBuffer = some bytes) (xdrCallmsg : Filter RpcMsg) (o : RecvOutcome) :
    st.incoming xdrCallmsg a o =
      if recvLen iosz o < 4 * 4 then none
      else match xdrCallmsg.run ⟨.decode, recvContents iosz bytes o, 0, iosz⟩ with
        | .ok (true, msg, _) => some msg
        | _ => none := by
  simp only [incoming, hx, hbytes, (h.wf a x hx).iosz_eq, Option.bind_eq_bind, Option.bind_some]

theorem recvInto_ok (h : BufInv iosz st log) (hx : st.xprts a = some x) {y : Svcxprt SvcudpData}
    (hy : y.xpPriv = x.xpPriv) (hraddr : y.xpRaddr = x.xpRaddr) {o : RecvOutcome} {rlen : Nat}
    (hbytes : st.bufs x.xpPriv.rpcBuffer = some bytes)
    {x₁ : Svcxprt SvcudpData} {bufs₁ : Bufs} (hrecv : st.recvInto y o = .ok (rlen, x₁, bufs₁)) :
    rlen = recvLen iosz o ∧
      bufs₁ = Function.update st.bufs x.xpPriv.rpcBuffer (some (recvContents iosz bytes o)) ∧
      (recvContents iosz bytes o).length = iosz ∧
      x₁.xpPriv = x.xpPriv ∧ x₁.xpRaddr = o.source x.xpRaddr := by
  have hlen := h.length_eq hx hbytes
  have hsame : st.bufs = Function.update st.bufs x.xpPriv.rpcBuffer (some bytes) := by
    rw [← hbytes, Function.update_eq_self]
  cases o with
  | eintr =>
      cases hrecv
      exact ⟨rfl, hsame, hlen, hy, hraddr⟩
  | failed =>
      cases hrecv
      exact ⟨rfl, hsame, hlen, hy, hraddr⟩
  | datagram src addrlen got =>
      obtain ⟨old, hold, hpure⟩ := bind_ok hrecv
      have hold' := readBuf_ok hold
      rw [hy, hbytes] at hold'
      cases hold'
      cases hpure
      refine ⟨?_, ?_, length_received hlen got, hy, rfl⟩
      · rw [hy, (h.wf a x hx).iosz_eq]
        rfl
      · rw [hy, (h.wf a x hx).iosz_eq]
        rfl

theorem svcudpRecv_ok (h : BufInv iosz st log) (hfits : iosz < uintRange) (hx : st.xprts a = some x)
    {xdrCallmsg : Filter RpcMsg} {o : RecvOutcome} {r : Received}
    (hr : st.svcudpRecv xdrCallmsg a o = .ok r) :
    ∃ x' bytes', RecvFrame iosz st a x o r.st x' bytes' ∧ r.msg = st.incoming xdrCallmsg a o ∧
      ((r.rv = false ∧ r.msg = none ∧ r.hit = none ∧ r.st.cache = st.cache) ∨
        ∃ msg, r.rv = true ∧ r.msg = some msg ∧ x'.xpPriv.suXid = msg.rmXid ∧
          UdpState.recvCached { st with bufs := r.st.bufs } x' msg = .ok (r.hit, r.st.cache)) := by
  have hwf := h.wf a x hx
  obtain ⟨bytes, hbytes, hlen⟩ := h.buf a x hx
  rw [incoming_eq h hx hbytes]
  obtain ⟨x₀, hx₀, hr⟩ := bind_ok hr
  cases hx.symm.trans (deref_ok hx₀)
  obtain ⟨⟨rlen, x₁, bufs₁⟩, hrecv, hr⟩ := bind_ok hr
  obtain ⟨rfl, rfl, hlen₁, hpriv₁, hraddr₁⟩ :=
    recvInto_ok h hx (y := x.clrProgress .doneRecv) rfl rfl hbytes hrecv
  dsimp only at hr
  have hwf₁ : Wf iosz x₁.xpPriv := hpriv₁ ▸ hwf
  have hrpc : x₁.xpPriv.rpcBuffer = x.xpPriv.rpcBuffer := by rw [hpriv₁]
  have hsu : x₁.xpPriv.suCache = x.xpPriv.suCache := by rw [hpriv₁]
  split at hr
  · rename_i hshort
    cases hr
    exact ⟨_, recvContents iosz bytes o, ⟨rfl, rfl, hlen₁, hwf₁, hrpc, hsu, hraddr₁⟩,
      by rw [if_pos hshort], Or.inl ⟨rfl, rfl, rfl, rfl⟩⟩
  rename_i hlong
  rw [if_neg hlong]
  obtain ⟨xdrs, hpos, hr⟩ := bind_ok hr
  rw [setpos_start hwf₁ hfits] at hpos
  cases hpos
  obtain ⟨⟨ok, msg, xdrs₂, bufs₂⟩, hrun, hr⟩ := bind_ok hr
  obtain ⟨bytes', w, hbytes', hw, rfl, rfl⟩ := runFilter_ok hrun
  have hbuf : bytes' = recvContents iosz bytes o := by
    have hself : Function.update st.bufs x.xpPriv.rpcBuffer (some (recvContents iosz bytes o))
        x₁.xpPriv.rpcBuffer = some (recvContents iosz bytes o) := by
      rw [hrpc, Function.update_self]
    exact Option.some.inj (hbytes'.symm.trans hself)
  subst hbuf
  have hrun' : xdrCallmsg.run ⟨.decode, recvContents iosz bytes o, 0, iosz⟩ = .ok (ok, msg, w) := hw
  rw [hrun']
  obtain ⟨_, hwlen, hwroom⟩ := xdrCallmsg.frame hw
  have hroom : w.pos + w.handy = iosz := hwroom.trans (Nat.zero_add _)
  have hwlen' : w.bytes.length = iosz := hwlen.trans hlen₁
  have hbufs : Function.update (Function.update st.bufs x.xpPriv.rpcBuffer
      (some (recvContents iosz bytes o))) x₁.xpPriv.rpcBuffer (some w.bytes) =
      Function.update st.bufs x.xpPriv.rpcBuffer (some w.bytes) := by
    rw [hrpc, Function.update_idem]
  dsimp only at hr
  cases ok with
  | false =>
      cases hr
      refine ⟨_, w.bytes, ⟨rfl, hbufs, hwlen', ?_, hrpc, hsu, hraddr₁⟩, rfl,
        Or.inl ⟨rfl, rfl, rfl, rfl⟩⟩
      exact ⟨rfl, rfl, hroom, hwf₁.iosz_eq, hwf₁.bufsz⟩
  | true =>
      obtain ⟨⟨hit, cache⟩, hcached, hr⟩ := bind_ok hr
      cases hr
      refine ⟨_, w.bytes, ⟨rfl, hbufs, hwlen', ?_, hrpc, hsu, hraddr₁⟩, rfl,
        Or.inr ⟨msg, rfl, rfl, rfl, hcached⟩⟩
      exact ⟨rfl, rfl, hroom, hwf₁.iosz_eq, hwf₁.bufsz⟩

/-- The entry that a lookup for `xid` finds among the last stores. -/
def lookup (c : UdpCache) (xid : Nat) (log : List Store) : Option Store :=
  (log.take c.ucSize).find? fun e => c.wanted xid e.stored

/-- What a lookup comes to: the newest store under the xid of the request and the fields that the
header has saved, sent off to the address of the request; the header saves the fields of the
request when there is none. -/
structure Looked (c : UdpCache) (log : List Store) (bufs : Bufs) (x' : Svcxprt SvcudpData) (msg : RpcMsg)
    (hit : Option (CacheNode × Datagram)) (cache' : Option UdpCache) : Prop where
  cache_eq : cache' = some (if hit.isSome then c else { c with ucCaller := msg.caller x'.xpRaddr })
  found : hit.map (fun p => p.1.stored) = (lookup c x'.xpPriv.suXid log).map Store.stored
  sent : ∀ ent dg, hit = some (ent, dg) → ∃ bytes, bufs ent.cacheReply = some bytes ∧
    dg = ⟨x'.xpRaddr, x'.xpAddrlen, bytes.take ent.cacheReplylen⟩

theorem recvCached_ok (h : BufInv iosz st log) {c : UdpCache} (hc : st.cache = some c) {bufs : Bufs}
    {x' : Svcxprt SvcudpData} (hsu : x'.xpPriv.suCache = true) {msg : RpcMsg}
    {hit : Option (CacheNode × Datagram)} {cache' : Option UdpCache}
    (hr : recvCached { st with bufs := bufs } x' msg = .ok (hit, cache')) :
    Looked c log bufs x' msg hit cache' := by
  simp only [recvCached, hsu, if_true, hc] at hr
  obtain ⟨_, hgot, _⟩ := bind_ok hr
  obtain ⟨recent, href⟩ := h.cache c hc (UdpCache.size_pos_of_cacheGet hgot)
  obtain ⟨⟨found, c'⟩, hget, hfound, hc'⟩ := UdpCache.cacheGet_spec href x'.xpPriv.suXid msg x'.xpRaddr
  rw [hget] at hr
  have hlook : found.map CacheNode.stored = (lookup c x'.xpPriv.suXid log).map Store.stored := by
    rw [hfound, ← List.map_take, List.find?_map]
    rfl
  cases found with
  | none =>
      cases hr
      refine ⟨?_, hlook, fun ent dg heq => by cases heq⟩
      rw [hc']
      rfl
  | some ent =>
      obtain ⟨bytes, hbytes, hpure⟩ := bind_ok (show (readBuf bufs ent.cacheReply >>= _) = _ from hr)
      cases hpure
      refine ⟨?_, hlook, fun ent' dg heq => ?_⟩
      · rw [hc']
        rfl
      · cases heq
        exact ⟨bytes, readBuf_ok hbytes, rfl⟩

theorem recvCached_none {bufs : Bufs} {x' : Svcxprt SvcudpData} (hsu : x'.xpPriv.suCache = false)
    {msg : RpcMsg} {hit : Option (CacheNode × Datagram)} {cache' : Option UdpCache}
    (hr : recvCached { st with bufs := bufs } x' msg = .ok (hit, cache')) :
    hit = none ∧ cache' = st.cache := by
  simp only [recvCached, hsu, Bool.false_eq_true, if_false] at hr
  cases hr
  exact ⟨rfl, rfl⟩

theorem RecvFrame.bufInv {o : RecvOutcome} {st' : UdpState} {x' : Svcxprt SvcudpData}
    (hf : RecvFrame iosz st a x o st' x' bytes) (h : BufInv iosz st log) (hx : st.xprts a = some x) :
    BufInv iosz { st' with cache := st.cache } log := by
  have hown := h.own hx hf.wf hf.rpcBuffer hf.suCache hf.length
  have heq : { st' with cache := st.cache } =
      { st with bufs := Function.update st.bufs x.xpPriv.rpcBuffer (some bytes) }.store a x' := by
    rw [hf.xprts, hf.bufs]
    rfl
  rwa [heq]

/-- A receive keeps everybody's buffer apart. -/
theorem svcudpRecv_bufInv (h : BufInv iosz st log) (hfits : iosz < uintRange) (hx : st.xprts a = some x)
    {xdrCallmsg : Filter RpcMsg} {o : RecvOutcome} {r : Received}
    (hr : st.svcudpRecv xdrCallmsg a o = .ok r) : BufInv iosz r.st log := by
  obtain ⟨x', bytes, hf, _, hcases⟩ := svcudpRecv_ok h hfits hx hr
  have hinv := hf.bufInv h hx
  have hsu := hf.suCache.trans (h.suCache a x hx)
  have hsame : r.st.cache = st.cache → BufInv iosz r.st log := by
    intro heq
    rwa [← heq] at hinv
  rcases hcases with ⟨_, _, _, hcache⟩ | ⟨msg, _, _, _, hcached⟩
  · exact hsame hcache
  · cases hc : st.cache with
    | none =>
        rw [hc] at hsu
        exact hsame (recvCached_none hsu hcached).2
    | some c =>
        rw [hc] at hsu
        have hlooked := (recvCached_ok h hc hsu hcached).cache_eq
        split at hlooked
        · exact hsame (hlooked.trans hc.symm)
        · have hsaved := hinv.saved hc (msg.caller x'.xpRaddr)
          rwa [← hlooked] at hsaved

theorem mem_held_of_lookup {c : UdpCache} (hc : st.cache = some c) {xid : Nat} {e : Store}
    (he : lookup c xid log = some e) : e ∈ st.held log := by
  rw [held, hc]
  exact List.mem_of_find?_eq_some he

theorem of_lookup {c : UdpCache} {xid : Nat} {e : Store} (he : lookup c xid log = some e) :
    e.stored.xid = xid ∧ e.stored.caller = c.ucCaller := by
  have hw := List.find?_some he
  exact of_decide_eq_true hw

/-- What a receive does with a message: it always returns TRUE, and sends the reply that the lookup
finds to the sender. -/
theorem svcudpRecv_hit (h : BufInv iosz st log) (hfits : iosz < uintRange) (hx : st.xprts a = some x)
    {c : UdpCache} (hc : st.cache = some c) {xdrCallmsg : Filter RpcMsg} {o : RecvOutcome} {r : Received}
    (hr : st.svcudpRecv xdrCallmsg a o = .ok r) {msg : RpcMsg} (hmsg : r.msg = some msg) :
    r.rv = true ∧ (lookup c msg.rmXid log = none → r.hit = none) ∧
      ∀ e, lookup c msg.rmXid log = some e → ∃ ent addrlen,
        r.hit = some (ent, ⟨o.source x.xpRaddr, addrlen, e.bytes⟩) ∧ ent.stored = e.stored := by
  obtain ⟨x', bytes, hf, _, hcases⟩ := svcudpRecv_ok h hfits hx hr
  rcases hcases with ⟨_, hnone, _, _⟩ | ⟨msg', hrv, hmsg', hxid, hcached⟩
  · rw [hnone] at hmsg
    cases hmsg
  cases hmsg.symm.trans hmsg'
  have hsu := hf.suCache.trans (h.suCache a x hx)
  rw [hc] at hsu
  have hlooked := recvCached_ok h hc hsu hcached
  have hfound := hlooked.found
  rw [hxid] at hfound
  refine ⟨hrv, fun hno => ?_, fun e he => ?_⟩
  · rw [hno] at hfound
    exact Option.map_eq_none_iff.mp hfound
  · rw [he] at hfound
    obtain ⟨⟨ent, dg⟩, hhit, hstored⟩ := Option.map_eq_some_iff.mp hfound
    obtain ⟨bytes', hbytes', hdg⟩ := hlooked.sent ent dg hhit
    -- The entry's buffer is not the master's, so it still holds what was kept in it.
    have hmem := mem_held_of_lookup hc he
    obtain ⟨kept, hkept, _, htake⟩ := h.kept e hmem
    have hreply : ent.cacheReply = e.stored.reply := congrArg Stored.reply hstored
    have hlen : ent.cacheReplylen = e.stored.replylen := congrArg Stored.replylen hstored
    rw [hreply, hf.bufs, Function.update_of_ne (h.cross a x hx e hmem), hkept] at hbytes'
    cases hbytes'
    rw [hlen, htake, hf.raddr] at hdg
    exact ⟨ent, x'.xpAddrlen, by rw [hhit, hdg], hstored⟩

end RpcMt.UdpState
