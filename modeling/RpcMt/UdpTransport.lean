import RpcMt.UdpCache
import RpcMt.Worker

/-! The UDP transport of `svc_udp.c`: one master, the clones made of it, the buffers they own and the
cache they share. Only the thread that created the master receives on it, which is what
`svcudp_recv_with_id_lock` checks. The address data behind `sendmsg` (`msg_control`) is left out: it
bears on the source address of a reply, not on its destination. -/

namespace RpcMt

/-- A datagram handed to `sendmsg` or `sendto`. -/
structure Datagram where
  dest : SockaddrIn
  destlen : Nat
  bytes : List Byte
  deriving DecidableEq, Repr

/-- How one `recvmsg` or `recvfrom` ends. -/
inductive RecvOutcome where
  | eintr
  | failed
  | datagram (src : SockaddrIn) (addrlen : Nat) (bytes : List Byte)

/-- The source of a datagram; a failed receive leaves the last one in place. -/
def RecvOutcome.source (last : SockaddrIn) : RecvOutcome → SockaddrIn
  | .datagram src _ _ => src
  | _ => last

/-- The reply message a service hands to `svc_sendreply`; `svcudp_reply` fills in the xid. -/
structure ReplyMsg (ρ : Type) where
  rmXid : Nat
  body : ρ

structure UdpState where
  bufs : Bufs
  cache : Option UdpCache
  xprts : Addr → Option (Svcxprt SvcudpData)

def sizeofSockaddrIn : Nat := 16

namespace UdpState

variable {V ρ : Type} (s : UdpState)

def deref (a : Addr) : Res (Svcxprt SvcudpData) :=
  match s.xprts a with
  | none => .error .badPointer
  | some x => .ok x

def store (a : Addr) (x : Svcxprt SvcudpData) : UdpState :=
  { s with xprts := Function.update s.xprts a (some x) }

/-- What a buffer of `iosz` bytes holds after `bytes` have been received into it. -/
def received (old : List Byte) (iosz : Nat) (bytes : List Byte) : List Byte :=
  bytes.take iosz ++ old.drop (bytes.take iosz).length

/-- The `again` loop: an interrupted receive is repeated. -/
def recvLoop : List RecvOutcome → Option RecvOutcome
  | [] => none
  | .eintr :: os => recvLoop os
  | o :: _ => some o

/-- The receive itself: the length it reports as a `size_t`, and the transport and buffers it leaves.
A failed receive reports `(size_t)(-1)` and leaves both buffer and address alone. -/
def recvInto (x : Svcxprt SvcudpData) : RecvOutcome → Res (Nat × Svcxprt SvcudpData × Bufs)
  | .datagram src addrlen bytes => do
      let old ← readBuf s.bufs x.xpPriv.rpcBuffer
      let iosz := x.xpPriv.suIosz
      pure ((bytes.take iosz).length, { x with xpRaddr := src, xpAddrlen := addrlen },
        Function.update s.bufs x.xpPriv.rpcBuffer (some (received old iosz bytes)))
  | _ => .ok (sizeMax, { x with xpAddrlen := sizeofSockaddrIn }, s.bufs)

/-- What `svcudp_recv` answers: its status, the message it decoded, the entry that `cache_get` found
for it and the datagram that was sent from there. -/
structure Received where
  rv : Bool
  msg : Option RpcMsg
  hit : Option (CacheNode × Datagram)
  st : UdpState

/-- The cache lookup of `svcudp_recv`, which answers a retransmission on the spot. -/
def recvCached (x : Svcxprt SvcudpData) (msg : RpcMsg) :
    Res (Option (CacheNode × Datagram) × Option UdpCache) :=
  if x.xpPriv.suCache then
    match s.cache with
    | none => .error .badPointer
    | some c => do
        let (hit, c') ← c.cacheGet x.xpPriv.suXid msg x.xpRaddr
        match hit with
        | none => pure (none, some c')
        | some ent => do
            let bytes ← readBuf s.bufs ent.cacheReply
            pure (some (ent, ⟨x.xpRaddr, x.xpAddrlen, bytes.take ent.cacheReplylen⟩), some c')
  else .ok (none, s.cache)

/-- `svcudp_recv` on the transport at `a`, once its receive has ended with `o`. A hit in the cache
returns TRUE, like a miss. -/
def svcudpRecv (xdrCallmsg : Filter RpcMsg) (a : Addr) (o : RecvOutcome) : Res Received := do
  let x ← s.deref a
  let (rlen, x, bufs) ← s.recvInto (x.clrProgress .doneRecv) o
  let s := { s with bufs := bufs }
  if rlen < 4 * 4 then pure ⟨false, none, none, s.store a (x.setProgress .doneRecv)⟩
  else do
    let xdrs ← xdrmemSetpos { x.xpPriv.suXdrs with xOp := .decode } 0
    let (ok, msg, xdrs, bufs) ← runFilter xdrCallmsg xdrs s.bufs
    let s := { s with bufs := bufs }
    let x := { x with xpPriv := { x.xpPriv with suXdrs := xdrs } }
    if !ok then pure ⟨false, none, none, s.store a (x.setProgress .doneRecv)⟩
    else do
      let x := { x with xpPriv := { x.xpPriv with suXid := msg.rmXid } }
      let (hit, cache) ← s.recvCached x msg
      pure ⟨true, some msg, hit, { s with cache := cache }.store a (x.setProgress .doneRecv)⟩

/-- The stream of a clone: a new one over the clone's buffer, put to where the master's stands. -/
def cloneXdrs (xdrs1 : Xdr) (buf : BufId) (iosz : Nat) : Xdr :=
  let xdrs2 := xdrmemCreate buf iosz .decode
  { xdrs2 with
    xOp := xdrs1.xOp
    xHandy := xdrs1.xHandy
    xPrivate := ⟨xdrs2.xPrivate.blk, xdrs2.xPrivate.off + xdrs1.xPrivate.off⟩ }

/-- `svcudp_xprt_clone` of the transport at `a` into `a2`, with `buf` from `malloc`. -/
def svcudpXprtClone (a a2 : Addr) (buf : BufId) : Res UdpState := do
  let x1 ← s.deref a
  let su1 := x1.xpPriv
  let bytes ← readBuf s.bufs su1.rpcBuffer
  if bytes.length < su1.mtxpBufsz then .error .slotOutOfBounds
  else
    let su2 := { su1 with rpcBuffer := buf, suXdrs := cloneXdrs su1.suXdrs buf su1.suIosz }
    pure { s.store a2 (x1.cloneXprt su2) with
      bufs := Function.update s.bufs buf (some (bytes.take su1.mtxpBufsz)) }

/-- What `svcudp_getargs` answers: the status, and the value when the filter ran. -/
structure Decoded (V : Type) where
  rv : Bool
  val : Option V
  st : UdpState

def svcudpGetargs (a : Addr) (f : Filter V) : Res (Decoded V) := do
  let x ← s.deref a
  if x.mtxpProgress .returned then pure ⟨false, none, s⟩
  else do
    let (rv, v, xdrs, bufs) ← runFilter f x.xpPriv.suXdrs s.bufs
    pure ⟨rv, some v, { s with bufs := bufs }.store a
      (RpcMt.svcudpGetargs x { x.xpPriv with suXdrs := xdrs })⟩

def svcudpFreeargs (a : Addr) (f : Filter V) : Res (Decoded V) := do
  let x ← s.deref a
  let (rv, v, xdrs, bufs) ← runFilter f { x.xpPriv.suXdrs with xOp := .free } s.bufs
  pure ⟨rv, some v, { s with bufs := bufs }.store a
    (RpcMt.svcudpFreeargs x { x.xpPriv with suXdrs := xdrs })⟩

/-- What `svcudp_reply` answers: its status and the datagram it handed to the system. -/
structure Replied where
  stat : Bool
  sent : Option Datagram
  st : UdpState

/-- The call of `cache_set` in `svcudp_reply`. -/
def replyCached (su : SvcudpData) (slen : Nat) (alloc : Option UdpCache.Alloc) :
    Res (SvcudpData × UdpState) :=
  match s.cache with
  | none => .error .badPointer
  | some c => do
      let (c', su', bufs) ← c.cacheSet su slen alloc s.bufs
      pure (su', { s with cache := some c', bufs := bufs })

/-- `svcudp_reply`. `sentAll` is whether the system sent as many bytes as it was given; `alloc` is what
`malloc` gives `cache_set`. -/
def svcudpReply (xdrReplymsg : ReplyMsg ρ → Filter Unit) (a : Addr) (msg : ReplyMsg ρ) (sentAll : Bool)
    (alloc : Option UdpCache.Alloc) : Res Replied := do
  let x ← s.deref a
  let xdrs ← xdrmemSetpos { x.xpPriv.suXdrs with xOp := .encode } 0
  let msg := { msg with rmXid := x.xpPriv.suXid }
  let (stat, _, xdrs, bufs) ← runFilter (xdrReplymsg msg) xdrs s.bufs
  let s := { s with bufs := bufs }
  let su := { x.xpPriv with suXdrs := xdrs }
  if !stat then pure ⟨false, none, s.store a (RpcMt.svcudpReply x false su)⟩
  else do
    let slen := xdrmemGetpos xdrs
    let bytes ← readBuf bufs su.rpcBuffer
    let destlen := if su.pktinfo then sizeofSockaddrIn else x.xpAddrlen
    let sent := ⟨x.xpRaddr, destlen, bytes.take slen⟩
    if sentAll && su.suCache then do
      let (su, s) ← s.replyCached su slen alloc
      pure ⟨true, some sent, s.store a (RpcMt.svcudpReply x true su)⟩
    else pure ⟨sentAll, some sent, s.store a (RpcMt.svcudpReply x true su)⟩

/-- `svcudp_destroy`: the buffer and the transport are freed. -/
def svcudpDestroy (a : Addr) : Res UdpState := do
  let x ← s.deref a
  pure { s with
    bufs := Function.update s.bufs x.xpPriv.rpcBuffer none
    xprts := Function.update s.xprts a none }

end UdpState

end RpcMt
