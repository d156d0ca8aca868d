import RpcMt.Xprt
import RpcMt.XdrMem

/-! The reply cache of `svc_udp.c`: a hash table of linked entries, a ring that names the oldest
entry, and a header that keeps what the last lookup that missed saved of its message. Entries live on
a heap of their own; the loops over a chain run with fuel, and running out of it is the fault of a
loop that does not end. -/

namespace RpcMt

/-- The address of a `struct cache_node`. -/
abbrev NodeId := Nat

/-- `struct svcudp_data`, with the buffer `xp_p1` of the transport, its size `mtxp_bufsz`, and whether
`msg_iovlen` in `xp_pad` is set. All transports of one master share one cache, so `su_cache` is either
null or that one. -/
structure SvcudpData where
  rpcBuffer : BufId
  mtxpBufsz : Nat
  pktinfo : Bool
  suIosz : Nat
  suXid : Nat
  suXdrs : Xdr
  suCache : Bool
  deriving DecidableEq, Repr

/-- The call header that `xdr_callmsg` fills in. -/
structure RpcMsg where
  rmXid : Nat
  cbProg : Nat
  cbVers : Nat
  cbProc : Nat
  oaFlavor : Nat
  deriving DecidableEq, Repr

/-- Procedure, version, program and address: what a key of the cache has besides the xid. -/
@[ext]
structure Caller where
  proc : Nat
  vers : Nat
  prog : Nat
  addr : SockaddrIn
  deriving DecidableEq, Repr

def RpcMsg.caller (msg : RpcMsg) (raddr : SockaddrIn) : Caller :=
  ⟨msg.cbProc, msg.cbVers, msg.cbProg, raddr⟩

structure CacheNode where
  cacheXid : Nat
  cacheCaller : Caller
  cacheReply : BufId
  cacheReplylen : Nat
  cacheNext : Option NodeId
  deriving DecidableEq, Repr

/-- `struct udp_cache` and the heap of its entries. `ucCaller` is `uc_prog`, `uc_vers`, `uc_proc` and
`uc_addr`. -/
structure UdpCache where
  ucSize : Nat
  ucEntries : Nat → Option NodeId
  ucFifo : Nat → Option NodeId
  ucNextvictim : Nat
  ucCaller : Caller
  nodes : NodeId → Option CacheNode

def sparseness : Nat := 4

/-- `calloc` of `n` pointers fails when the number of bytes overflows. -/
def callocFits (n : Nat) : Bool := 8 * n < sizeRange

/-- `svcudp_enablecache` on a transport whose cache pointer is `suCache`. The flags tell which
allocations succeed; the saved fields of the header start as what the memory held. -/
def svcudpEnablecache (suCache : Bool) (size : Nat) (ucOk entriesOk fifoOk : Bool) (garbage : Caller) :
    Option UdpCache :=
  if suCache then none
  else if !ucOk then none
  else if !(entriesOk && callocFits (size * sparseness % sizeRange)) then none
  else if !(fifoOk && callocFits size) then none
  else some
    { ucSize := size
      ucEntries := fun _ => none
      ucFifo := fun _ => none
      ucNextvictim := 0
      ucCaller := garbage
      nodes := fun _ => none }

namespace UdpCache

variable (c : UdpCache)

/-- `CACHE_LOC`, computed in `u_long` and kept in a `u_int`. It is below the number of slots. -/
def cacheLoc (xid : Nat) : Res Nat :=
  let slots := sparseness * c.ucSize % sizeRange
  if slots = 0 then .error .divideByZero else .ok (xid % slots % uintRange)

def node (n : NodeId) : Res CacheNode :=
  match c.nodes n with
  | none => .error .badPointer
  | some ent => .ok ent

/-- What `vicp` points at: the head of a chain or the link of an entry. -/
inductive Vicp where
  | slot (loc : Nat)
  | next (n : NodeId)
  deriving DecidableEq, Repr

def vicp : Vicp → Res (Option NodeId)
  | .slot loc => .ok (c.ucEntries loc)
  | .next n => do
      let ent ← c.node n
      pure ent.cacheNext

def setVicp (p : Option NodeId) : Vicp → Res UdpCache
  | .slot loc => .ok { c with ucEntries := Function.update c.ucEntries loc p }
  | .next n => do
      let ent ← c.node n
      pure { c with nodes := Function.update c.nodes n (some { ent with cacheNext := p }) }

/-- The loop of `cache_set` that looks for the victim on its chain. -/
def findVictim (victim : NodeId) : Nat → Vicp → Res (Option Vicp)
  | 0, _ => .error .noReturn
  | fuel + 1, v => do
      match ← c.vicp v with
      | none => pure none
      | some n => if n = victim then pure (some v) else findVictim victim fuel (.next n)

/-- The entry `victim` put in front of the chain `loc` and into the ring. -/
def enter (victim : NodeId) (loc : Nat) (ent : CacheNode) : UdpCache :=
  { c with
    nodes := Function.update c.nodes victim (some { ent with cacheNext := c.ucEntries loc })
    ucEntries := Function.update c.ucEntries loc (some victim)
    ucFifo := Function.update c.ucFifo c.ucNextvictim (some victim)
    ucNextvictim := (c.ucNextvictim + 1) % c.ucSize }

/-- The second half of `cache_set`: the entry `victim` takes over the transport's buffer and the
transport gets `newbuf`. -/
def storeAway (victim : NodeId) (newbuf : BufId) (su : SvcudpData) (replylen : Nat) :
    Res (UdpCache × SvcudpData) := do
  let loc ← c.cacheLoc su.suXid
  pure (c.enter victim loc
      { cacheXid := su.suXid
        cacheCaller := c.ucCaller
        cacheReply := su.rpcBuffer
        cacheReplylen := replylen
        cacheNext := none },
    { su with rpcBuffer := newbuf, suXdrs := xdrmemCreate newbuf su.suIosz .encode })

/-- What `malloc` gives `cache_set` for a new entry: the entry, its buffer, and what that holds. -/
structure Alloc where
  victim : NodeId
  newbuf : BufId
  garbage : List Byte

/-- `cache_set` on the data of a transport, with the buffers it leaves. -/
def cacheSet (su : SvcudpData) (replylen : Nat) (alloc : Option Alloc) (bufs : Bufs) :
    Res (UdpCache × SvcudpData × Bufs) :=
  if c.ucSize ≤ c.ucNextvictim then .error .slotOutOfBounds
  else match c.ucFifo c.ucNextvictim with
    | some victim => do
        let ent ← c.node victim
        let loc ← c.cacheLoc ent.cacheXid
        match ← c.findVictim victim (c.ucSize + 1) (.slot loc) with
        | none => pure (c, su, bufs)
        | some v => do
            let c' ← c.setVicp ent.cacheNext v
            let (c'', su') ← c'.storeAway victim ent.cacheReply su replylen
            pure (c'', su', bufs)
    | none => match alloc with
        | none => .ok (c, su, bufs)
        | some m => do
            let (c', su') ← c.storeAway m.victim m.newbuf su replylen
            pure (c', su', Function.update bufs m.newbuf (some m.garbage))

def cacheMatch (ent : CacheNode) (xid : Nat) : Bool :=
  ent.cacheXid == xid && ent.cacheCaller.proc == c.ucCaller.proc &&
    ent.cacheCaller.vers == c.ucCaller.vers && ent.cacheCaller.prog == c.ucCaller.prog &&
    ent.cacheCaller.addr == c.ucCaller.addr

/-- The loop of `cache_get`. -/
def cacheFind (xid : Nat) : Nat → Option NodeId → Res (Option CacheNode)
  | _, none => .ok none
  | 0, some _ => .error .noReturn
  | fuel + 1, some n => do
      let ent ← c.node n
      if c.cacheMatch ent xid then pure (some ent) else cacheFind xid fuel ent.cacheNext

/-- `cache_get`: the entry found, or the message's fields saved for a later `cache_set`. -/
def cacheGet (xid : Nat) (msg : RpcMsg) (raddr : SockaddrIn) : Res (Option CacheNode × UdpCache) := do
  let loc ← c.cacheLoc xid
  match ← c.cacheFind xid (c.ucSize + 1) (c.ucEntries loc) with
  | some ent => pure (some ent, c)
  | none => pure (none, { c with ucCaller := msg.caller raddr })

end UdpCache

end RpcMt
