import RpcMt.Runs
import RpcMt.UdpOps

/-! A UDP master and its clones at work: the dispatch thread receives on the master and clones it, a
worker on each clone decodes, replies and returns, and returned clones are destroyed, in any order.
Beside the state of the program the machine keeps what it is all about: for each transport the request
it serves, with the calls its worker has made and the view that the master's stream had when the
clone was made; the stores of the cache; and the hits. -/

open RpcMt.Runs

namespace RpcMt

/-- The message filters of libc. -/
structure Codec (ρ : Type) where
  xdrCallmsg : Filter RpcMsg
  xdrReplymsg : ReplyMsg ρ → Filter Unit

/-- `xdr_callmsg` on a message with empty credentials and verifier: ten words. -/
def xdrNullCallmsg : Filter RpcMsg :=
  (getWords 10).seq ⟨0, 0, 0, 0, 0⟩ fun
    | [xid, direction, rpcvers, prog, vers, proc, flavor, credLen, _, verfLen] =>
        .done (direction == 0 && rpcvers == 2 && credLen == 0 && verfLen == 0) ⟨xid, prog, vers, proc, flavor⟩
    | _ => .done false ⟨0, 0, 0, 0, 0⟩

/-- The filters on accepted calls without credentials; the results of a reply are words. -/
def nullCodec : Codec (List Nat) where
  xdrCallmsg := xdrNullCallmsg
  xdrReplymsg msg := putWords ([msg.rmXid, 1, 0, 0, 0, 0] ++ msg.body)

/-- A call without credentials, as a client sends it. -/
def nullCall (xid prog vers proc : Nat) (args : List Nat) : List Byte :=
  ([xid, 0, 2, prog, vers, proc, 0, 0, 0, 0] ++ args).flatMap htonl

/-- A call of a worker that runs a filter on its transport's stream. -/
inductive OwnOp (V ρ : Type) where
  | getargs (f : Filter V)
  | freeargs (f : Filter V)
  | reply (msg : ReplyMsg ρ)

variable {V ρ : Type}

/-- What a call does to a stream that nobody else touches. -/
def OwnOp.apply (k : Codec ρ) (v : View) : OwnOp V ρ → Res View
  | .getargs f => do
      let (_, _, w) ← f.run v
      pure w
  | .freeargs f => do
      let (_, _, w) ← f.run { v with xOp := .free }
      pure w
  | .reply msg => do
      let (_, _, w) ← (k.xdrReplymsg msg).run (v.rewound .encode)
      pure w

/-- The view after some calls on a stream that nobody else touches. -/
def replay (k : Codec ρ) : View → List (OwnOp V ρ) → Res View
  | v, [] => .ok v
  | v, op :: ops => do
      let w ← op.apply k v
      replay k w ops

theorem replay_append (k : Codec ρ) (v : View) (ops : List (OwnOp V ρ)) (op : OwnOp V ρ) :
    replay k v (ops ++ [op]) = (replay k v ops >>= fun w => op.apply k w) := by
  induction ops generalizing v with
  | nil =>
      change (op.apply k v >>= fun w => .ok w) = op.apply k v
      cases op.apply k v <;> rfl
  | cons op' ops ih =>
      change (op'.apply k v >>= fun w => replay k w (ops ++ [op])) = _
      cases hop : op'.apply k v with
      | error e => simp [replay, hop, Bind.bind, Except.bind]
      | ok w =>
          change replay k w (ops ++ [op]) = _
          rw [ih w, replay, hop]
          rfl

/-- The request that a transport serves. -/
structure Request (V ρ : Type) where
  xid : Nat
  caller : Caller
  snapshot : View
  ran : List (OwnOp V ρ)

/-- A request answered from the cache: its key, the entry found for it, and what was sent. -/
structure Hit where
  xid : Nat
  caller : Caller
  found : Stored
  sent : Datagram

structure UdpServer (V ρ : Type) where
  st : UdpState
  lastSrc : SockaddrIn
  pending : Option RpcMsg
  requests : Addr → Option (Request V ρ)
  stores : List Store
  hits : List Hit

inductive UdpEvent (V ρ : Type) where
  | recv (os : List RecvOutcome)
  | clone (a2 : Addr) (buf : BufId)
  | getargs (a : Addr) (f : Filter V)
  | freeargs (a : Addr) (f : Filter V)
  | reply (a : Addr) (msg : ReplyMsg ρ) (sentAll : Bool) (alloc : Option UdpCache.Alloc)
  | ret (a : Addr)
  | destroy (a : Addr)

def UdpEvent.isRecv : UdpEvent V ρ → Bool
  | .recv _ => true
  | _ => false

def UdpEvent.destroys (a : Addr) : UdpEvent V ρ → Bool
  | .destroy b => b == a
  | _ => false

/-- The view that the stream of the transport at `a` has of the transport's buffer. -/
def UdpState.viewAt (st : UdpState) (a : Addr) : View :=
  match st.xprts a with
  | none => ⟨.decode, [], 0, 0⟩
  | some x => x.xpPriv.suXdrs.view ((st.bufs x.xpPriv.rpcBuffer).getD [])

namespace UdpServer

variable (k : Codec ρ) (cfg : Config) (master : Addr) (s : UdpServer V ρ)

def onRecv (o : RecvOutcome) : Res (UdpServer V ρ) := do
  let r ← s.st.svcudpRecv k.xdrCallmsg master o
  let src := o.source s.lastSrc
  match r.msg with
  | none => pure { s with st := r.st, lastSrc := src, pending := none }
  | some msg => pure { s with
      st := r.st
      lastSrc := src
      pending := some msg
      requests := Function.update s.requests master
        (some ⟨msg.rmXid, msg.caller src, r.st.viewAt master, []⟩)
      hits := match r.hit with
        | none => s.hits
        | some (ent, sent) => ⟨msg.rmXid, msg.caller src, ent.stored, sent⟩ :: s.hits }

/-- The request served at `a`, if its worker may run: a clone's any time, the master's while the
message received last is being handled. -/
def serving (a : Addr) : Option (Request V ρ) :=
  if a = master ∧ s.pending.isNone then none else s.requests a

/-- The worker at `a` has made one more call. -/
def record (a : Addr) (r : Request V ρ) (op : OwnOp V ρ) (st : UdpState) : UdpServer V ρ :=
  { s with st := st, requests := Function.update s.requests a (some { r with ran := r.ran ++ [op] }) }

def onGetargs (a : Addr) (r : Request V ρ) (f : Filter V) : Res (UdpServer V ρ) := do
  let d ← s.st.svcudpGetargs a f
  pure (if d.val.isSome then s.record a r (.getargs f) d.st else s)

def onFreeargs (a : Addr) (r : Request V ρ) (f : Filter V) : Res (UdpServer V ρ) := do
  let d ← s.st.svcudpFreeargs a f
  pure (s.record a r (.freeargs f) d.st)

def onReply (a : Addr) (r : Request V ρ) (msg : ReplyMsg ρ) (sentAll : Bool)
    (alloc : Option UdpCache.Alloc) : Res (UdpServer V ρ) := do
  let d ← s.st.svcudpReply k.xdrReplymsg a msg sentAll alloc
  let t := s.record a r (.reply { msg with rmXid := r.xid }) d.st
  match s.st.cache, d.st.cache, d.sent with
  | some c, some c', some sent =>
      pure (if d.stat then { t with stores := UdpState.logged c c' r.xid r.caller sent.bytes s.stores } else t)
  | _, _, _ => pure t

def onRet (a : Addr) : Res (UdpServer V ρ) := do
  let x ← s.st.deref a
  let x' ← svcReturn cfg x
  pure { s with st := s.st.store a x' }

/-- `malloc` hands out unused memory of the size asked for. -/
def allocPossible (a : Addr) : Option UdpCache.Alloc → Bool
  | none => true
  | some m =>
      (s.st.cache.all fun c => (c.nodes m.victim).isNone) && (s.st.bufs m.newbuf).isNone &&
        match s.st.xprts a with
        | none => false
        | some x => m.garbage.length == x.xpPriv.suIosz

def isReturned (a : Addr) : Bool :=
  match s.st.xprts a with
  | none => false
  | some x => x.mtxpProgress .returned

/-- One event, if it can happen. -/
def step : UdpEvent V ρ → Option (UdpServer V ρ)
  | .recv os => match UdpState.recvLoop os with
      | none => none
      | some o => (s.onRecv k master o).toOption
  | .clone a2 buf =>
      if cfg.mtmode != 0 && s.pending.isSome && (s.st.xprts a2).isNone && (s.st.bufs buf).isNone then
        match s.requests master with
        | none => none
        | some r => match s.st.svcudpXprtClone master a2 buf with
            | .error _ => none
            | .ok st => some { s with
                st := st
                pending := none
                requests := Function.update s.requests a2
                  (some { r with snapshot := s.st.viewAt master, ran := [] }) }
      else none
  | .getargs a f => (s.serving master a).bind fun r => (s.onGetargs a r f).toOption
  | .freeargs a f => (s.serving master a).bind fun r => (s.onFreeargs a r f).toOption
  | .reply a msg sentAll alloc =>
      if s.allocPossible a alloc then
        (s.serving master a).bind fun r => (s.onReply k a r msg sentAll alloc).toOption
      else none
  | .ret a => (s.serving master a).bind fun _ => (s.onRet cfg a).toOption
  | .destroy a =>
      if a ≠ master ∧ s.isReturned a then match s.st.svcudpDestroy a with
        | .error _ => none
        | .ok st => some { s with st := st, requests := Function.update s.requests a none }
      else none

/-! What an event that can happen does. -/

section Inversion

variable {s t : UdpServer V ρ} {k : Codec ρ} {cfg : Config} {master a : Addr}

theorem step_recv {os : List RecvOutcome} (hst : s.step k cfg master (.recv os) = some t) :
    ∃ o, UdpState.recvLoop os = some o ∧ s.onRecv k master o = .ok t := by
  simp only [step] at hst
  split at hst
  · cases hst
  · rename_i o ho
    exact ⟨o, ho, toOption_ok hst⟩

theorem step_clone {a2 : Addr} {buf : BufId} (hst : s.step k cfg master (.clone a2 buf) = some t) :
    s.pending.isSome = true ∧ s.st.xprts a2 = none ∧ s.st.bufs buf = none ∧
      ∃ r st, s.requests master = some r ∧ s.st.svcudpXprtClone master a2 buf = .ok st ∧
        t = { s with
          st := st
          pending := none
          requests := Function.update s.requests a2 (some { r with snapshot := s.st.viewAt master, ran := [] }) } := by
  simp only [step] at hst
  split at hst
  · rename_i hcond
    simp only [Bool.and_eq_true, Option.isNone_iff_eq_none] at hcond
    obtain ⟨⟨⟨_, hpending⟩, hfree⟩, hbuf⟩ := hcond
    split at hst
    · cases hst
    · rename_i r hr
      split at hst
      · cases hst
      · rename_i st hclone
        cases hst
        exact ⟨hpending, hfree, hbuf, r, st, hr, hclone, rfl⟩
  · cases hst

theorem step_getargs {f : Filter V} (hst : s.step k cfg master (.getargs a f) = some t) :
    ∃ r, s.serving master a = some r ∧ s.onGetargs a r f = .ok t := by
  obtain ⟨r, hr, hst⟩ := Option.bind_eq_some_iff.mp hst
  exact ⟨r, hr, toOption_ok hst⟩

theorem step_freeargs {f : Filter V} (hst : s.step k cfg master (.freeargs a f) = some t) :
    ∃ r, s.serving master a = some r ∧ s.onFreeargs a r f = .ok t := by
  obtain ⟨r, hr, hst⟩ := Option.bind_eq_some_iff.mp hst
  exact ⟨r, hr, toOption_ok hst⟩

theorem step_reply {msg : ReplyMsg ρ} {sentAll : Bool} {alloc : Option UdpCache.Alloc}
    (hst : s.step k cfg master (.reply a msg sentAll alloc) = some t) :
    s.allocPossible a alloc = true ∧
      ∃ r, s.serving master a = some r ∧ s.onReply k a r msg sentAll alloc = .ok t := by
  simp only [step] at hst
  split at hst
  · rename_i halloc
    obtain ⟨r, hr, hst⟩ := Option.bind_eq_some_iff.mp hst
    exact ⟨halloc, r, hr, toOption_ok hst⟩
  · cases hst

theorem step_ret (hst : s.step k cfg master (.ret a) = some t) :
    ∃ r, s.serving master a = some r ∧ s.onRet cfg a = .ok t := by
  obtain ⟨r, hr, hst⟩ := Option.bind_eq_some_iff.mp hst
  exact ⟨r, hr, toOption_ok hst⟩

theorem step_destroy (hst : s.step k cfg master (.destroy a) = some t) :
    a ≠ master ∧ s.isReturned a = true ∧ ∃ st, s.st.svcudpDestroy a = .ok st ∧
      t = { s with st := st, requests := Function.update s.requests a none } := by
  simp only [step] at hst
  split at hst
  · rename_i hcond
    split at hst
    · cases hst
    · rename_i st hdestroy
      cases hst
      exact ⟨hcond.1, hcond.2, st, hdestroy, rfl⟩
  · cases hst

end Inversion

/-- The size of the buffer, computed in `u_int`. -/
def svcudpBufsize (sendsz recvsz : Nat) : Nat := (max sendsz recvsz + 3) % uintRange / 4 * 4

/-- The transport that `svcudp_bufcreate` makes, registered under `id`; `cached` tells whether
`svcudp_enablecache` has been called on it since. -/
def svcudpBufcreate (sock port id sendsz recvsz : Nat) (pktinfo : Bool) (buf : BufId) (cached : Bool) :
    Svcxprt SvcudpData :=
  let bufsize := svcudpBufsize sendsz recvsz
  { Svcxprt.newXprt sock port true
      { rpcBuffer := buf
        mtxpBufsz := bufsize
        pktinfo := pktinfo
        suIosz := bufsize
        suXid := 0
        suXdrs := xdrmemCreate buf bufsize .decode
        suCache := cached } .idle with
    mtxpId := id }

/-- The master before its first request. Its buffer holds whatever the memory held. -/
def start (sock port id sendsz recvsz : Nat) (pktinfo : Bool) (buf : BufId) (garbage : Nat → Byte)
    (cache : Option UdpCache) : UdpServer V ρ :=
  { st :=
      { bufs := Function.update (fun _ => none) buf
          (some ((List.range (svcudpBufsize sendsz recvsz)).map garbage))
        cache := cache
        xprts := Function.update (fun _ => none) master
          (some (svcudpBufcreate sock port id sendsz recvsz pktinfo buf cache.isSome)) }
    lastSrc := ⟨0, 0, 0, 0⟩
    pending := none
    requests := fun _ => none
    stores := []
    hits := [] }

end UdpServer

end RpcMt
