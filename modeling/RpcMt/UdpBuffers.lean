import RpcMt.UdpCacheFifo
import RpcMt.UdpLeftovers

/-! Who owns the buffers of a UDP transport with a cache, over every sequence of receives, clonings,
decodings, replies and destructions, on whichever transport and with whatever the filters do: a buffer
belongs to one live transport or to one entry of the cache, it has `su_iosz` bytes, and no call reads
or writes past its end. -/

open RpcMt.Runs

namespace RpcMt

variable {V ρ : Type}

/-- The message filters of libc, as the calls they make. -/
structure ProgCodec (ρ : Type) where
  xdrCallmsg : StreamProg RpcMsg
  xdrReplymsg : ReplyMsg ρ → StreamProg Unit

/-- Words put one after the other. -/
def putWordsProg : List Nat → StreamProg Unit
  | [] => .ret true ()
  | word :: rest => .call (.putint32 word) fun r => if r.ok then putWordsProg rest else .ret false ()

/-- The filters on accepted calls without credentials; the results of a reply are words. -/
def nullProgs : ProgCodec (List Nat) where
  xdrCallmsg := nullCallmsg.prog
  xdrReplymsg msg := putWordsProg ([msg.rmXid, 1, 0, 0, 0, 0] ++ msg.body)

/-- One call on a UDP transport; `buf` and `alloc` come from `malloc`. -/
inductive BufCall (V ρ : Type) where
  | recv (a : Addr) (o : RecvOutcome)
  | clone (a a2 : Addr) (buf : BufId)
  | getargs (a : Addr) (f : StreamProg V)
  | freeargs (a : Addr) (f : StreamProg V)
  | reply (a : Addr) (msg : ReplyMsg ρ) (sentAll : Bool) (alloc : Option UdpCache.Alloc)
  | destroy (a : Addr)

/-- What owns a buffer. -/
inductive Owner where
  | xprt (a : Addr)
  | entry (n : NodeId)

namespace UdpState

instance (st : UdpState) (iosz : Nat) (alloc : Option UdpCache.Alloc) : Decidable (AllocOk st iosz alloc) :=
  match alloc with
  | none => isTrue fun _ h => by cases h
  | some m => decidable_of_iff ((st.cache.all fun c => (c.nodes m.victim).isNone) = true ∧
      st.bufs m.newbuf = none ∧ m.garbage.length = iosz) (by simp [AllocOk, Option.all_eq_true])

/-- The `su_iosz` of the transport at `a`. -/
def iosz (st : UdpState) (a : Addr) : Nat := ((st.xprts a).map fun x => x.xpPriv.suIosz).getD 0

/-- The transport called is live, and `malloc` hands out unused memory of the size asked for. -/
def Possible (st : UdpState) : BufCall V ρ → Prop
  | .recv a _ => (st.xprts a).isSome
  | .clone a a2 buf => (st.xprts a).isSome ∧ st.xprts a2 = none ∧ st.bufs buf = none
  | .getargs a _ => (st.xprts a).isSome
  | .freeargs a _ => (st.xprts a).isSome
  | .reply a _ _ alloc => (st.xprts a).isSome ∧ st.AllocOk (st.iosz a) alloc
  | .destroy a => (st.xprts a).isSome

def bufCall (k : ProgCodec ρ) (failfast : Bool) (st : UdpState) : BufCall V ρ → Res UdpState
  | .recv a o => do
      let r ← st.svcudpRecv (k.xdrCallmsg.filter failfast) a o
      pure r.st
  | .clone a a2 buf => st.svcudpXprtClone a a2 buf
  | .getargs a f => do
      let d ← st.svcudpGetargs a (f.filter failfast)
      pure d.st
  | .freeargs a f => do
      let d ← st.svcudpFreeargs a (f.filter failfast)
      pure d.st
  | .reply a msg sentAll alloc => do
      let d ← st.svcudpReply (fun msg => (k.xdrReplymsg msg).filter failfast) a msg sentAll alloc
      pure d.st
  | .destroy a => st.svcudpDestroy a

def bufStep (k : ProgCodec ρ) (failfast : Bool) (st : UdpState) (e : BufCall V ρ) : Option UdpState :=
  (st.bufCall k failfast e).toOption

/-- A live transport owns its `rpc_buffer`, an entry of the cache owns its `cache_reply`. -/
inductive Owns (st : UdpState) : Owner → BufId → Prop
  | xprt {a : Addr} {x : Svcxprt SvcudpData} (hx : st.xprts a = some x) : Owns st (.xprt a) x.xpPriv.rpcBuffer
  | entry {c : UdpCache} {loc : Nat} {n : NodeId} {ent : CacheNode} (hc : st.cache = some c)
      (hn : c.Reaches loc n) (hent : c.nodes n = some ent) : Owns st (.entry n) ent.cacheReply

/-- Every buffer has one owner, and everything that points into it stays within it. -/
structure Owned (size : Nat) (st : UdpState) : Prop where
  xprt : ∀ a x, st.xprts a = some x → ∃! b, st.Owns (.xprt a) b
  entry : ∀ c loc n, st.cache = some c → c.Reaches loc n → ∃! b, st.Owns (.entry n) b
  once : ∀ o o' b, st.Owns o b → st.Owns o' b → o = o'
  live : ∀ o b, st.Owns o b → ∃ bytes, st.bufs b = some bytes
  sizes : ∀ b bytes, st.bufs b = some bytes → bytes.length = size
  iosz : ∀ a x, st.xprts a = some x → x.xpPriv.suIosz = size
  stream : ∀ a x, st.xprts a = some x → x.xpPriv.suXdrs.xBase = x.xpPriv.rpcBuffer ∧
    x.xpPriv.suXdrs.xPrivate.blk = x.xpPriv.suXdrs.xBase ∧
    x.xpPriv.suXdrs.xPrivate.off + x.xpPriv.suXdrs.xHandy = x.xpPriv.suIosz
  replies : ∀ c loc n ent, st.cache = some c → c.Reaches loc n → c.nodes n = some ent →
    ent.cacheReplylen ≤ size

/-! ### The invariant -/

/-- `BufInv` for some history of stores, with what it leaves out: the buffers nobody may own, the
lengths of the replies kept, and a cache of size 0, which never holds anything. -/
structure BufsInv (iosz size : Nat) (st : UdpState) : Prop where
  fits : iosz < uintRange
  bufInv : ∃ log, BufInv iosz st log ∧ ∀ e ∈ st.held log, e.stored.replylen ≤ iosz
  sizes : ∀ b bytes, st.bufs b = some bytes → bytes.length = iosz
  cache : ∃ c, st.cache = some c ∧ c.ucSize = size ∧ (size = 0 → ∀ loc, c.ucEntries loc = none)

variable {iosz size : Nat} {st : UdpState} {a : Addr} {x : Svcxprt SvcudpData}

theorem sizes_update (h : ∀ b bytes, st.bufs b = some bytes → bytes.length = iosz) {b : BufId}
    {bytes : List Byte} (hlen : bytes.length = iosz) :
    ∀ b' bytes', Function.update st.bufs b (some bytes) b' = some bytes' → bytes'.length = iosz := by
  intro b' bytes' hb'
  rcases update_eq_some hb' with ⟨_, heq⟩ | ⟨_, hold⟩
  · rw [heq]
    exact hlen
  · exact h b' bytes' hold

/-- A call that works on the transport's own buffer only. -/
theorem BufsInv.leave (h : BufsInv iosz size st) (hx : st.xprts a = some x) {w : View} (op : XdrOp)
    (hroom : w.pos + w.handy = iosz) (hlen : w.bytes.length = iosz) {x' : Svcxprt SvcudpData}
    (hpriv : x'.xpPriv = leaveData x.xpPriv op w) :
    BufsInv iosz size (st.leave a x.xpPriv.rpcBuffer w x') := by
  obtain ⟨log, hinv, hreplies⟩ := h.bufInv
  have hwf : Wf iosz x'.xpPriv := by
    rw [hpriv]
    exact wf_leaveData (hinv.wf a x hx) op hroom
  refine ⟨h.fits, ⟨log, hinv.own hx hwf ?_ ?_ hlen, hreplies⟩, sizes_update h.sizes hlen, h.cache⟩
  · rw [hpriv]
    rfl
  · rw [hpriv]
    rfl

/-- What a program leaves on a stream that lies in a buffer of `iosz` bytes. -/
theorem filter_room {α : Type} {f : Filter α} {v w : View} {ok : Bool} {r : α}
    (hroom : v.pos + v.handy = iosz) (hlen : v.bytes.length = iosz) (hrun : f.run v = .ok (ok, r, w)) :
    w.pos + w.handy = iosz ∧ w.bytes.length = iosz := by
  obtain ⟨_, hlen', hroom'⟩ := f.frame hrun
  exact ⟨hroom'.trans hroom, hlen'.trans hlen⟩

/-- What a receive does to the cache: it saves other fields in the header at most. -/
theorem svcudpRecv_cache {log : List Store} (hinv : BufInv iosz st log) (hfits : iosz < uintRange)
    (hx : st.xprts a = some x) {c : UdpCache} (hc : st.cache = some c) {f : Filter RpcMsg}
    {o : RecvOutcome} {r : Received} (hr : st.svcudpRecv f a o = .ok r) :
    ∃ caller, r.st.cache = some { c with ucCaller := caller } := by
  obtain ⟨x', bytes, hf, _, hcases⟩ := svcudpRecv_ok hinv hfits hx hr
  rcases hcases with ⟨_, _, _, hcache⟩ | ⟨msg, _, _, _, hcached⟩
  · exact ⟨c.ucCaller, hcache.trans hc⟩
  · have hsu := hf.suCache.trans (hinv.suCache a x hx)
    rw [hc] at hsu
    have hlooked := (recvCached_ok hinv hc hsu hcached).cache_eq
    split at hlooked
    · exact ⟨c.ucCaller, hlooked⟩
    · exact ⟨_, hlooked⟩

theorem BufsInv.recv (h : BufsInv iosz size st) (hx : st.xprts a = some x) {f : Filter RpcMsg}
    {o : RecvOutcome} {r : Received} (hr : st.svcudpRecv f a o = .ok r) : BufsInv iosz size r.st := by
  obtain ⟨log, hinv, hreplies⟩ := h.bufInv
  obtain ⟨c, hc, hsize, hempty⟩ := h.cache
  obtain ⟨x', bytes, hf, _, _⟩ := svcudpRecv_ok hinv h.fits hx hr
  obtain ⟨caller, hcache⟩ := svcudpRecv_cache hinv h.fits hx hc hr
  refine ⟨h.fits, ⟨log, svcudpRecv_bufInv hinv h.fits hx hr, ?_⟩, ?_, ⟨_, hcache, hsize, hempty⟩⟩
  · have hheld : r.st.held log = st.held log := by
      rw [held, held, hcache, hc]
    rw [hheld]
    exact hreplies
  · rw [hf.bufs]
    exact sizes_update h.sizes hf.length

theorem BufsInv.clone (h : BufsInv iosz size st) (hx : st.xprts a = some x) {a2 : Addr} {buf : BufId}
    (hbuf : st.bufs buf = none) {st' : UdpState} (hst : st.svcudpXprtClone a a2 buf = .ok st') :
    BufsInv iosz size st' := by
  obtain ⟨log, hinv, hreplies⟩ := h.bufInv
  obtain ⟨bytes, hbytes, hlen⟩ := hinv.buf a x hx
  rw [svcudpXprtClone_eq hinv hx hbytes] at hst
  cases hst
  exact ⟨h.fits, ⟨log, hinv.clone hx hbytes hbuf, hreplies⟩, sizes_update h.sizes hlen, h.cache⟩

theorem BufsInv.destroy (h : BufsInv iosz size st) (hx : st.xprts a = some x) {st' : UdpState}
    (hst : st.svcudpDestroy a = .ok st') : BufsInv iosz size st' := by
  obtain ⟨log, hinv, hreplies⟩ := h.bufInv
  rw [svcudpDestroy, deref_of_some hx] at hst
  cases hst
  refine ⟨h.fits, ⟨log, hinv.destroy hx, hreplies⟩, ?_, h.cache⟩
  intro b bytes hb
  exact h.sizes b bytes (update_none_eq_some hb).2

theorem BufsInv.getargs (h : BufsInv iosz size st) (hx : st.xprts a = some x) {f : Filter V}
    {d : Decoded V} (hd : st.svcudpGetargs a f = .ok d) : BufsInv iosz size d.st := by
  obtain ⟨log, hinv, _⟩ := h.bufInv
  obtain ⟨bytes, hbytes, hlen⟩ := hinv.buf a x hx
  cases hret : x.mtxpProgress .returned with
  | true =>
      rw [svcudpGetargs_returned hx hret] at hd
      cases hd
      exact h
  | false =>
      rw [svcudpGetargs_eq hinv hx hbytes hret] at hd
      obtain ⟨⟨ok, v, w⟩, hrun, hd⟩ := bind_ok hd
      cases hd
      obtain ⟨hroom, hwlen⟩ := filter_room (hinv.wf a x hx).room hlen hrun
      refine h.leave hx x.xpPriv.suXdrs.xOp hroom hwlen ?_
      rw [RpcMt.svcudpGetargs, hret]
      rfl

theorem BufsInv.freeargs (h : BufsInv iosz size st) (hx : st.xprts a = some x) {f : Filter V}
    {d : Decoded V} (hd : st.svcudpFreeargs a f = .ok d) : BufsInv iosz size d.st := by
  obtain ⟨log, hinv, _⟩ := h.bufInv
  obtain ⟨bytes, hbytes, hlen⟩ := hinv.buf a x hx
  rw [svcudpFreeargs_eq hinv hx hbytes] at hd
  obtain ⟨⟨ok, v, w⟩, hrun, hd⟩ := bind_ok hd
  cases hd
  obtain ⟨hroom, hwlen⟩ := filter_room
    (v := { x.xpPriv.suXdrs.view bytes with xOp := .free }) (hinv.wf a x hx).room hlen hrun
  exact h.leave hx .free hroom hwlen rfl

/-! ### A reply that is stored -/

/-- The buffers that `cache_set` leaves: the ones it found, or one more. -/
theorem cacheSet_bufs {c c' : UdpCache} {su su' : SvcudpData} {replylen : Nat}
    {alloc : Option UdpCache.Alloc} {bufs bufs' : Bufs}
    (hset : c.cacheSet su replylen alloc bufs = .ok (c', su', bufs')) :
    bufs' = bufs ∨ ∃ m, alloc = some m ∧ bufs' = Function.update bufs m.newbuf (some m.garbage) := by
  unfold UdpCache.cacheSet at hset
  split at hset
  · cases hset
  split at hset
  · obtain ⟨ent, _, hset⟩ := bind_ok hset
    obtain ⟨loc, _, hset⟩ := bind_ok hset
    obtain ⟨v, _, hset⟩ := bind_ok hset
    cases v with
    | none =>
        cases hset
        exact Or.inl rfl
    | some v =>
        obtain ⟨c₁, _, hset⟩ := bind_ok hset
        obtain ⟨⟨c₂, su₂⟩, _, hset⟩ := bind_ok hset
        cases hset
        exact Or.inl rfl
  · cases alloc with
    | none =>
        cases hset
        exact Or.inl rfl
    | some m =>
        obtain ⟨⟨c₁, su₁⟩, _, hset⟩ := bind_ok hset
        cases hset
        exact Or.inr ⟨m, rfl, rfl⟩

/-- The entries held after a store are the new one and some of those held before. -/
theorem held_logged {log : List Store} {c c' : UdpCache} (hc : st.cache = some c)
    (hsize : c'.ucSize = c.ucSize) {xid : Nat} {caller : Caller} {reply : List Byte} {e : Store}
    {st' : UdpState} (hc' : st'.cache = some c') (he : e ∈ st'.held (logged c c' xid caller reply log)) :
    c.storedBy c' = some e.stored ∨ e ∈ st.held log := by
  rw [held, hc'] at he
  rw [held, hc]
  dsimp only at he
  rw [hsize] at he
  unfold logged at he
  split at he
  · exact Or.inr he
  · rename_i stored hst
    cases hk : c.ucSize with
    | zero =>
        rw [hk] at he
        cases he
    | succ k =>
        rw [hk, List.take_succ_cons] at he
        rcases List.mem_cons.mp he with rfl | he
        · exact Or.inl hst
        · right
          show e ∈ log.take c.ucSize
          rw [hk]
          exact List.take_subset_take_left log (Nat.le_succ k) he

/-- A transport that has just encoded a reply exchanges its buffer with the cache. -/
theorem BufsInv.cacheSet (h : BufsInv iosz size st) (hx : st.xprts a = some x)
    {alloc : Option UdpCache.Alloc} (halloc : st.AllocOk iosz alloc) {replylen : Nat}
    (hreplylen : replylen ≤ iosz) {c c' : UdpCache} (hc : st.cache = some c) {su' : SvcudpData}
    {bufs' : Bufs} (hset : c.cacheSet x.xpPriv replylen alloc st.bufs = .ok (c', su', bufs'))
    {x' : Svcxprt SvcudpData} (hpriv : x'.xpPriv = su') :
    BufsInv iosz size ({ st with cache := some c', bufs := bufs' }.store a x') := by
  obtain ⟨log, hinv, hreplies⟩ := h.bufInv
  obtain ⟨c₀, hc₀, hsize, hempty⟩ := h.cache
  cases hc.symm.trans hc₀
  obtain ⟨bytes, hbytes, hlen⟩ := hinv.buf a x hx
  obtain ⟨_, hsize', _, hby⟩ := hinv.cacheSet_frame hc halloc hset
  have hnew : BufInv iosz ({ st with cache := some c', bufs := bufs' }.store a x')
      (logged c c' 0 c.ucCaller (bytes.take replylen) log) := hinv.cacheSet hx hc halloc hbytes rfl hset hpriv
  refine ⟨h.fits, ⟨_, hnew, ?_⟩, ?_, ⟨c', rfl, hsize'.trans hsize, ?_⟩⟩
  · intro e he
    rcases held_logged hc hsize' rfl he with hst | hold
    · rw [hby _ hst]
      exact hreplylen
    · exact hreplies e hold
  · rcases cacheSet_bufs hset with rfl | ⟨m, hm, rfl⟩
    · exact h.sizes
    · exact sizes_update h.sizes (halloc m hm).2.2
  · intro hzero
    have hpos := UdpCache.size_pos_of_cacheSet hset
    omega

/-- What `malloc` may hand out is the same after the reply has been encoded. -/
theorem AllocOk.leave {log : List Store} (hinv : BufInv iosz st log) (hx : st.xprts a = some x)
    {alloc : Option UdpCache.Alloc} (halloc : st.AllocOk iosz alloc) (w : View) (x' : Svcxprt SvcudpData) :
    AllocOk (st.leave a x.xpPriv.rpcBuffer w x') iosz alloc := by
  intro m hm
  obtain ⟨hnodes, hfree, hgarbage⟩ := halloc m hm
  obtain ⟨bytes, hbytes, _⟩ := hinv.buf a x hx
  have hne : m.newbuf ≠ x.xpPriv.rpcBuffer := by
    intro heq
    rw [heq, hbytes] at hfree
    cases hfree
  exact ⟨hnodes, (Function.update_of_ne hne _ _).trans hfree, hgarbage⟩

theorem svcudpReply_xpPriv (y : Svcxprt SvcudpData) (stat : Bool) (su : SvcudpData) :
    (RpcMt.svcudpReply y stat su).xpPriv = su := by
  cases stat with
  | false => rfl
  | true => rfl

theorem BufsInv.reply (h : BufsInv iosz size st) (hx : st.xprts a = some x)
    {alloc : Option UdpCache.Alloc} (halloc : st.AllocOk iosz alloc) {f : ReplyMsg ρ → Filter Unit}
    {msg : ReplyMsg ρ} {sentAll : Bool} {d : Replied} (hd : st.svcudpReply f a msg sentAll alloc = .ok d) :
    BufsInv iosz size d.st := by
  obtain ⟨log, hinv, _⟩ := h.bufInv
  obtain ⟨bytes, hbytes, hlen⟩ := hinv.buf a x hx
  rw [svcudpReply_eq hinv h.fits hx hbytes] at hd
  obtain ⟨⟨stat, u, w⟩, hrun, hd⟩ := bind_ok hd
  obtain ⟨hroom, hwlen⟩ := filter_room (Nat.zero_add iosz) hlen hrun
  have hleft : ∀ stat, BufsInv iosz size (st.leave a x.xpPriv.rpcBuffer w
      (RpcMt.svcudpReply x stat (leaveData x.xpPriv .encode w))) :=
    fun stat => h.leave hx .encode hroom hwlen (svcudpReply_xpPriv ..)
  dsimp only at hd
  split at hd
  · cases hd
    exact hleft false
  split at hd
  · obtain ⟨p, hcached, hd⟩ := bind_ok hd
    cases hd
    obtain ⟨c, hc, hsize, _⟩ := h.cache
    rw [replyCached, hc] at hcached
    obtain ⟨⟨c', su', bufs'⟩, hset, hpure⟩ := bind_ok hcached
    cases hpure
    -- The state in which `cache_set` runs: the reply is in the buffer, nothing is stored yet.
    let x₁ : Svcxprt SvcudpData := { x with xpPriv := leaveData x.xpPriv .encode w }
    have h₁ : BufsInv iosz size (st.leave a x.xpPriv.rpcBuffer w x₁) := h.leave hx .encode hroom hwlen rfl
    have hx₁ : (st.leave a x.xpPriv.rpcBuffer w x₁).xprts a = some x₁ := Function.update_self ..
    have hslen : w.pos % uintRange ≤ iosz := (Nat.mod_le _ _).trans (by omega)
    have hstored := h₁.cacheSet hx₁ (halloc.leave hinv hx w x₁) hslen hc hset
      (svcudpReply_xpPriv x true su')
    have hidem : Function.update (Function.update st.xprts a (some x₁)) a
        (some (RpcMt.svcudpReply x true su')) =
        Function.update st.xprts a (some (RpcMt.svcudpReply x true su')) := Function.update_idem ..
    simp only [UdpState.store, UdpState.leave, hidem] at hstored
    exact hstored
  · cases hd
    exact hleft true

theorem iosz_eq (h : BufsInv iosz size st) (hx : st.xprts a = some x) : st.iosz a = iosz := by
  obtain ⟨log, hinv, _⟩ := h.bufInv
  rw [UdpState.iosz, hx]
  exact (hinv.wf a x hx).iosz_eq

/-- Every call keeps the invariant. -/
theorem BufsInv.step (h : BufsInv iosz size st) {k : ProgCodec ρ} {failfast : Bool} {e : BufCall V ρ}
    (hok : st.Possible e) {st' : UdpState} (hst : st.bufStep k failfast e = some st') :
    BufsInv iosz size st' := by
  have hcall := toOption_ok hst
  cases e with
  | recv a o =>
      obtain ⟨x, hx⟩ := Option.isSome_iff_exists.mp hok
      obtain ⟨r, hr, hpure⟩ := bind_ok hcall
      cases hpure
      exact h.recv hx hr
  | clone a a2 buf =>
      obtain ⟨x, hx⟩ := Option.isSome_iff_exists.mp hok.1
      exact h.clone hx hok.2.2 hcall
  | getargs a f =>
      obtain ⟨x, hx⟩ := Option.isSome_iff_exists.mp hok
      obtain ⟨d, hd, hpure⟩ := bind_ok hcall
      cases hpure
      exact h.getargs hx hd
  | freeargs a f =>
      obtain ⟨x, hx⟩ := Option.isSome_iff_exists.mp hok
      obtain ⟨d, hd, hpure⟩ := bind_ok hcall
      cases hpure
      exact h.freeargs hx hd
  | reply a msg sentAll alloc =>
      obtain ⟨x, hx⟩ := Option.isSome_iff_exists.mp hok.1
      obtain ⟨d, hd, hpure⟩ := bind_ok hcall
      cases hpure
      exact h.reply hx (iosz_eq h hx ▸ hok.2) hd
  | destroy a =>
      obtain ⟨x, hx⟩ := Option.isSome_iff_exists.mp hok
      exact h.destroy hx hcall

/-! ### No call leaves its buffer -/

/-- A filter that leaves the bounds of no stream that lies within its buffer. -/
def StaysIn {α : Type} (f : Filter α) : Prop := ∀ v e, v.InBounds → f.run v = .error e → e = .xdrAbort

theorem staysIn_filter {α : Type} (failfast : Bool) (p : StreamProg α) : StaysIn (p.filter failfast) :=
  fun _ _ hin herr => p.filter_error hin herr

theorem recvCached_safe {log : List Store} (hinv : BufInv iosz st log) {c : UdpCache}
    (hc : st.cache = some c) (hpos : 0 < c.ucSize) {bufs : Bufs}
    (hlive : ∀ e ∈ st.held log, ∃ bytes, bufs e.stored.reply = some bytes)
    (y : Svcxprt SvcudpData) (msg : RpcMsg) : ∃ r, recvCached { st with bufs := bufs } y msg = .ok r := by
  unfold recvCached
  split
  · obtain ⟨recent, href⟩ := hinv.cache c hc hpos
    obtain ⟨⟨found, c'⟩, hget, hfound, _⟩ := UdpCache.cacheGet_spec href y.xpPriv.suXid msg y.xpRaddr
    dsimp only
    rw [hc]
    dsimp only
    rw [hget]
    cases found with
    | none => exact ⟨_, rfl⟩
    | some ent =>
        have hmem := List.mem_of_find?_eq_some hfound.symm
        rw [← List.map_take] at hmem
        obtain ⟨e, he, heq⟩ := List.mem_map.mp hmem
        have hheld : e ∈ st.held log := by
          rw [held, hc]
          exact he
        obtain ⟨bytes, hbytes⟩ := hlive e hheld
        have hreply : e.stored.reply = ent.cacheReply := congrArg Stored.reply heq
        rw [hreply] at hbytes
        exact ⟨_, by
          show (readBuf bufs ent.cacheReply >>= _) = _
          rw [readBuf_of_some hbytes]
          rfl⟩
  · exact ⟨_, rfl⟩

theorem recvInto_safe {y : Svcxprt SvcudpData} {bytes : List Byte}
    (hbytes : st.bufs y.xpPriv.rpcBuffer = some bytes) (o : RecvOutcome) :
    ∃ r, st.recvInto y o = .ok r := by
  cases o with
  | eintr => exact ⟨_, rfl⟩
  | failed => exact ⟨_, rfl⟩
  | datagram src addrlen got =>
      rw [recvInto, readBuf_of_some hbytes]
      exact ⟨_, rfl⟩

theorem runFilter_error {α : Type} {f : Filter α} (hf : StaysIn f) {xdrs : Xdr} {bufs : Bufs}
    {bytes : List Byte} (hbytes : bufs xdrs.xPrivate.blk = some bytes)
    (hin : xdrs.xPrivate.off + xdrs.xHandy ≤ bytes.length) {e : Fault}
    (herr : runFilter f xdrs bufs = .error e) : e = .xdrAbort := by
  rw [runFilter_eq f hbytes] at herr
  rcases bind_error herr with hrun | ⟨r, _, hpure⟩
  · exact hf (xdrs.view bytes) e hin hrun
  · cases hpure

theorem BufsInv.recv_error (h : BufsInv iosz size st) (hx : st.xprts a = some x) {f : Filter RpcMsg}
    (hf : StaysIn f) {o : RecvOutcome} {e : Fault} (herr : st.svcudpRecv f a o = .error e) :
    e = .xdrAbort ∨ size = 0 := by
  obtain ⟨log, hinv, _⟩ := h.bufInv
  obtain ⟨bytes, hbytes, hlen⟩ := hinv.buf a x hx
  have hwf := hinv.wf a x hx
  rw [svcudpRecv, deref_of_some hx] at herr
  obtain ⟨⟨rlen, x₁, bufs₁⟩, hrecv⟩ := recvInto_safe (y := x.clrProgress .doneRecv) hbytes o
  obtain ⟨_, rfl, hlen₁, hpriv₁, _⟩ :=
    recvInto_ok hinv hx (y := x.clrProgress .doneRecv) rfl rfl hbytes hrecv
  change (st.recvInto (x.clrProgress .doneRecv) o >>= _) = _ at herr
  rw [hrecv] at herr
  have hwf₁ : Wf iosz x₁.xpPriv := hpriv₁ ▸ hwf
  have hbuf : Function.update st.bufs x.xpPriv.rpcBuffer (some (recvContents iosz bytes o))
      x₁.xpPriv.rpcBuffer = some (recvContents iosz bytes o) := by
    rw [hpriv₁, Function.update_self]
  change (if rlen < 4 * 4 then _ else _) = _ at herr
  split at herr
  · cases herr
  change (xdrmemSetpos { x₁.xpPriv.suXdrs with xOp := .decode } 0 >>= _) = _ at herr
  rw [setpos_start hwf₁ h.fits] at herr
  rcases bind_error (show (runFilter f (xdrmemCreate x₁.xpPriv.rpcBuffer iosz .decode) _ >>= _) = _ from herr)
    with hrun | ⟨⟨ok, msg, xdrs, bufs⟩, hrun, herr⟩
  · left
    refine runFilter_error hf hbuf ?_ hrun
    rw [hlen₁]
    exact (Nat.zero_add iosz).le
  cases ok with
  | false => cases herr
  | true =>
      obtain ⟨bytes', w, hbytes', _, rfl, rfl⟩ := runFilter_ok hrun
      obtain ⟨c, hc, hsize, _⟩ := h.cache
      rcases Nat.eq_zero_or_pos size with hzero | hpos
      · exact Or.inr hzero
      · exfalso
        have hlive : ∀ e ∈ st.held log, ∃ kept, Function.update (Function.update st.bufs
            x.xpPriv.rpcBuffer (some (recvContents iosz bytes o))) x₁.xpPriv.rpcBuffer (some w.bytes)
            e.stored.reply = some kept := by
          intro e he
          obtain ⟨kept, hkept, _⟩ := hinv.kept e he
          rw [hpriv₁, Function.update_idem, Function.update_of_ne (hinv.cross a x hx e he)]
          exact ⟨kept, hkept⟩
        rcases bind_error herr with hcached | ⟨r, _, hpure⟩
        · obtain ⟨r, hr⟩ := recvCached_safe hinv hc (by omega) hlive _ msg
          cases hr.symm.trans hcached
        · cases hpure

theorem BufsInv.reply_error (h : BufsInv iosz size st) (hx : st.xprts a = some x)
    {alloc : Option UdpCache.Alloc} (halloc : st.AllocOk iosz alloc) {f : ReplyMsg ρ → Filter Unit}
    (hf : ∀ msg, StaysIn (f msg)) {msg : ReplyMsg ρ} {sentAll : Bool} {e : Fault}
    (herr : st.svcudpReply f a msg sentAll alloc = .error e) : e = .xdrAbort ∨ size = 0 := by
  obtain ⟨log, hinv, _⟩ := h.bufInv
  obtain ⟨bytes, hbytes, hlen⟩ := hinv.buf a x hx
  rw [svcudpReply_eq hinv h.fits hx hbytes] at herr
  rcases bind_error herr with hrun | ⟨⟨stat, u, w⟩, hrun, herr⟩
  · left
    refine hf _ _ e ?_ hrun
    show 0 + iosz ≤ bytes.length
    omega
  dsimp only at herr
  split at herr
  · cases herr
  split at herr
  · obtain ⟨c, hc, hsize, _⟩ := h.cache
    rcases Nat.eq_zero_or_pos size with hzero | hpos
    · exact Or.inr hzero
    · exfalso
      obtain ⟨recent, href⟩ := hinv.cache c hc (by omega)
      obtain ⟨r, hset, _⟩ := UdpCache.cacheSet_spec href.inv (leaveData x.xpPriv .encode w)
        (w.pos % uintRange) (Function.update st.bufs x.xpPriv.rpcBuffer (some w.bytes))
        (fun m hm => (halloc m hm).1 c hc)
      rw [replyCached, hc] at herr
      dsimp only at herr
      rw [hset] at herr
      cases herr
  · cases herr

/-- A call on a live transport reads and writes within its buffer: the only fault there is, with a
cache that holds anything, is that of a filter which finds its stream too short and has been told to
abort. -/
theorem BufsInv.call_error (h : BufsInv iosz size st) {k : ProgCodec ρ} {failfast : Bool}
    {call : BufCall V ρ} (hok : st.Possible call) {e : Fault}
    (herr : st.bufCall k failfast call = .error e) : e = .xdrAbort ∨ size = 0 := by
  obtain ⟨log, hinv, _⟩ := h.bufInv
  cases call with
  | recv a o =>
      obtain ⟨x, hx⟩ := Option.isSome_iff_exists.mp hok
      rcases bind_error herr with hrecv | ⟨r, _, hpure⟩
      · exact h.recv_error hx (staysIn_filter failfast k.xdrCallmsg) hrecv
      · cases hpure
  | clone a a2 buf =>
      obtain ⟨x, hx⟩ := Option.isSome_iff_exists.mp hok.1
      obtain ⟨bytes, hbytes, _⟩ := hinv.buf a x hx
      rw [bufCall, svcudpXprtClone_eq hinv hx hbytes] at herr
      cases herr
  | getargs a f =>
      obtain ⟨x, hx⟩ := Option.isSome_iff_exists.mp hok
      obtain ⟨bytes, hbytes, hlen⟩ := hinv.buf a x hx
      have hin : (x.xpPriv.suXdrs.view bytes).InBounds := ((hinv.wf a x hx).room.trans hlen.symm).le
      rcases bind_error herr with hget | ⟨r, _, hpure⟩
      · cases hret : x.mtxpProgress .returned with
        | true =>
            rw [svcudpGetargs_returned hx hret] at hget
            cases hget
        | false =>
            rw [svcudpGetargs_eq hinv hx hbytes hret] at hget
            rcases bind_error hget with hrun | ⟨r, _, hpure⟩
            · exact Or.inl (staysIn_filter failfast f _ e hin hrun)
            · cases hpure
      · cases hpure
  | freeargs a f =>
      obtain ⟨x, hx⟩ := Option.isSome_iff_exists.mp hok
      obtain ⟨bytes, hbytes, hlen⟩ := hinv.buf a x hx
      have hin : View.InBounds { x.xpPriv.suXdrs.view bytes with xOp := .free } :=
        ((hinv.wf a x hx).room.trans hlen.symm).le
      rcases bind_error herr with hfree | ⟨r, _, hpure⟩
      · rw [svcudpFreeargs_eq hinv hx hbytes] at hfree
        rcases bind_error hfree with hrun | ⟨r, _, hpure⟩
        · exact Or.inl (staysIn_filter failfast f _ e hin hrun)
        · cases hpure
      · cases hpure
  | reply a msg sentAll alloc =>
      obtain ⟨x, hx⟩ := Option.isSome_iff_exists.mp hok.1
      rcases bind_error herr with hreply | ⟨r, _, hpure⟩
      · exact h.reply_error hx (iosz_eq h hx ▸ hok.2)
          (fun msg => staysIn_filter failfast (k.xdrReplymsg msg)) hreply
      · cases hpure
  | destroy a =>
      obtain ⟨x, hx⟩ := Option.isSome_iff_exists.mp hok
      rw [bufCall, svcudpDestroy, deref_of_some hx] at herr
      cases herr

/-! ### Every buffer has one owner -/

/-- The entries of the cache are the stores held, one each. -/
theorem BufsInv.entries (h : BufsInv iosz size st) {log : List Store} (hinv : BufInv iosz st log)
    {c : UdpCache} (hc : st.cache = some c) :
    ∃ recent : List NodeId, recent.Nodup ∧ recent.map c.storedAt = (st.held log).map (fun e => some e.stored) ∧
      ∀ loc n, c.Reaches loc n → n ∈ recent := by
  obtain ⟨c₀, hc₀, hsize, hempty⟩ := h.cache
  cases hc.symm.trans hc₀
  rcases Nat.eq_zero_or_pos size with hzero | hpos
  · refine ⟨[], List.nodup_nil, ?_, ?_⟩
    · rw [held, hc]
      dsimp only
      rw [hsize, hzero]
      rfl
    · intro loc n hn
      exfalso
      induction hn with
      | head hhead =>
          rw [hempty hzero loc] at hhead
          cases hhead
      | next _ _ ih => exact ih
  · obtain ⟨recent, href⟩ := hinv.cache c hc (by omega)
    refine ⟨recent, href.inv.nodup, ?_, ?_⟩
    · rw [UdpCache.map_storedAt_eq href.inv.alloc, href.contents_eq, held, hc, ← List.map_take, List.map_map]
      rfl
    · intro loc n hn
      exact List.mem_of_mem_filter ((UdpCache.reaches_iff_mem (href.inv.chains loc) n).mpr hn)

/-- An entry that is reached is one of the stores held. -/
theorem BufsInv.entry_held (h : BufsInv iosz size st) {log : List Store} (hinv : BufInv iosz st log)
    {c : UdpCache} (hc : st.cache = some c) {loc : Nat} {n : NodeId} (hn : c.Reaches loc n) :
    ∃ e ∈ st.held log, ∃ ent, c.nodes n = some ent ∧ ent.stored = e.stored := by
  obtain ⟨recent, _, hmap, hmem⟩ := h.entries hinv hc
  have hin : c.storedAt n ∈ (st.held log).map fun e => some e.stored := by
    rw [← hmap]
    exact List.mem_map_of_mem (hmem loc n hn)
  obtain ⟨e, he, heq⟩ := List.mem_map.mp hin
  obtain ⟨ent, hent, hstored⟩ := Option.map_eq_some_iff.mp heq.symm
  exact ⟨e, he, ent, hent, hstored⟩

theorem BufsInv.entries_apart (h : BufsInv iosz size st) {log : List Store} (hinv : BufInv iosz st log)
    {c : UdpCache} (hc : st.cache = some c) {loc loc' : Nat} {n n' : NodeId} (hn : c.Reaches loc n)
    (hn' : c.Reaches loc' n') {ent ent' : CacheNode} (hent : c.nodes n = some ent)
    (hent' : c.nodes n' = some ent') (hreply : ent.cacheReply = ent'.cacheReply) : n = n' := by
  obtain ⟨recent, _, hmap, hmem⟩ := h.entries hinv hc
  have hreplies : recent.map (fun n => (c.storedAt n).map Stored.reply) =
      ((st.held log).map fun e => e.stored.reply).map some := by
    calc recent.map (fun n => (c.storedAt n).map Stored.reply)
      _ = (recent.map c.storedAt).map (Option.map Stored.reply) := by
        rw [List.map_map]
        rfl
      _ = ((st.held log).map fun e => e.stored.reply).map some := by
        rw [hmap, List.map_map, List.map_map]
        rfl
  have hnodup : (recent.map fun n => (c.storedAt n).map Stored.reply).Nodup := by
    rw [hreplies]
    exact hinv.distinct.map (Option.some_injective _)
  refine List.inj_on_of_nodup_map hnodup (hmem loc n hn) (hmem loc' n' hn') ?_
  show (c.storedAt n).map Stored.reply = (c.storedAt n').map Stored.reply
  rw [UdpCache.storedAt, UdpCache.storedAt, hent, hent']
  exact congrArg some hreply

theorem BufsInv.owned (h : BufsInv iosz size st) : st.Owned iosz := by
  obtain ⟨log, hinv, hreplies⟩ := h.bufInv
  refine ⟨?_, ?_, ?_, ?_, h.sizes, ?_, ?_, ?_⟩
  · intro a x hx
    refine ⟨x.xpPriv.rpcBuffer, .xprt hx, ?_⟩
    rintro b ⟨hy⟩
    rw [Option.some.inj (hx.symm.trans hy)]
  · intro c loc n hc hn
    obtain ⟨_, _, ent, hent, _⟩ := h.entry_held hinv hc hn
    refine ⟨ent.cacheReply, .entry hc hn hent, ?_⟩
    intro b hb
    cases hb with
    | @entry c' loc' _ ent' hc' _ hent' =>
        cases hc.symm.trans hc'
        rw [Option.some.inj (hent.symm.trans hent')]
  · intro o o' b ho ho'
    -- Two transports, a transport and an entry, or two entries.
    cases ho with
    | @xprt a x hx =>
        generalize hb : x.xpPriv.rpcBuffer = b at ho'
        cases ho' with
        | @xprt a' y hy => rw [hinv.apart a a' x y hx hy hb]
        | @entry c loc n ent hc hn hent =>
            obtain ⟨e, he, ent', hent', hstored⟩ := h.entry_held hinv hc hn
            cases hent.symm.trans hent'
            exact absurd ((congrArg Stored.reply hstored).symm.trans hb.symm) (hinv.cross a x hx e he)
    | @entry c loc n ent hc hn hent =>
        generalize hb : ent.cacheReply = b at ho'
        cases ho' with
        | @xprt a x hx =>
            obtain ⟨e, he, ent', hent', hstored⟩ := h.entry_held hinv hc hn
            cases hent.symm.trans hent'
            exact absurd ((congrArg Stored.reply hstored).symm.trans hb) (hinv.cross a x hx e he)
        | @entry c' loc' n' ent' hc' hn' hent' =>
            cases hc.symm.trans hc'
            rw [h.entries_apart hinv hc hn hn' hent hent' hb]
  · intro o b ho
    cases ho with
    | xprt hx =>
        obtain ⟨bytes, hbytes, _⟩ := hinv.buf _ _ hx
        exact ⟨bytes, hbytes⟩
    | entry hc hn hent =>
        obtain ⟨e, he, ent', hent', hstored⟩ := h.entry_held hinv hc hn
        cases hent.symm.trans hent'
        obtain ⟨bytes, hbytes, _⟩ := hinv.kept e he
        refine ⟨bytes, ?_⟩
        rw [← hbytes]
        exact congrArg st.bufs (congrArg Stored.reply hstored)
  · intro a x hx
    exact (hinv.wf a x hx).iosz_eq
  · intro a x hx
    have hwf := hinv.wf a x hx
    exact ⟨hwf.base, hwf.blk.trans hwf.base.symm, hwf.room.trans hwf.iosz_eq.symm⟩
  · intro c loc n ent hc hn hent
    obtain ⟨e, he, ent', hent', hstored⟩ := h.entry_held hinv hc hn
    cases hent.symm.trans hent'
    rw [show ent.cacheReplylen = e.stored.replylen from congrArg Stored.replylen hstored]
    exact hreplies e he

section Enabled

variable {sock port id sendsz recvsz : Nat} {pktinfo : Bool} {master : Addr} {buf : BufId}
  {garbage : Nat → Byte} {suCache ucOk entriesOk fifoOk : Bool} {fields : Caller} {c₀ : UdpCache}

/-- The state that `svcudp_bufcreate` and `svcudp_enablecache` leave. -/
def created (master : Addr) (sock port id sendsz recvsz : Nat) (pktinfo : Bool) (buf : BufId)
    (garbage : Nat → Byte) (c₀ : UdpCache) : UdpState :=
  (UdpServer.start (V := Unit) (ρ := Unit) master sock port id sendsz recvsz pktinfo buf garbage (some c₀)).st

theorem bufsInv_created (henable : svcudpEnablecache suCache size ucOk entriesOk fifoOk fields = some c₀) :
    BufsInv (UdpServer.svcudpBufsize sendsz recvsz) size
      (created master sock port id sendsz recvsz pktinfo buf garbage c₀) := by
  have hc₀ : c₀.ucSize = size ∧ ∀ loc, c₀.ucEntries loc = none := by
    rw [(UdpCache.enablecache_some henable).1]
    exact ⟨rfl, fun _ => rfl⟩
  refine ⟨UdpServer.svcudpBufsize_lt sendsz recvsz, ⟨[], UdpServer.bufInv_start (UdpCache.cacheInv_enabled henable), ?_⟩, ?_,
    ⟨c₀, rfl, hc₀.1, fun _ => hc₀.2⟩⟩
  · intro e he
    cases List.mem_of_mem_take he
  · intro b bytes hb
    rw [created, UdpServer.start_bufs] at hb
    rcases update_eq_some hb with ⟨_, rfl⟩ | ⟨_, hnone⟩
    · simp
    · cases hnone

/-- Through every sequence of receives, clonings, decodings, replies and destructions, on whichever
transport and with whatever the filters do, every buffer has one owner and `su_iosz` bytes, every
stream stands within its transport's buffer, and no call reads or writes past a buffer. -/
theorem buffers_owned (henable : svcudpEnablecache suCache size ucOk entriesOk fifoOk fields = some c₀)
    {k : ProgCodec ρ} {failfast : Bool}
    (hs : Reached (bufStep (V := V) k failfast) (fun st call => st.Possible call)
      (created master sock port id sendsz recvsz pktinfo buf garbage c₀) st) :
    st.Owned (UdpServer.svcudpBufsize sendsz recvsz) ∧
      ∀ (call : BufCall V ρ) (e : Fault), st.Possible call → st.bufCall k failfast call = .error e →
        e = .xdrAbort ∨ size = 0 := by
  have hinv : BufsInv (UdpServer.svcudpBufsize sendsz recvsz) size st :=
    hs.invariant _ (bufsInv_created henable) fun _ _ _ h hok hst => h.step hok hst
  exact ⟨hinv.owned, fun call e hok herr => hinv.call_error hok herr⟩

end Enabled

instance (st : UdpState) (call : BufCall V ρ) : Decidable (st.Possible call) :=
  match call with
  | .recv a _ => inferInstanceAs (Decidable ((st.xprts a).isSome = true))
  | .clone a a2 buf => inferInstanceAs (Decidable ((st.xprts a).isSome = true ∧
      (st.xprts a2) = none ∧ st.bufs buf = none))
  | .getargs a _ => inferInstanceAs (Decidable ((st.xprts a).isSome = true))
  | .freeargs a _ => inferInstanceAs (Decidable ((st.xprts a).isSome = true))
  | .reply a _ _ alloc => inferInstanceAs (Decidable ((st.xprts a).isSome = true ∧ st.AllocOk (st.iosz a) alloc))
  | .destroy a => inferInstanceAs (Decidable ((st.xprts a).isSome = true))

/-- Two requests served by clones, the second reply taking the buffer of the first out of a cache of
one; the first clone is gone by then. -/
def exchangeCalls : List (BufCall Unit (List Nat)) :=
  [.recv 0 (.datagram ⟨2, 7, 1, 0⟩ 16 (nullCall 5 100 1 0 [])), .clone 0 1 31,
    .reply 1 ⟨0, [6]⟩ true (some ⟨40, 32, List.replicate 48 0⟩), .destroy 1,
    .recv 0 (.datagram ⟨2, 7, 1, 0⟩ 16 (nullCall 6 100 1 0 [])), .clone 0 2 33,
    .reply 2 ⟨0, [7]⟩ true none]

def oneEntry : UdpCache :=
  ⟨1, fun _ => none, fun _ => none, 0, ⟨0, 0, 0, ⟨0, 0, 0, 0⟩⟩, fun _ => none⟩

theorem buffers_owned_exchange : ∃ st,
    svcudpEnablecache false 1 true true true ⟨0, 0, 0, ⟨0, 0, 0, 0⟩⟩ = some oneEntry ∧
      exec (bufStep nullProgs true) (fun st call => st.Possible call)
        (created 0 3 111 0 46 46 false 30 (fun _ => 0) oneEntry) exchangeCalls = some st ∧
      (st.xprts 2).map (fun x => x.xpPriv.rpcBuffer) = some 31 ∧ st.Owned 48 := by
  have hrun : (exec (bufStep nullProgs true) (fun st call => st.Possible call)
      (created 0 3 111 0 46 46 false 30 (fun _ => 0) oneEntry) exchangeCalls).map
      (fun st => (st.xprts 2).map fun x => x.xpPriv.rpcBuffer) = some (some 31) := by decide +kernel
  obtain ⟨st, hst, hbuf⟩ := Option.map_eq_some_iff.mp hrun
  have henable : svcudpEnablecache false 1 true true true ⟨0, 0, 0, ⟨0, 0, 0, 0⟩⟩ = some oneEntry := rfl
  exact ⟨st, henable, hst, hbuf,
    (buffers_owned henable (reached_of_exec _ _ .start exchangeCalls hst)).1⟩

end UdpState

end RpcMt
