import RpcMt.UdpCacheChains
import RpcMt.UdpTransport

/-! Who owns which buffer. Every live transport and every entry of the cache has a buffer of its own;
`cache_set` exchanges the buffers of the two, and what an entry keeps in its buffer is not written
again before the entry is evicted. The history of stores records for each `cache_set` the request it
answered and the bytes it kept. -/

namespace RpcMt

/-- One `cache_set`: the request it was for, what it put into the entry, and the reply sent. -/
structure Store where
  xid : Nat
  caller : Caller
  stored : Stored
  bytes : List Byte
  deriving DecidableEq, Repr

namespace UdpState

/-- The stream of a transport stands inside the transport's own buffer of `iosz` bytes. -/
structure Wf (iosz : Nat) (su : SvcudpData) : Prop where
  base : su.suXdrs.xBase = su.rpcBuffer
  blk : su.suXdrs.xPrivate.blk = su.rpcBuffer
  room : su.suXdrs.xPrivate.off + su.suXdrs.xHandy = iosz
  iosz_eq : su.suIosz = iosz
  bufsz : su.mtxpBufsz = iosz

/-- The entries that the cache still holds, newest first. -/
def held (st : UdpState) (log : List Store) : List Store :=
  match st.cache with
  | none => []
  | some c => log.take c.ucSize

structure BufInv (iosz : Nat) (st : UdpState) (log : List Store) : Prop where
  wf : ∀ a x, st.xprts a = some x → Wf iosz x.xpPriv
  buf : ∀ a x, st.xprts a = some x →
    ∃ bytes, st.bufs x.xpPriv.rpcBuffer = some bytes ∧ bytes.length = iosz
  apart : ∀ a b x y, st.xprts a = some x → st.xprts b = some y →
    x.xpPriv.rpcBuffer = y.xpPriv.rpcBuffer → a = b
  suCache : ∀ a x, st.xprts a = some x → x.xpPriv.suCache = st.cache.isSome
  cache : ∀ c, st.cache = some c → 0 < c.ucSize → ∃ recent, c.Refines recent (log.map Store.stored)
  kept : ∀ e ∈ st.held log, ∃ bytes, st.bufs e.stored.reply = some bytes ∧ bytes.length = iosz ∧
    bytes.take e.stored.replylen = e.bytes
  distinct : ((st.held log).map fun e => e.stored.reply).Nodup
  cross : ∀ a x, st.xprts a = some x → ∀ e ∈ st.held log, e.stored.reply ≠ x.xpPriv.rpcBuffer

variable {iosz : Nat} {st : UdpState} {log : List Store} {a : Addr} {x x' : Svcxprt SvcudpData}
  {bytes : List Byte}

/-- A transport works on its own stream and buffer. -/
theorem BufInv.own (h : BufInv iosz st log) (hx : st.xprts a = some x) (hwf : Wf iosz x'.xpPriv)
    (hbuf : x'.xpPriv.rpcBuffer = x.xpPriv.rpcBuffer) (hcache : x'.xpPriv.suCache = x.xpPriv.suCache)
    (hlen : bytes.length = iosz) :
    BufInv iosz ({ st with bufs := Function.update st.bufs x.xpPriv.rpcBuffer (some bytes) }.store a x')
      log := by
  refine ⟨?_, ?_, ?_, ?_, h.cache, ?_, h.distinct, ?_⟩
  · intro b y hy
    rcases update_eq_some hy with ⟨_, rfl⟩ | ⟨_, hyo⟩
    · exact hwf
    · exact h.wf b y hyo
  · intro b y hy
    rcases update_eq_some hy with ⟨_, rfl⟩ | ⟨hb, hyo⟩
    · rw [hbuf]
      exact ⟨bytes, Function.update_self .., hlen⟩
    · have hne : y.xpPriv.rpcBuffer ≠ x.xpPriv.rpcBuffer := fun heq => hb (h.apart b a y x hyo hx heq)
      obtain ⟨bytes', hbytes', hlen'⟩ := h.buf b y hyo
      exact ⟨bytes', (Function.update_of_ne hne _ _).trans hbytes', hlen'⟩
  · intro b d y z hy hz heq
    rcases update_eq_some hy with ⟨hb, hyx⟩ | ⟨_, hyo⟩
    · rcases update_eq_some hz with ⟨hd, _⟩ | ⟨_, hzo⟩
      · rw [hb, hd]
      · rw [hyx, hbuf] at heq
        rw [hb]
        exact h.apart a d x z hx hzo heq
    · rcases update_eq_some hz with ⟨hd, hzx⟩ | ⟨_, hzo⟩
      · rw [hzx, hbuf] at heq
        rw [hd]
        exact h.apart b a y x hyo hx heq
      · exact h.apart b d y z hyo hzo heq
  · intro b y hy
    rcases update_eq_some hy with ⟨_, rfl⟩ | ⟨_, hyo⟩
    · exact hcache.trans (h.suCache a x hx)
    · exact h.suCache b y hyo
  · intro e he
    obtain ⟨bytes', hbytes', hrest⟩ := h.kept e he
    exact ⟨bytes', (Function.update_of_ne (h.cross a x hx e he) _ _).trans hbytes', hrest⟩
  · intro b y hy e he
    rcases update_eq_some hy with ⟨_, rfl⟩ | ⟨_, hyo⟩
    · rw [hbuf]
      exact h.cross a x hx e he
    · exact h.cross b y hyo e he

/-- A lookup changes the saved fields of the header at most. -/
theorem BufInv.saved (h : BufInv iosz st log) {c : UdpCache} (hc : st.cache = some c) (caller : Caller) :
    BufInv iosz { st with cache := some { c with ucCaller := caller } } log := by
  have hheld : held { st with cache := some { c with ucCaller := caller } } log = st.held log := by
    simp only [held, hc]
  refine ⟨h.wf, h.buf, h.apart, ?_, ?_, ?_, ?_, ?_⟩
  · intro b y hy
    rw [h.suCache b y hy, hc]
    rfl
  · intro c' hc'
    cases hc'
    intro hpos
    obtain ⟨recent, href⟩ := h.cache c hc hpos
    exact ⟨recent, href.saved caller⟩
  · rw [hheld]
    exact h.kept
  · rw [hheld]
    exact h.distinct
  · rw [hheld]
    exact h.cross

/-- The transport at `a` gives its buffer to a new entry `e` and takes `nb` for it, a buffer that no
other transport and none of the entries `keep` that stay has. -/
theorem BufInv.exchange (h : BufInv iosz st log) (hx : st.xprts a = some x) {c c' : UdpCache}
    (hc : st.cache = some c) {e : Store} {keep : List Store} {nb : BufId} {bufs : Bufs}
    (hwf : Wf iosz x'.xpPriv) (hnb : x'.xpPriv.rpcBuffer = nb)
    (hcache : x'.xpPriv.suCache = x.xpPriv.suCache)
    (href : ∃ recent, c'.Refines recent ((e :: log).map Store.stored))
    (hheld : (e :: log).take c'.ucSize = e :: keep) (hkeep : ∀ k ∈ keep, k ∈ st.held log)
    (hnodup : (keep.map fun e => e.stored.reply).Nodup) (hreply : e.stored.reply = x.xpPriv.rpcBuffer)
    (hbytes : bufs x.xpPriv.rpcBuffer = some bytes ∧ bytes.length = iosz ∧
      bytes.take e.stored.replylen = e.bytes)
    (hnbbuf : ∃ bytes', bufs nb = some bytes' ∧ bytes'.length = iosz)
    (hbufs : ∀ b, b ≠ nb → bufs b = st.bufs b)
    (hfresh : ∀ b y, st.xprts b = some y → nb ≠ y.xpPriv.rpcBuffer)
    (hfreshk : ∀ k ∈ keep, nb ≠ k.stored.reply) :
    BufInv iosz ({ st with cache := some c', bufs := bufs }.store a x') (e :: log) := by
  have hheld' : held ({ st with cache := some c', bufs := bufs }.store a x') (e :: log) = e :: keep := hheld
  refine ⟨?_, ?_, ?_, ?_, ?_, ?_, ?_, ?_⟩
  · intro b y hy
    rcases update_eq_some hy with ⟨_, rfl⟩ | ⟨_, hyo⟩
    · exact hwf
    · exact h.wf b y hyo
  · intro b y hy
    rcases update_eq_some hy with ⟨_, rfl⟩ | ⟨_, hyo⟩
    · rw [hnb]
      exact hnbbuf
    · obtain ⟨bytes', hbytes', hlen'⟩ := h.buf b y hyo
      exact ⟨bytes', (hbufs _ (hfresh b y hyo).symm).trans hbytes', hlen'⟩
  · intro b d y z hy hz heq
    rcases update_eq_some hy with ⟨hb, hyx⟩ | ⟨_, hyo⟩
    · rcases update_eq_some hz with ⟨hd, _⟩ | ⟨_, hzo⟩
      · rw [hb, hd]
      · rw [hyx, hnb] at heq
        exact absurd heq (hfresh d z hzo)
    · rcases update_eq_some hz with ⟨hd, hzx⟩ | ⟨_, hzo⟩
      · rw [hzx, hnb] at heq
        exact absurd heq.symm (hfresh b y hyo)
      · exact h.apart b d y z hyo hzo heq
  · intro b y hy
    rcases update_eq_some hy with ⟨_, rfl⟩ | ⟨_, hyo⟩
    · rw [hcache, h.suCache a x hx, hc]
      rfl
    · rw [h.suCache b y hyo, hc]
      rfl
  · intro c'' hc'' _
    cases hc''
    exact href
  · rw [hheld']
    intro k hk
    rcases List.mem_cons.mp hk with rfl | hk
    · rw [hreply]
      exact ⟨bytes, hbytes⟩
    · obtain ⟨bytes', hbytes', hrest⟩ := h.kept k (hkeep k hk)
      exact ⟨bytes', (hbufs _ (hfreshk k hk).symm).trans hbytes', hrest⟩
  · rw [hheld', List.map_cons, List.nodup_cons]
    refine ⟨?_, hnodup⟩
    intro hmem
    obtain ⟨k, hk, heq⟩ := List.mem_map.mp hmem
    exact h.cross a x hx k (hkeep k hk) (heq.trans hreply)
  · rw [hheld']
    intro b y hy k hk
    rcases update_eq_some hy with ⟨_, rfl⟩ | ⟨hb, hyo⟩
    · rw [hnb]
      rcases List.mem_cons.mp hk with rfl | hk
      · rw [hreply]
        exact (hfresh a x hx).symm
      · exact (hfreshk k hk).symm
    · rcases List.mem_cons.mp hk with rfl | hk
      · rw [hreply]
        exact fun heq => hb (h.apart a b x y hx hyo heq).symm
      · exact h.cross b y hyo k (hkeep k hk)

/-- What the history becomes when `cache_set` runs for the request `(xid, caller)`. -/
def logged (c c' : UdpCache) (xid : Nat) (caller : Caller) (reply : List Byte) (log : List Store) :
    List Store :=
  match c.storedBy c' with
  | none => log
  | some stored => ⟨xid, caller, stored, reply⟩ :: log

/-- What `malloc` may give `cache_set`: an unused entry, and an unused buffer of the size asked for. -/
def AllocOk (st : UdpState) (iosz : Nat) (alloc : Option UdpCache.Alloc) : Prop :=
  ∀ m, alloc = some m → (∀ c, st.cache = some c → c.nodes m.victim = none) ∧
    st.bufs m.newbuf = none ∧ m.garbage.length = iosz

theorem wf_create {su : SvcudpData} (hwf : Wf iosz su) (nb : BufId) :
    Wf iosz { su with rpcBuffer := nb, suXdrs := xdrmemCreate nb su.suIosz .encode } :=
  ⟨rfl, rfl, by rw [xdrmemCreate, hwf.iosz_eq]; exact Nat.zero_add _, hwf.iosz_eq, hwf.bufsz⟩

/-- `cache_set` keeps everybody's buffer apart, and records what was sent. -/
theorem BufInv.cacheSet (h : BufInv iosz st log) (hx : st.xprts a = some x) {c : UdpCache}
    (hc : st.cache = some c) {replylen : Nat} {alloc : Option UdpCache.Alloc}
    (halloc : AllocOk st iosz alloc) {xid : Nat} {caller : Caller} {reply : List Byte}
    (hbytes : st.bufs x.xpPriv.rpcBuffer = some bytes) (hreply : bytes.take replylen = reply)
    {c' : UdpCache} {su' : SvcudpData} {bufs' : Bufs}
    (hset : c.cacheSet x.xpPriv replylen alloc st.bufs = .ok (c', su', bufs')) (hpriv : x'.xpPriv = su') :
    BufInv iosz ({ st with cache := some c', bufs := bufs' }.store a x')
      (logged c c' xid caller reply log) := by
  obtain ⟨recent, href⟩ := h.cache c hc (UdpCache.size_pos_of_cacheSet hset)
  obtain ⟨r, hr, hspec⟩ := UdpCache.cacheSet_spec href.inv x.xpPriv replylen st.bufs
    (fun m hm => (halloc m hm).1 c hc)
  cases hr.symm.trans hset
  have hlen : bytes.length = iosz := by
    obtain ⟨bytes', hbytes', hlen'⟩ := h.buf a x hx
    cases hbytes.symm.trans hbytes'
    exact hlen'
  have hwf := h.wf a x hx
  have hheld : st.held log = log.take c.ucSize := by
    simp only [held, hc]
  have hcases := href.set hspec
  generalize hr' : (c', su', bufs') = r at hcases
  cases hcases with
  | full hnone =>
      cases hr'
      rw [logged, hnone]
      have hsame : st.bufs = Function.update st.bufs x.xpPriv.rpcBuffer (some bytes) := by
        rw [← hbytes, Function.update_eq_self]
      have hown := h.own hx (hpriv ▸ hwf) (by rw [hpriv]) (by rw [hpriv]) hlen
      rwa [← hsame, hc] at hown
  | @fresh m c₁ recent' hlt href' hsize hcaller hby =>
      cases hr'
      obtain ⟨_, hfree, hgarbage⟩ := halloc m rfl
      rw [logged, hby]
      have hne : ∀ b bytes', st.bufs b = some bytes' → m.newbuf ≠ b := by
        rintro b bytes' hb rfl
        rw [hfree] at hb
        cases hb
      have hlt' : log.length < c.ucSize := by rwa [List.length_map] at hlt
      obtain ⟨k, hk⟩ : ∃ k, c.ucSize = k + 1 := ⟨c.ucSize - 1, by omega⟩
      have hall : st.held log = log := by rw [hheld, List.take_of_length_le hlt'.le]
      let e : Store := ⟨xid, caller, c.newStored x.xpPriv replylen, reply⟩
      have htake : (e :: log).take c'.ucSize = e :: log := by
        rw [hsize, hk, List.take_succ_cons, List.take_of_length_le (by omega)]
      have hbuf : Function.update st.bufs m.newbuf (some m.garbage) x.xpPriv.rpcBuffer = some bytes :=
        (Function.update_of_ne (hne _ _ hbytes).symm _ _).trans hbytes
      refine h.exchange hx hc (hpriv ▸ wf_create hwf m.newbuf) (by rw [hpriv]) (by rw [hpriv])
        ⟨recent', href'⟩ htake ?_ ?_ rfl ⟨hbuf, hlen, hreply⟩ ⟨_, Function.update_self .., hgarbage⟩
        (fun b hb => Function.update_of_ne hb _ _) ?_ ?_
      · rw [hall]
        exact fun k hk => hk
      · exact hall ▸ h.distinct
      · intro b y hy
        obtain ⟨bytes', hbytes', _⟩ := h.buf b y hy
        exact hne _ _ hbytes'
      · intro k hk
        obtain ⟨bytes', hbytes', _⟩ := h.kept k (by rw [hall]; exact hk)
        exact hne _ _ hbytes'
  | @reuse _ c₁ recent' k old hk hold href' hsize hcaller hby =>
      cases hr'
      rw [logged, hby]
      -- The entry that falls off is the oldest one held.
      obtain ⟨o, ho, rfl⟩ : ∃ o, st.held log = log.take k ++ [o] ∧ o.stored = old := by
        rw [← List.map_take, ← List.map_take] at hold
        obtain ⟨front, last, hsplit, hfront, hlast⟩ := List.map_eq_append_iff.mp hold
        obtain ⟨o, rfl, ho⟩ := List.map_eq_singleton_iff.mp hlast
        refine ⟨o, ?_, ho⟩
        have hlenf : front.length = k := by
          have hl := congrArg List.length hsplit
          have hm := congrArg List.length hfront
          simp at hl hm
          omega
        rw [hheld, hk, hsplit]
        have hpre := congrArg (List.take k) hsplit
        rw [List.take_take, Nat.min_eq_left (Nat.le_succ _), List.take_left' hlenf] at hpre
        rw [hpre]
      have hdistinct := h.distinct
      rw [ho, List.map_append, List.map_singleton] at hdistinct
      obtain ⟨hnodup, _, hdisj⟩ := List.nodup_append.mp hdistinct
      have hlast : o ∈ st.held log := ho ▸ List.mem_append_right _ (List.mem_singleton_self _)
      let e : Store := ⟨xid, caller, c.newStored x.xpPriv replylen, reply⟩
      have htake : (e :: log).take c'.ucSize = e :: log.take k := by
        rw [hsize, hk, List.take_succ_cons]
      obtain ⟨obytes, hobytes, holen, _⟩ := h.kept o hlast
      refine h.exchange hx hc (hpriv ▸ wf_create hwf o.stored.reply) (by rw [hpriv]) (by rw [hpriv])
        ⟨recent', href'⟩ htake ?_ hnodup rfl ⟨hbytes, hlen, hreply⟩ ⟨obytes, hobytes, holen⟩
        (fun _ _ => rfl) ?_ ?_
      · rw [ho]
        exact fun j hj => List.mem_append_left _ hj
      · intro b y hy
        exact h.cross b y hy o hlast
      · intro j hj heq
        exact hdisj _ (List.mem_map_of_mem hj) _ (List.mem_singleton_self _) heq.symm

/-- What `cache_set` leaves of the transport's data, and what it puts into the entry. -/
theorem BufInv.cacheSet_frame (h : BufInv iosz st log) {c : UdpCache} (hc : st.cache = some c)
    {su su' : SvcudpData} {replylen : Nat} {alloc : Option UdpCache.Alloc}
    (halloc : AllocOk st iosz alloc) {bufs bufs' : Bufs} {c' : UdpCache}
    (hset : c.cacheSet su replylen alloc bufs = .ok (c', su', bufs')) :
    su'.suXid = su.suXid ∧ c'.ucSize = c.ucSize ∧ c'.ucCaller = c.ucCaller ∧
      ∀ stored, c.storedBy c' = some stored → stored = c.newStored su replylen := by
  obtain ⟨recent, href⟩ := h.cache c hc (UdpCache.size_pos_of_cacheSet hset)
  obtain ⟨r, hr, hspec⟩ := UdpCache.cacheSet_spec href.inv su replylen bufs
    (fun m hm => (halloc m hm).1 c hc)
  cases hr.symm.trans hset
  have hcases := href.set hspec
  generalize hr' : (c', su', bufs') = r at hcases
  cases hcases with
  | full hnone =>
      cases hr'
      refine ⟨rfl, rfl, rfl, fun stored hst => ?_⟩
      rw [hnone] at hst
      cases hst
  | fresh hlt href' hsize hcaller hby =>
      cases hr'
      refine ⟨rfl, hsize, hcaller, fun stored hst => ?_⟩
      rw [hby] at hst
      exact (Option.some.inj hst).symm
  | reuse hk hold href' hsize hcaller hby =>
      cases hr'
      refine ⟨rfl, hsize, hcaller, fun stored hst => ?_⟩
      rw [hby] at hst
      exact (Option.some.inj hst).symm

/-! ### Clones come and go -/

theorem deref_ok (h : st.deref a = .ok x) : st.xprts a = some x := by
  unfold deref at h
  split at h
  · cases h
  · cases h
    assumption

theorem deref_of_some (h : st.xprts a = some x) : st.deref a = .ok x := by
  rw [deref, h]

/-- The data of a clone: the master's, over its own buffer. -/
def cloneData (su : SvcudpData) (buf : BufId) : SvcudpData :=
  { su with rpcBuffer := buf, suXdrs := cloneXdrs su.suXdrs buf su.suIosz }

theorem wf_cloneData {su : SvcudpData} (hwf : Wf iosz su) (buf : BufId) : Wf iosz (cloneData su buf) := by
  refine ⟨rfl, rfl, ?_, hwf.iosz_eq, hwf.bufsz⟩
  change 0 + su.suXdrs.xPrivate.off + su.suXdrs.xHandy = iosz
  rw [Nat.zero_add]
  exact hwf.room

/-- A clone is the master's transport over a copy of the master's buffer. -/
theorem svcudpXprtClone_eq (h : BufInv iosz st log) (hx : st.xprts a = some x)
    (hbytes : st.bufs x.xpPriv.rpcBuffer = some bytes) (a2 : Addr) (buf : BufId) :
    st.svcudpXprtClone a a2 buf = .ok
      { st.store a2 (x.cloneXprt (cloneData x.xpPriv buf)) with
        bufs := Function.update st.bufs buf (some bytes) } := by
  have hlen : bytes.length = iosz := by
    obtain ⟨bytes', hbytes', hlen'⟩ := h.buf a x hx
    cases hbytes.symm.trans hbytes'
    exact hlen'
  have hsz : ¬bytes.length < x.xpPriv.mtxpBufsz := by
    rw [(h.wf a x hx).bufsz]
    omega
  have htake : bytes.take x.xpPriv.mtxpBufsz = bytes :=
    List.take_of_length_le (by rw [(h.wf a x hx).bufsz, hlen])
  rw [svcudpXprtClone, deref_of_some hx]
  change (readBuf st.bufs x.xpPriv.rpcBuffer >>= _) = _
  rw [readBuf_of_some hbytes]
  change (if bytes.length < x.xpPriv.mtxpBufsz then _ else _) = _
  rw [if_neg hsz, htake]
  rfl

theorem BufInv.clone (h : BufInv iosz st log) (hx : st.xprts a = some x)
    (hbytes : st.bufs x.xpPriv.rpcBuffer = some bytes) {a2 : Addr} {buf : BufId}
    (hbuf : st.bufs buf = none) :
    BufInv iosz { st.store a2 (x.cloneXprt (cloneData x.xpPriv buf)) with
      bufs := Function.update st.bufs buf (some bytes) } log := by
  have hlen : bytes.length = iosz := by
    obtain ⟨bytes', hbytes', hlen'⟩ := h.buf a x hx
    cases hbytes.symm.trans hbytes'
    exact hlen'
  have hne : ∀ b bytes', st.bufs b = some bytes' → b ≠ buf := by
    rintro b bytes' hb rfl
    rw [hbuf] at hb
    cases hb
  have hother : ∀ b y, st.xprts b = some y → y.xpPriv.rpcBuffer ≠ buf := by
    intro b y hy
    obtain ⟨bytes', hbytes', _⟩ := h.buf b y hy
    exact hne _ _ hbytes'
  have hkept : ∀ e ∈ st.held log, e.stored.reply ≠ buf := by
    intro e he
    obtain ⟨bytes', hbytes', _⟩ := h.kept e he
    exact hne _ _ hbytes'
  refine ⟨?_, ?_, ?_, ?_, h.cache, ?_, h.distinct, ?_⟩
  · intro b y hy
    rcases update_eq_some hy with ⟨_, rfl⟩ | ⟨_, hyo⟩
    · exact wf_cloneData (h.wf a x hx) buf
    · exact h.wf b y hyo
  · intro b y hy
    rcases update_eq_some hy with ⟨_, rfl⟩ | ⟨_, hyo⟩
    · exact ⟨bytes, Function.update_self .., hlen⟩
    · obtain ⟨bytes', hbytes', hlen'⟩ := h.buf b y hyo
      exact ⟨bytes', (Function.update_of_ne (hother b y hyo) _ _).trans hbytes', hlen'⟩
  · intro b d y z hy hz heq
    rcases update_eq_some hy with ⟨hb, hyx⟩ | ⟨_, hyo⟩
    · rcases update_eq_some hz with ⟨hd, _⟩ | ⟨_, hzo⟩
      · rw [hb, hd]
      · rw [hyx] at heq
        exact absurd heq.symm (hother d z hzo)
    · rcases update_eq_some hz with ⟨hd, hzx⟩ | ⟨_, hzo⟩
      · rw [hzx] at heq
        exact absurd heq (hother b y hyo)
      · exact h.apart b d y z hyo hzo heq
  · intro b y hy
    rcases update_eq_some hy with ⟨_, rfl⟩ | ⟨_, hyo⟩
    · exact h.suCache a x hx
    · exact h.suCache b y hyo
  · intro e he
    obtain ⟨bytes', hbytes', hrest⟩ := h.kept e he
    exact ⟨bytes', (Function.update_of_ne (hkept e he) _ _).trans hbytes', hrest⟩
  · intro b y hy e he
    rcases update_eq_some hy with ⟨_, rfl⟩ | ⟨_, hyo⟩
    · exact hkept e he
    · exact h.cross b y hyo e he

theorem BufInv.destroy (h : BufInv iosz st log) (hx : st.xprts a = some x) :
    BufInv iosz { st with
      bufs := Function.update st.bufs x.xpPriv.rpcBuffer none
      xprts := Function.update st.xprts a none } log := by
  refine ⟨?_, ?_, ?_, ?_, h.cache, ?_, h.distinct, ?_⟩
  · intro b y hy
    exact h.wf b y (update_none_eq_some hy).2
  · intro b y hy
    obtain ⟨hb, hyo⟩ := update_none_eq_some hy
    obtain ⟨bytes', hbytes', hlen'⟩ := h.buf b y hyo
    have hne : y.xpPriv.rpcBuffer ≠ x.xpPriv.rpcBuffer := fun heq => hb (h.apart b a y x hyo hx heq)
    exact ⟨bytes', (Function.update_of_ne hne _ _).trans hbytes', hlen'⟩
  · intro b d y z hy hz heq
    exact h.apart b d y z (update_none_eq_some hy).2 (update_none_eq_some hz).2 heq
  · intro b y hy
    exact h.suCache b y (update_none_eq_some hy).2
  · intro e he
    obtain ⟨bytes', hbytes', hrest⟩ := h.kept e he
    exact ⟨bytes', (Function.update_of_ne (h.cross a x hx e he) _ _).trans hbytes', hrest⟩
  · intro b y hy e he
    exact h.cross b y (update_none_eq_some hy).2 e he

end UdpState

end RpcMt
