import RpcMt.Runs
import RpcMt.UdpCacheChains

/-! The indices into the two arrays of a cache. The size that a caller gives to `svcudp_enablecache` is
multiplied in `u_long` for the number of hash slots, and is the modulus of `CACHE_LOC` and of the ring; `calloc`
refuses a size that would wrap around, and nothing refuses a size of zero. -/

namespace RpcMt

open Runs

namespace UdpCache

/-- A call of `cache_get` or `cache_set` by a transport of the cache. -/
inductive CacheCall where
  | get (xid : Nat) (msg : RpcMsg) (raddr : SockaddrIn)
  | set (su : SvcudpData) (replylen : Nat) (alloc : Option Alloc) (bufs : Bufs)

/-- The xid that the call looks up or stores. -/
def CacheCall.xid : CacheCall → Nat
  | .get xid _ _ => xid
  | .set su _ _ _ => su.suXid

/-- The cache after a call. -/
def step (c : UdpCache) : CacheCall → Option UdpCache
  | .get xid msg raddr => (c.cacheGet xid msg raddr).toOption.map fun r => r.2
  | .set su replylen alloc bufs => (c.cacheSet su replylen alloc bufs).toOption.map fun r => r.1

def ShortXid (_ : UdpCache) (call : CacheCall) : Prop := call.xid < uintRange

/-- What `CACHE_LOC` computes in `u_long`, before it is kept in a `u_int`. -/
def longLoc (c : UdpCache) (xid : Nat) : Nat := xid % (sparseness * c.ucSize % sizeRange)

/-- A cache of this many entries, whose hash table was allocated with `size * SPARSENESS` slots: for every xid of
32 bits, and so for every xid that is stored, `CACHE_LOC` is a slot, and the next victim is in the ring. -/
structure Indexable (size : Nat) (c : UdpCache) : Prop where
  slot : ∀ xid, xid < uintRange → c.cacheLoc xid = .ok (c.longLoc xid) ∧ c.longLoc xid < size * sparseness % sizeRange
  stored : ∀ n ent, c.nodes n = some ent → ent.cacheXid < uintRange
  victim : c.ucNextvictim < size

/-! ### What a call changes -/

/-- The header is kept, and an entry has the xid that it had before, or the one that is stored. -/
structure Keeps (c c' : UdpCache) (xid : Nat) : Prop where
  size : c'.ucSize = c.ucSize
  victim : c'.ucNextvictim = c.ucNextvictim ∨ c'.ucNextvictim = (c.ucNextvictim + 1) % c.ucSize
  xids : ∀ n ent', c'.nodes n = some ent' →
    ent'.cacheXid = xid ∨ ∃ ent, c.nodes n = some ent ∧ ent'.cacheXid = ent.cacheXid

variable {c c' : UdpCache}

theorem Keeps.refl (c : UdpCache) (xid : Nat) : Keeps c c xid :=
  ⟨rfl, Or.inl rfl, fun _ ent h => Or.inr ⟨ent, h, rfl⟩⟩

theorem setVicp_keeps {p : Option NodeId} {v : Vicp} (h : c.setVicp p v = .ok c') :
    c'.ucSize = c.ucSize ∧ c'.ucNextvictim = c.ucNextvictim ∧
      ∀ n ent', c'.nodes n = some ent' → ∃ ent, c.nodes n = some ent ∧ ent'.cacheXid = ent.cacheXid := by
  cases v with
  | slot loc =>
      cases h
      exact ⟨rfl, rfl, fun _ ent hent => ⟨ent, hent, rfl⟩⟩
  | next u =>
      obtain ⟨eu, heu, h⟩ := bind_ok h
      cases h
      refine ⟨rfl, rfl, fun n ent' hent' => ?_⟩
      by_cases hn : n = u
      · subst hn
        dsimp only at hent'
        rw [Function.update_self] at hent'
        cases hent'
        unfold node at heu
        split at heu
        · cases heu
        · rename_i eu' hnode
          cases heu
          exact ⟨eu, hnode, rfl⟩
      · dsimp only at hent'
        rw [Function.update_of_ne hn] at hent'
        exact ⟨ent', hent', rfl⟩

theorem storeAway_keeps {victim : NodeId} {newbuf : BufId} {su su' : SvcudpData} {replylen : Nat}
    (h : c.storeAway victim newbuf su replylen = .ok (c', su')) : Keeps c c' su.suXid := by
  obtain ⟨loc, _, h⟩ := bind_ok h
  cases h
  refine ⟨rfl, Or.inr rfl, fun n ent' hent' => ?_⟩
  by_cases hn : n = victim
  · subst hn
    unfold enter at hent'
    dsimp only at hent'
    rw [Function.update_self] at hent'
    cases hent'
    exact Or.inl rfl
  · rw [nodes_enter_of_ne hn] at hent'
    exact Or.inr ⟨ent', hent', rfl⟩

theorem cacheSet_keeps {su su' : SvcudpData} {replylen : Nat} {alloc : Option Alloc} {bufs bufs' : Bufs}
    (h : c.cacheSet su replylen alloc bufs = .ok (c', su', bufs')) : Keeps c c' su.suXid := by
  unfold cacheSet at h
  split at h
  · cases h
  · split at h
    · obtain ⟨ent, _, h⟩ := bind_ok h
      obtain ⟨loc, _, h⟩ := bind_ok h
      obtain ⟨found, _, h⟩ := bind_ok h
      cases found with
      | none =>
          cases h
          exact Keeps.refl c _
      | some v =>
          obtain ⟨c₁, hset, h⟩ := bind_ok h
          obtain ⟨⟨c₂, su₂⟩, hstore, h⟩ := bind_ok h
          cases h
          obtain ⟨hsize, hvictim, hxids⟩ := setVicp_keeps hset
          have hkeeps := storeAway_keeps hstore
          refine ⟨hkeeps.size.trans hsize, ?_, ?_⟩
          · rw [← hsize, ← hvictim]
            exact hkeeps.victim
          · intro n ent' hent'
            obtain heq | ⟨ent₁, hent₁, heq⟩ := hkeeps.xids n ent' hent'
            · exact Or.inl heq
            · obtain ⟨ent₀, hent₀, heq₀⟩ := hxids n ent₁ hent₁
              exact Or.inr ⟨ent₀, hent₀, heq.trans heq₀⟩
    · split at h
      · cases h
        exact Keeps.refl c _
      · obtain ⟨⟨c₁, su₁⟩, hstore, h⟩ := bind_ok h
        cases h
        exact storeAway_keeps hstore

theorem cacheGet_keeps {xid : Nat} {msg : RpcMsg} {raddr : SockaddrIn} {r : Option CacheNode}
    (h : c.cacheGet xid msg raddr = .ok (r, c')) : Keeps c c' xid := by
  obtain ⟨loc, _, h⟩ := bind_ok h
  obtain ⟨found, _, h⟩ := bind_ok h
  cases found with
  | none =>
      cases h
      exact ⟨rfl, Or.inl rfl, fun _ ent hent => Or.inr ⟨ent, hent, rfl⟩⟩
  | some ent =>
      cases h
      exact Keeps.refl c _

theorem step_keeps {call : CacheCall} (h : c.step call = some c') : Keeps c c' call.xid := by
  cases call with
  | get xid msg raddr =>
      obtain ⟨⟨r, d⟩, hget, rfl⟩ := Option.map_eq_some_iff.mp h
      cases hrun : c.cacheGet xid msg raddr with
      | error e =>
          rw [hrun] at hget
          cases hget
      | ok p =>
          rw [hrun] at hget
          cases hget
          exact cacheGet_keeps hrun
  | set su replylen alloc bufs =>
      obtain ⟨⟨d, su', bufs'⟩, hset, rfl⟩ := Option.map_eq_some_iff.mp h
      cases hrun : c.cacheSet su replylen alloc bufs with
      | error e =>
          rw [hrun] at hset
          cases hset
      | ok p =>
          rw [hrun] at hset
          cases hset
          exact cacheSet_keeps hrun

/-! ### Runs -/

theorem cacheLoc_slot {size : Nat} (hpos : 0 < size) (hfits : 8 * size < sizeRange) (hsize : c.ucSize = size) {xid : Nat}
    (hxid : xid < uintRange) :
    c.cacheLoc xid = .ok (c.longLoc xid) ∧ c.longLoc xid < size * sparseness % sizeRange := by
  have hslots : size * sparseness % sizeRange = size * sparseness := by
    rw [Nat.mod_eq_of_lt]
    simp only [sparseness]
    omega
  have hslots' : 0 < size * sparseness := Nat.mul_pos hpos (by decide)
  have hloc : c.longLoc xid = xid % (size * sparseness) := by
    rw [longLoc, hsize, Nat.mul_comm, hslots]
  have hshort : c.longLoc xid < uintRange := by
    rw [hloc]
    exact Nat.lt_of_le_of_lt (Nat.mod_le ..) hxid
  constructor
  · unfold cacheLoc
    rw [hsize, Nat.mul_comm, hslots]
    dsimp only
    rw [if_neg (Nat.ne_of_gt hslots'), ← hloc, Nat.mod_eq_of_lt hshort]
  · rw [hloc, hslots]
    exact Nat.mod_lt _ hslots'

/-- Over a run the size stays, the next victim stays in the fifo, and every stored xid has 32 bits. -/
theorem indices_of_reached {c d : UdpCache} {size : Nat} (hsize : c.ucSize = size) (hvictim : c.ucNextvictim < size)
    (hxids : ∀ n ent, c.nodes n = some ent → ent.cacheXid < uintRange) (hd : Reached step ShortXid c d) :
    d.ucSize = size ∧ d.ucNextvictim < size ∧ ∀ n ent, d.nodes n = some ent → ent.cacheXid < uintRange := by
  refine hd.invariant (fun d => d.ucSize = size ∧ d.ucNextvictim < size ∧
    ∀ n ent, d.nodes n = some ent → ent.cacheXid < uintRange) ⟨hsize, hvictim, hxids⟩ ?_
  rintro d call d' ⟨hsize, hvictim, hxids⟩ hshort hst
  have hkeeps := step_keeps hst
  refine ⟨hkeeps.size.trans hsize, ?_, ?_⟩
  · obtain heq | heq := hkeeps.victim
    · rw [heq]
      exact hvictim
    · rw [heq, hsize]
      exact Nat.mod_lt _ (Nat.zero_lt_of_lt hvictim)
  · intro n ent hent
    obtain heq | ⟨ent₀, hent₀, heq⟩ := hkeeps.xids n ent hent
    · rw [heq]
      exact hshort
    · rw [heq]
      exact hxids n ent₀ hent₀

/-- In every state that calls with xids of 32 bits reach, the indices are in their arrays, exactly if the size is
not zero. -/
theorem enablecache_indexable_iff {suCache ucOk entriesOk fifoOk : Bool} {size : Nat} {garbage : Caller}
    (h : svcudpEnablecache suCache size ucOk entriesOk fifoOk garbage = some c) :
    (∀ d, Reached step ShortXid c d → d.Indexable size) ↔ 0 < size := by
  constructor
  · intro hall
    exact Nat.zero_lt_of_lt (hall c .start).victim
  · intro hpos d hd
    obtain ⟨rfl, hfits⟩ := enablecache_some h
    obtain ⟨hsize, hvictim, hxids⟩ := indices_of_reached rfl hpos (fun n ent hent => by cases hent) hd
    exact ⟨fun xid hxid => cacheLoc_slot hpos hfits hsize hxid, hxids, hvictim⟩

/-- A cache of three entries, with anything in the fields that it saves. -/
def threeEntries (garbage : Caller) : UdpCache := ⟨3, fun _ => none, fun _ => none, 0, garbage, fun _ => none⟩

theorem enablecache_indexable_iff_three :
    (∀ d, Reached step ShortXid (threeEntries ⟨0, 0, 0, ⟨2, 1023, 0, 0⟩⟩) d → d.Indexable 3) ↔ 0 < 3 :=
  enablecache_indexable_iff (rfl : svcudpEnablecache false 3 true true true _ = some _)

theorem enablecache_indexable_counterexample :
    ¬ ∀ size c garbage, svcudpEnablecache false size true true true garbage = some c →
      ∀ d, Reached step ShortXid c d → d.Indexable size := by
  intro hall
  have hindex := hall 0 _ ⟨0, 0, 0, ⟨2, 1023, 0, 0⟩⟩ rfl _ .start
  exact Nat.not_lt_zero _ hindex.victim

end UdpCache

end RpcMt
