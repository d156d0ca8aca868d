import RpcMt.UdpCacheChains

/-! The reply cache after any sequence of calls of `cache_set`: a first-in first-out store of the last
`uc_size` replies. What can be reached from `uc_entries` is exactly these, each on the chain of its own
xid; the victim of the next call is always found, and a search of a chain finds the newest of them
under its key. -/

open RpcMt.Links

namespace RpcMt.UdpCache

/-- One call of `cache_set`. The key is the xid of the transport and the fields that the last lookup
saved; `alloc` is what `malloc` would hand out for a new entry. -/
structure SetCall where
  su : SvcudpData
  caller : Caller
  replylen : Nat
  alloc : Alloc

def SetCall.stored (call : SetCall) : Stored :=
  ⟨call.su.suXid, call.caller, call.su.rpcBuffer, call.replylen⟩

def setCall (r : UdpCache × Bufs) (call : SetCall) : Res (UdpCache × Bufs) := do
  let (c, _, bufs) ←
    { r.1 with ucCaller := call.caller }.cacheSet call.su call.replylen (some call.alloc) r.2
  pure (c, bufs)

def setCalls (c : UdpCache) (bufs : Bufs) (calls : List SetCall) : Res (UdpCache × Bufs) :=
  calls.foldlM setCall (c, bufs)

/-- Following links from the head of the chain `loc` leads to `n`. -/
inductive Reaches (c : UdpCache) (loc : Nat) : NodeId → Prop
  | head {n : NodeId} (h : c.ucEntries loc = some n) : Reaches c loc n
  | next {m n : NodeId} (hm : Reaches c loc m) (h : c.link m = some n) : Reaches c loc n

/-- The cache is a first-in first-out store of `size` entries to which `log` has been stored, newest
first. -/
structure Fifo (c : UdpCache) (size : Nat) (log : List Stored) : Prop where
  /-- The entries that can be reached hold the last stores, one each. -/
  entries : ∃ recent : List NodeId, recent.Nodup ∧
    recent.map c.storedAt = (log.take size).map some ∧ ∀ n, (∃ loc, c.Reaches loc n) ↔ n ∈ recent
  /-- An entry is reached from the slot of its own xid. -/
  slot : ∀ loc n, c.Reaches loc n →
    ∃ st, c.storedAt n = some st ∧ loc = st.xid % (sparseness * size)
  /-- A chain passes through each of its entries once and ends. -/
  acyclic : ∀ loc, ∃ l : List NodeId, Path c.link (c.ucEntries loc) l ∧ l.Nodup ∧
    ∀ n, n ∈ l ↔ c.Reaches loc n
  disjoint : ∀ loc loc' n, c.Reaches loc n → c.Reaches loc' n → loc = loc'
  nextvictim : c.ucNextvictim < size
  /-- The entry to be used again next is found on its chain. -/
  victim : ∀ victim, c.ucFifo c.ucNextvictim = some victim →
    ∃ ent loc v, c.node victim = .ok ent ∧ c.cacheLoc ent.cacheXid = .ok loc ∧
      c.findVictim victim (size + 1) (.slot loc) = .ok (some v)
  /-- The newest live store under a key is what a search for it returns. -/
  search : ∀ xid caller, ∃ loc found, c.cacheLoc xid = .ok loc ∧
    { c with ucCaller := caller }.cacheFind xid (size + 1) (c.ucEntries loc) = .ok found ∧
    found.map CacheNode.stored = (log.take size).find? fun st => st.xid = xid ∧ st.caller = caller

variable {c : UdpCache} {recent : List NodeId} {log : List Stored}

/-! ### What the chains say about reachability -/

theorem reaches_of_path {loc : Nat} {p : Option NodeId} {l : List NodeId}
    (hstart : ∀ n, p = some n → c.Reaches loc n) (hp : Path c.link p l) : ∀ n ∈ l, c.Reaches loc n := by
  induction l generalizing p with
  | nil =>
      intro n hn
      cases hn
  | cons m l ih =>
      obtain ⟨rfl, hp⟩ := hp
      have hm := hstart m rfl
      intro n hn
      rcases List.mem_cons.mp hn with rfl | hn
      · exact hm
      · exact ih (fun k hk => hm.next hk) hp n hn

theorem reaches_iff_mem {loc : Nat} {l : List NodeId} (hp : Path c.link (c.ucEntries loc) l)
    (n : NodeId) : n ∈ l ↔ c.Reaches loc n := by
  refine ⟨reaches_of_path (fun m hm => .head hm) hp n, fun h => ?_⟩
  induction h with
  | @head n h =>
      cases l with
      | nil =>
          rw [h] at hp
          cases hp
      | cons m l =>
          have heq := Option.some.inj (h.symm.trans hp.1)
          rw [heq]
          exact List.mem_cons_self
  | @next m n _ h ih =>
      obtain ⟨l₁, l₂, rfl⟩ := List.append_of_mem ih
      have hrest := hp.drop
      rw [h] at hrest
      cases l₂ with
      | nil => cases hrest
      | cons k l₂ =>
          have heq := Option.some.inj hrest.1
          rw [heq]
          simp

theorem map_storedAt_eq (halloc : ∀ n ∈ recent, ∃ ent, c.nodes n = some ent) :
    recent.map c.storedAt = (c.contents recent).map some := by
  induction recent with
  | nil => rfl
  | cons n l ih =>
      obtain ⟨ent, hent⟩ := halloc n List.mem_cons_self
      have hat : c.storedAt n = some ent.stored := by
        rw [storedAt, hent]
        rfl
      rw [List.map_cons, contents_cons hat, List.map_cons, hat,
        ih fun m hm => halloc m (List.mem_cons_of_mem _ hm)]

/-- The entry that the ring names is the oldest one, and the loop of `cache_set` finds it. -/
theorem CacheInv.victim_found (h : CacheInv c recent) {victim : NodeId}
    (hv : c.ucFifo c.ucNextvictim = some victim) :
    ∃ ent loc v, c.node victim = .ok ent ∧ c.cacheLoc ent.cacheXid = .ok loc ∧
      c.findVictim victim (c.ucSize + 1) (.slot loc) = .ok (some v) := by
  have hle := h.length_le
  rcases Nat.lt_or_ge recent.length c.ucSize with hlt | hge
  · rw [h.fifo.next_of_lt (by rwa [List.length_reverse])] at hv
    cases hv
  · rcases List.eq_nil_or_concat recent with rfl | ⟨rest, oldest, hsplit⟩
    · have hpos := h.size_pos
      simp at hge
      omega
    · rw [List.concat_eq_append] at hsplit
      subst hsplit
      have hfifo := h.fifo
      rw [List.reverse_append, List.reverse_singleton, List.singleton_append] at hfifo
      have hfull : (oldest :: rest.reverse).length = c.ucSize := by
        rw [List.length_append, List.length_singleton] at hge hle
        rw [List.length_cons, List.length_reverse]
        omega
      obtain rfl : oldest = victim := Option.some.inj ((hfifo.next_of_full hfull).symm.trans hv)
      obtain ⟨ent, hent⟩ := h.alloc oldest (List.mem_append_right _ (List.mem_singleton_self _))
      have hfuel : rest.length < c.ucSize + 1 := by
        rw [List.length_append, List.length_singleton] at hle
        omega
      obtain ⟨v, _, hfind, _⟩ := unlink_victim h.chains h.nodup
        (fun n hn => h.alloc n (List.mem_append_left _ hn)) hent hfuel
      exact ⟨ent, _, v, node_of_some hent, cacheLoc_eq h.size_pos h.size_fits _, hfind⟩

/-- A cache that refines a history of stores whose xids are 32-bit words is such a store. -/
theorem Refines.fifo (h : Refines c recent log) (hxid : ∀ st ∈ log, st.xid < uintRange) :
    Fifo c c.ucSize log := by
  have hmem : ∀ n ∈ recent, ∃ st ∈ log, c.storedAt n = some st := by
    intro n hn
    obtain ⟨ent, hent⟩ := h.inv.alloc n hn
    have hat : c.storedAt n = some ent.stored := by
      rw [storedAt, hent]
      rfl
    refine ⟨ent.stored, ?_, hat⟩
    have hin : ent.stored ∈ c.contents recent := List.mem_filterMap.mpr ⟨n, hn, hat⟩
    rw [h.contents_eq] at hin
    exact List.mem_of_mem_take hin
  have hreach : ∀ loc n, c.Reaches loc n ↔ n ∈ recent ∧ c.inSlot loc n = true := by
    intro loc n
    rw [← reaches_iff_mem (h.inv.chains loc), List.mem_filter]
  have hslot : ∀ loc n, c.Reaches loc n →
      ∃ st, c.storedAt n = some st ∧ loc = st.xid % (sparseness * c.ucSize) := by
    intro loc n hn
    obtain ⟨hin, hloc⟩ := (hreach loc n).mp hn
    obtain ⟨st, hst, hat⟩ := hmem n hin
    refine ⟨st, hat, ?_⟩
    have heq : c.slotOf st.xid = loc := by
      rw [inSlot, hat] at hloc
      exact beq_iff_eq.mp hloc
    have hlt : st.xid % (sparseness * c.ucSize) < uintRange :=
      lt_of_le_of_lt (Nat.mod_le _ _) (hxid st hst)
    rw [← heq, slotOf, Nat.mod_eq_of_lt hlt]
  refine ⟨⟨recent, h.inv.nodup, ?_, fun n => ⟨?_, fun hn => ?_⟩⟩, hslot, fun loc => ?_, ?_, h.inv.fifo.next_lt,
    fun victim hv => h.inv.victim_found hv, fun xid caller => ?_⟩
  · rw [map_storedAt_eq h.inv.alloc, h.contents_eq]
  · rintro ⟨loc, hn⟩
    exact ((hreach loc n).mp hn).1
  · obtain ⟨st, _, hat⟩ := hmem n hn
    refine ⟨c.slotOf st.xid, (hreach _ n).mpr ⟨hn, ?_⟩⟩
    simp [inSlot, hat]
  · exact ⟨_, h.inv.chains loc, h.inv.nodup.filter _, reaches_iff_mem (h.inv.chains loc)⟩
  · intro loc loc' n hn hn'
    obtain ⟨st, hat, hloc⟩ := hslot loc n hn
    obtain ⟨st', hat', hloc'⟩ := hslot loc' n hn'
    cases hat.symm.trans hat'
    exact hloc.trans hloc'.symm
  · have hkey := h.saved caller
    have hlen : (recent.filter (c.inSlot (c.slotOf xid))).length ≤ c.ucSize + 1 := by
      have hfilter := List.length_filter_le (c.inSlot (c.slotOf xid)) recent
      have hle := h.inv.length_le
      omega
    obtain ⟨found, hfind, heq⟩ : ∃ r, { c with ucCaller := caller }.cacheFind xid (c.ucSize + 1)
        (c.ucEntries (c.slotOf xid)) = .ok r ∧ r.map CacheNode.stored = _ :=
      cacheFind_path (hkey.inv.chains (c.slotOf xid))
        (fun n hn => h.inv.alloc n (List.mem_of_mem_filter hn)) hlen
    refine ⟨c.slotOf xid, found, cacheLoc_eq h.inv.size_pos h.inv.size_fits xid, hfind, ?_⟩
    have hall := find_filter_inSlot (c := { c with ucCaller := caller }) (l := recent) xid
    rw [hkey.contents_eq] at hall
    exact heq.trans hall

/-! ### Sequences of calls -/

/-- A call that gets its memory puts its store in front and touches no entry but the new one and the
ones in use. -/
theorem setCall_spec (h : Refines c recent log) (call : SetCall) (bufs : Bufs)
    (hfree : c.nodes call.alloc.victim = none) :
    ∃ c' bufs' recent', setCall (c, bufs) call = .ok (c', bufs') ∧
      Refines c' recent' (call.stored :: log) ∧ c'.ucSize = c.ucSize ∧
      ∀ n, c'.storedAt n ≠ none → n = call.alloc.victim ∨ c.storedAt n ≠ none := by
  have hkey := h.saved call.caller
  have hnew : ∀ m, some call.alloc = some m → c.nodes m.victim = none := by
    intro m hm
    rw [← Option.some.inj hm]
    exact hfree
  obtain ⟨r, hr, hset⟩ := cacheSet_spec hkey.inv call.su call.replylen bufs hnew
  have hrun : setCall (c, bufs) call = .ok (r.1, r.2.2) := by
    rw [setCall, hr]
    rfl
  have hused : ∀ n, r.1.storedAt n ≠ none → n = call.alloc.victim ∨ c.storedAt n ≠ none := by
    intro n hn
    cases hset with
    | fresh hlt hinv hst =>
        by_cases hv : n = call.alloc.victim
        · exact Or.inl hv
        · rw [hst.frame n hv] at hn
          exact Or.inr hn
    | @reuse _ victim rest old c' hsplit hfull hold hinv hst =>
        right
        by_cases hv : n = victim
        · rw [hv]
          intro hnone
          exact absurd (hold.symm.trans hnone) (by simp)
        · rw [hst.frame n hv] at hn
          exact hn
  cases hkey.set hset with
  | fresh hlt href hsize hcaller hby => exact ⟨_, _, _, hrun, href, hsize, hused⟩
  | reuse hk hold href hsize hcaller hby => exact ⟨_, _, _, hrun, href, hsize, hused⟩

theorem setCalls_spec {calls : List SetCall} (h : Refines c recent log) (bufs : Bufs)
    (hnodup : (calls.map fun call => call.alloc.victim).Nodup)
    (hfree : ∀ call ∈ calls, c.storedAt call.alloc.victim = none) :
    ∃ c' bufs' recent', c.setCalls bufs calls = .ok (c', bufs') ∧ c'.ucSize = c.ucSize ∧
      Refines c' recent' ((calls.map SetCall.stored).reverse ++ log) := by
  induction calls generalizing c recent log bufs with
  | nil => exact ⟨c, bufs, recent, rfl, rfl, h⟩
  | cons call calls ih =>
      have hnone : c.nodes call.alloc.victim = none :=
        Option.map_eq_none_iff.mp (hfree call List.mem_cons_self)
      obtain ⟨c₁, bufs₁, recent₁, hcall, href, hsize, hused⟩ := setCall_spec h call bufs hnone
      obtain ⟨hfirst, hrest⟩ := List.nodup_cons.mp hnodup
      have hfree₁ : ∀ call' ∈ calls, c₁.storedAt call'.alloc.victim = none := by
        intro call' hmem
        by_contra hsome
        rcases hused _ hsome with heq | hold
        · exact hfirst (List.mem_map.mpr ⟨call', hmem, heq⟩)
        · exact hold (hfree call' (List.mem_cons_of_mem _ hmem))
      obtain ⟨c', bufs', recent', hrun, hsize', hc'⟩ := ih href bufs₁ hrest hfree₁
      refine ⟨c', bufs', recent', ?_, hsize'.trans hsize, ?_⟩
      · rw [setCalls, List.foldlM_cons, hcall]
        exact hrun
      · rw [List.map_cons, List.reverse_cons, List.append_assoc, List.singleton_append]
        exact hc'

/-- After `svcudp_enablecache` with a size of at least one and any sequence of calls of `cache_set`,
with any 32-bit xids, keys and replies, the cache is a first-in first-out store of them. `malloc` hands
out no entry twice, since none is ever freed. -/
theorem setCalls_fifo {suCache ucOk entriesOk fifoOk : Bool} {size : Nat} {garbage : Caller}
    {c₀ : UdpCache} (hsize : 1 ≤ size)
    (henable : svcudpEnablecache suCache size ucOk entriesOk fifoOk garbage = some c₀)
    (calls : List SetCall) (bufs : Bufs) (hxid : ∀ call ∈ calls, call.su.suXid < uintRange)
    (halloc : (calls.map fun call => call.alloc.victim).Nodup) :
    ∃ c bufs', c₀.setCalls bufs calls = .ok (c, bufs') ∧ c.ucSize = size ∧
      Fifo c size (calls.map SetCall.stored).reverse ∧
      ((calls.map SetCall.stored).reverse.take size).length = min size calls.length := by
  have hinv := cacheInv_enablecache hsize henable
  have hc₀ : c₀.ucSize = size ∧ ∀ n, c₀.storedAt n = none := by
    rw [(enablecache_some henable).1]
    exact ⟨rfl, fun _ => rfl⟩
  have href : Refines c₀ [] [] := ⟨hinv, List.take_nil.symm⟩
  obtain ⟨c, bufs', recent, hrun, hcsize, hc⟩ := setCalls_spec href bufs halloc fun call _ => hc₀.2 _
  rw [List.append_nil] at hc
  have hxids : ∀ st ∈ (calls.map SetCall.stored).reverse, st.xid < uintRange := by
    intro st hst
    obtain ⟨call, hcall, rfl⟩ := List.mem_map.mp (List.mem_reverse.mp hst)
    exact hxid call hcall
  have hsz : c.ucSize = size := hcsize.trans hc₀.1
  refine ⟨c, bufs', hrun, hsz, hsz ▸ hc.fifo hxids, ?_⟩
  rw [List.length_take, List.length_reverse, List.length_map]

/-- A store of a reply in buffer `i` under the xid `xid`, with `i` as the new entry. -/
def storeCall (i xid : Nat) : SetCall :=
  ⟨⟨i, 8, false, 8, xid, xdrmemCreate i 8 .encode, true⟩, ⟨1, 1, 100, ⟨2, 7, 1, 0⟩⟩, 4, ⟨i, i + 10, []⟩⟩

/-- Three stores in a cache of two, the second on the chain of the first and the third under its xid
again. -/
theorem setCalls_fifo_three :
    ∃ c₀ c bufs, svcudpEnablecache false 2 true true true ⟨0, 0, 0, ⟨0, 0, 0, 0⟩⟩ = some c₀ ∧
      c₀.setCalls (fun _ => none) [storeCall 0 1, storeCall 1 9, storeCall 2 1] = .ok (c, bufs) ∧
      Fifo c 2 [(storeCall 2 1).stored, (storeCall 1 9).stored, (storeCall 0 1).stored] := by
  obtain ⟨c, bufs, hrun, _, hfifo, _⟩ := setCalls_fifo (by decide : 1 ≤ 2)
    (show svcudpEnablecache false 2 true true true ⟨0, 0, 0, ⟨0, 0, 0, 0⟩⟩ = some _ from rfl)
    [storeCall 0 1, storeCall 1 9, storeCall 2 1] (fun _ => none) (by decide) (by decide)
  exact ⟨_, c, bufs, rfl, hrun, hfifo⟩

end RpcMt.UdpCache
