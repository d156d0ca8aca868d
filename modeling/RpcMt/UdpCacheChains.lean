import RpcMt.Links
import RpcMt.Ring
import RpcMt.UdpCache

/-! The reply cache refines a bounded list of stores, newest first. The entries in use, in the order of
their last store, determine everything: each chain is the part of them that hashes to its slot, and
the ring holds them oldest first, so that the victim is the last entry of its chain. `cache_set` puts
a store in front and drops the oldest beyond the size; `cache_get` finds the newest store under the
wanted xid and the saved fields of the header. -/

open RpcMt.Links

namespace RpcMt

/-- What a store leaves in an entry. -/
structure Stored where
  xid : Nat
  caller : Caller
  reply : BufId
  replylen : Nat
  deriving DecidableEq, Repr

def CacheNode.stored (ent : CacheNode) : Stored :=
  ⟨ent.cacheXid, ent.cacheCaller, ent.cacheReply, ent.cacheReplylen⟩

namespace UdpCache

/-- `CACHE_LOC` where nothing wraps. -/
def slotOf (c : UdpCache) (xid : Nat) : Nat := xid % (sparseness * c.ucSize) % uintRange

def link (c : UdpCache) (n : NodeId) : Option NodeId := (c.nodes n).bind CacheNode.cacheNext

def storedAt (c : UdpCache) (n : NodeId) : Option Stored := (c.nodes n).map CacheNode.stored

/-- The entry `n` hashes to the slot `loc`. -/
def inSlot (c : UdpCache) (loc : Nat) (n : NodeId) : Bool :=
  (c.storedAt n).any fun st => c.slotOf st.xid == loc

/-- Every chain is the part of `l` that hashes to its slot. -/
def Chains (c : UdpCache) (l : List NodeId) : Prop :=
  ∀ loc, Path c.link (c.ucEntries loc) (l.filter (c.inSlot loc))

/-- The entries in use are `recent`, newest first. -/
structure CacheInv (c : UdpCache) (recent : List NodeId) : Prop where
  size_fits : 8 * c.ucSize < sizeRange
  nodup : recent.Nodup
  alloc : ∀ n ∈ recent, ∃ ent, c.nodes n = some ent
  chains : c.Chains recent
  fifo : Ring.Holds c.ucFifo c.ucSize c.ucNextvictim recent.reverse

variable {c c' : UdpCache} {recent l rest : List NodeId} {victim : NodeId} {ent : CacheNode}

section Enabled

variable {suCache ucOk entriesOk fifoOk : Bool} {size : Nat} {garbage : Caller}

/-- A cache that has just been enabled is empty, and its ring has not overflowed. -/
theorem enablecache_some (h : svcudpEnablecache suCache size ucOk entriesOk fifoOk garbage = some c) :
    c = ⟨size, fun _ => none, fun _ => none, 0, garbage, fun _ => none⟩ ∧ 8 * size < sizeRange := by
  unfold svcudpEnablecache at h
  split at h
  · cases h
  split at h
  · cases h
  split at h
  · cases h
  split at h
  · cases h
  · rename_i hfits
    cases h
    simp [callocFits] at hfits
    exact ⟨rfl, hfits.2⟩

theorem enablecache_size (h : svcudpEnablecache suCache size ucOk entriesOk fifoOk garbage = some c) :
    c.ucSize = size := by
  rw [(enablecache_some h).1]

theorem cacheInv_enablecache (hsize : 0 < size)
    (h : svcudpEnablecache suCache size ucOk entriesOk fifoOk garbage = some c) : CacheInv c [] := by
  obtain ⟨rfl, hfits⟩ := enablecache_some h
  refine ⟨hfits, List.nodup_nil, ?_, ?_, Ring.holds_empty hsize⟩
  · simp
  · intro loc
    exact rfl

/-- The cache that a server starts with: none, or one that has just been enabled. -/
theorem cacheInv_enabled {cache : Option UdpCache}
    (h : svcudpEnablecache suCache size ucOk entriesOk fifoOk garbage = cache) :
    ∀ c, cache = some c → 0 < c.ucSize → c.CacheInv [] := by
  intro c hc hpos
  have hsome := h.trans hc
  rw [enablecache_size hsome] at hpos
  exact cacheInv_enablecache hpos hsome

end Enabled

namespace CacheInv

theorem size_pos (h : CacheInv c recent) : 0 < c.ucSize := Nat.zero_lt_of_lt h.fifo.next_lt

theorem length_le (h : CacheInv c recent) : recent.length ≤ c.ucSize := by
  have hle := h.fifo.length_le
  rwa [List.length_reverse] at hle

end CacheInv

theorem cacheLoc_eq (hpos : 0 < c.ucSize) (hfits : 8 * c.ucSize < sizeRange) (xid : Nat) :
    c.cacheLoc xid = .ok (c.slotOf xid) := by
  have hslots : sparseness * c.ucSize % sizeRange = sparseness * c.ucSize := by
    rw [Nat.mod_eq_of_lt]
    simp only [sparseness]
    omega
  have hne : sparseness * c.ucSize ≠ 0 := by
    simp only [sparseness]
    omega
  simp only [cacheLoc, hslots, if_neg hne, slotOf]

theorem node_of_some (h : c.nodes victim = some ent) : c.node victim = .ok ent := by
  rw [node, h]

theorem inSlot_congr (hsize : c'.ucSize = c.ucSize) {n : NodeId} (h : c'.storedAt n = c.storedAt n)
    (loc : Nat) : c'.inSlot loc n = c.inSlot loc n := by
  simp only [inSlot, h, slotOf, hsize]

/-- Following the links of allocated entries is what the loop of `cache_set` does. -/
theorem findVictim_path {v : Vicp} {p : Option NodeId} {fuel : Nat} {l₂ : List NodeId}
    (hv : c.vicp v = .ok p) (hp : Path c.link p (l ++ victim :: l₂)) (hnot : victim ∉ l)
    (halloc : ∀ n ∈ l, ∃ ent, c.nodes n = some ent) (hfuel : l.length < fuel) :
    c.findVictim victim fuel v = .ok (some ((l.getLast?.map Vicp.next).getD v)) := by
  induction l generalizing v p fuel with
  | nil =>
      obtain ⟨fuel, rfl⟩ : ∃ k, fuel = k + 1 := ⟨fuel - 1, by simp at hfuel; omega⟩
      obtain ⟨rfl, _⟩ := hp
      rw [findVictim, hv]
      change (if victim = victim then _ else _) = _
      rw [if_pos rfl]
      rfl
  | cons n l ih =>
      obtain ⟨fuel, rfl⟩ : ∃ k, fuel = k + 1 := ⟨fuel - 1, by simp at hfuel; omega⟩
      obtain ⟨rfl, hp⟩ := hp
      obtain ⟨ent, hent⟩ := halloc n List.mem_cons_self
      have hne : n ≠ victim := fun heq => hnot (heq ▸ List.mem_cons_self)
      have hnext : c.vicp (.next n) = .ok (c.link n) := by
        rw [vicp, node_of_some hent, link, hent]
        rfl
      have hrest := ih hnext hp (fun hmem => hnot (List.mem_cons_of_mem _ hmem))
        (fun m hm => halloc m (List.mem_cons_of_mem _ hm)) (by simpa using hfuel)
      rw [findVictim, hv]
      change (if n = victim then _ else _) = _
      rw [if_neg hne, hrest]
      cases l with
      | nil => rfl
      | cons m l => simp [List.getLast?_cons]

/-- The same stores in the same entries; only links differ. -/
structure Relinked (c c' : UdpCache) : Prop where
  size : c'.ucSize = c.ucSize
  fifo : c'.ucFifo = c.ucFifo
  nextvictim : c'.ucNextvictim = c.ucNextvictim
  caller : c'.ucCaller = c.ucCaller
  stored : ∀ n, c'.storedAt n = c.storedAt n

/-- The link of the entry `u` re-pointed to `p`. -/
def relink (c : UdpCache) (u : NodeId) (eu : CacheNode) (p : Option NodeId) : UdpCache :=
  { c with nodes := Function.update c.nodes u (some { eu with cacheNext := p }) }

theorem storedAt_relink {u : NodeId} {eu : CacheNode} (h : c.nodes u = some eu) (p : Option NodeId)
    (n : NodeId) : (c.relink u eu p).storedAt n = c.storedAt n := by
  by_cases hn : n = u
  · simp [storedAt, relink, hn, h, CacheNode.stored]
  · simp [storedAt, relink, Function.update_of_ne hn]

theorem link_relink (u : NodeId) (eu : CacheNode) (p : Option NodeId) :
    (c.relink u eu p).link = Function.update c.link u p := by
  funext n
  by_cases hn : n = u
  · simp [link, relink, hn]
  · simp [link, relink, Function.update_of_ne hn]

theorem inSlot_self (h : c.nodes victim = some ent) (loc : Nat) :
    c.inSlot loc victim = (c.slotOf ent.cacheXid == loc) := by
  simp [inSlot, storedAt, h, CacheNode.stored]

/-- The victim is the oldest entry, hence the last one on its chain; the loop of `cache_set` finds it
there and takes it off. -/
theorem unlink_victim (hchains : c.Chains (rest ++ [victim])) (hnodup : (rest ++ [victim]).Nodup)
    (halloc : ∀ n ∈ rest, ∃ ent, c.nodes n = some ent) (hent : c.nodes victim = some ent)
    {fuel : Nat} (hfuel : rest.length < fuel) :
    ∃ v c₁, c.findVictim victim fuel (.slot (c.slotOf ent.cacheXid)) = .ok (some v) ∧
      c.setVicp ent.cacheNext v = .ok c₁ ∧ c₁.Chains rest ∧ Relinked c c₁ := by
  set loc := c.slotOf ent.cacheXid with hloc
  have hnot : victim ∉ rest := by
    intro hmem
    exact (List.nodup_append.mp hnodup).2.2 victim hmem victim (List.mem_singleton_self _) rfl
  have hself : (rest ++ [victim]).filter (c.inSlot loc) = rest.filter (c.inSlot loc) ++ [victim] := by
    simp [inSlot_self hent, hloc]
  have hother : ∀ loc', loc' ≠ loc →
      (rest ++ [victim]).filter (c.inSlot loc') = rest.filter (c.inSlot loc') := by
    intro loc' hne
    simp [inSlot_self hent, ← hloc, Ne.symm hne]
  have hpath : Path c.link (c.ucEntries loc) (rest.filter (c.inSlot loc) ++ [victim]) :=
    hself ▸ hchains loc
  have hnext : ent.cacheNext = none := by
    have hend : c.link victim = none := hpath.drop
    rwa [link, hent] at hend
  have hhead : c.vicp (.slot loc) = .ok (c.ucEntries loc) := rfl
  have hfind := findVictim_path hhead hpath (fun hmem => hnot (List.mem_of_mem_filter hmem))
    (fun n hn => halloc n (List.mem_of_mem_filter hn))
    (lt_of_le_of_lt (List.length_filter_le _ _) hfuel)
  rcases List.eq_nil_or_concat (rest.filter (c.inSlot loc)) with hnil | ⟨front, u, hsplit⟩
  · -- The victim is alone on its chain: the head of the chain is re-pointed.
    rw [hnil] at hfind
    refine ⟨_, _, hfind, rfl, fun loc' => ?_, ⟨rfl, rfl, rfl, rfl, fun n => rfl⟩⟩
    change Path c.link (Function.update c.ucEntries loc ent.cacheNext loc') (rest.filter (c.inSlot loc'))
    by_cases heq : loc' = loc
    · rw [heq, Function.update_self, hnil, hnext]
      exact rfl
    · rw [Function.update_of_ne heq, ← hother loc' heq]
      exact hchains loc'
  · -- Its predecessor `u` is: the link of `u` is re-pointed.
    rw [List.concat_eq_append] at hsplit
    rw [hsplit] at hfind hpath
    have hmem : u ∈ rest.filter (c.inSlot loc) := hsplit ▸ List.mem_append_right _ (List.mem_singleton_self _)
    obtain ⟨eu, heu⟩ := halloc u (List.mem_of_mem_filter hmem)
    have hset : c.setVicp ent.cacheNext (.next u) = .ok (c.relink u eu ent.cacheNext) := by
      rw [setVicp, node_of_some heu]
      rfl
    rw [List.getLast?_append_of_ne_nil _ (List.cons_ne_nil _ _)] at hfind
    have hrel : Relinked c (c.relink u eu ent.cacheNext) :=
      ⟨rfl, rfl, rfl, rfl, storedAt_relink heu ent.cacheNext⟩
    refine ⟨_, _, hfind, hset, fun loc' => ?_, hrel⟩
    have hfilter : rest.filter ((c.relink u eu ent.cacheNext).inSlot loc') = rest.filter (c.inSlot loc') :=
      List.filter_congr fun n _ => inSlot_congr hrel.size (hrel.stored n) loc'
    rw [hfilter, link_relink]
    change Path _ (c.ucEntries loc') _
    by_cases heq : loc' = loc
    · rw [heq, hsplit]
      have hnd : (front ++ u :: victim :: []).Nodup := by
        have hsub := hnodup.filter (c.inSlot loc)
        rwa [hself, hsplit, List.append_assoc] at hsub
      have hunlink := Path.unlink (by rwa [List.append_assoc] at hpath) hnd
      have hend : c.link victim = ent.cacheNext := by rw [link, hent]; rfl
      rwa [hend] at hunlink
    · rw [← hother loc' heq]
      apply (hchains loc').congr
      intro n hn
      have hnu : n ≠ u := by
        rintro rfl
        have h1 := (List.mem_filter.mp hn).2
        have h2 := (List.mem_filter.mp hmem).2
        rw [inSlot_self heu] at h1 h2
        exact heq ((beq_iff_eq.mp h1).symm.trans (beq_iff_eq.mp h2))
      rw [Function.update_of_ne hnu]

/-- What `cache_set` writes into the entry it uses. -/
def newStored (c : UdpCache) (su : SvcudpData) (replylen : Nat) : Stored :=
  ⟨su.suXid, c.ucCaller, su.rpcBuffer, replylen⟩

/-- The state after a store: `victim` is the newest entry, the other entries are as they were. -/
structure StoredAway (c c' : UdpCache) (victim : NodeId) (rest : List NodeId) (st : Stored) : Prop where
  chains : c'.Chains (victim :: rest)
  self : c'.storedAt victim = some st
  frame : ∀ n, n ≠ victim → c'.storedAt n = c.storedAt n
  size : c'.ucSize = c.ucSize
  caller : c'.ucCaller = c.ucCaller
  fifo : c'.ucFifo = Function.update c.ucFifo c.ucNextvictim (some victim)
  nextvictim : c'.ucNextvictim = (c.ucNextvictim + 1) % c.ucSize

theorem storedAt_enter_self (loc : Nat) : (c.enter victim loc ent).storedAt victim = some ent.stored := by
  simp [storedAt, enter, CacheNode.stored]

theorem nodes_enter_of_ne {n : NodeId} (hn : n ≠ victim) (loc : Nat) :
    (c.enter victim loc ent).nodes n = c.nodes n := Function.update_of_ne hn _ _

/-- The new entry is put in front of its chain and the other chains stay as they are. -/
theorem chains_enter (hchains : c.Chains rest) (hnot : victim ∉ rest) :
    (c.enter victim (c.slotOf ent.cacheXid) ent).Chains (victim :: rest) := by
  set loc := c.slotOf ent.cacheXid with hloc
  intro loc'
  have hne : ∀ n ∈ rest, n ≠ victim := fun n hn heq => hnot (heq ▸ hn)
  have hlink : ∀ n ∈ rest, (c.enter victim loc ent).link n = c.link n := by
    intro n hn
    rw [link, link, nodes_enter_of_ne (hne n hn)]
  have hfilter : rest.filter ((c.enter victim loc ent).inSlot loc') = rest.filter (c.inSlot loc') := by
    apply List.filter_congr
    intro n hn
    have hsize : (c.enter victim loc ent).ucSize = c.ucSize := rfl
    apply inSlot_congr hsize
    rw [storedAt, storedAt, nodes_enter_of_ne (hne n hn)]
  have hself : (c.enter victim loc ent).inSlot loc' victim = (loc == loc') := by
    rw [inSlot, storedAt_enter_self, hloc]
    rfl
  rw [List.filter_cons, hself, hfilter]
  by_cases heq : loc' = loc
  · rw [heq, if_pos (beq_self_eq_true _)]
    have hhead : (c.enter victim loc ent).ucEntries loc = some victim := Function.update_self ..
    rw [hhead]
    apply (hchains loc).push
    · simp [link, enter]
    · intro n hn
      exact hlink n (List.mem_of_mem_filter hn)
  · rw [if_neg (by simp [Ne.symm heq])]
    have hhead : (c.enter victim loc ent).ucEntries loc' = c.ucEntries loc' :=
      Function.update_of_ne heq _ _
    rw [hhead]
    exact (hchains loc').congr fun n hn => hlink n (List.mem_of_mem_filter hn)

theorem storeAway_spec (hpos : 0 < c.ucSize) (hfits : 8 * c.ucSize < sizeRange)
    (hchains : c.Chains rest) (hnot : victim ∉ rest) (newbuf : BufId) (su : SvcudpData) (replylen : Nat) :
    ∃ c', c.storeAway victim newbuf su replylen =
        .ok (c', { su with rpcBuffer := newbuf, suXdrs := xdrmemCreate newbuf su.suIosz .encode }) ∧
      StoredAway c c' victim rest (c.newStored su replylen) := by
  let ent : CacheNode := ⟨su.suXid, c.ucCaller, su.rpcBuffer, replylen, none⟩
  refine ⟨c.enter victim (c.slotOf su.suXid) ent, ?_, ?_⟩
  · rw [storeAway, cacheLoc_eq hpos hfits]
    rfl
  · refine ⟨chains_enter hchains hnot, storedAt_enter_self _, fun n hn => ?_, rfl, rfl, rfl, rfl⟩
    rw [storedAt, storedAt, nodes_enter_of_ne hn]

/-! ### `cache_set` and `cache_get` on the list of stores -/

/-- The stores in the entries of a list. -/
def contents (c : UdpCache) (l : List NodeId) : List Stored := l.filterMap c.storedAt

theorem contents_cons {n : NodeId} {st : Stored} (h : c.storedAt n = some st) :
    c.contents (n :: l) = st :: c.contents l := List.filterMap_cons_some h

theorem contents_congr (h : ∀ n ∈ l, c'.storedAt n = c.storedAt n) : c'.contents l = c.contents l :=
  List.filterMap_congr h

/-- What `cache_set` does, one line for each of its three ways: no memory for a new entry, a new entry
while the ring has room, the oldest entry used again and its buffer handed over. -/
inductive SetSpec (c : UdpCache) (recent : List NodeId) (su : SvcudpData) (replylen : Nat) (bufs : Bufs) :
    Option Alloc → UdpCache × SvcudpData × Bufs → Prop
  | full (hlt : recent.length < c.ucSize) : SetSpec c recent su replylen bufs none (c, su, bufs)
  | fresh {m : Alloc} {c' : UdpCache} (hlt : recent.length < c.ucSize)
      (hinv : CacheInv c' (m.victim :: recent))
      (hst : StoredAway c c' m.victim recent (c.newStored su replylen)) :
      SetSpec c recent su replylen bufs (some m) (c',
        { su with rpcBuffer := m.newbuf, suXdrs := xdrmemCreate m.newbuf su.suIosz .encode },
        Function.update bufs m.newbuf (some m.garbage))
  | reuse {alloc : Option Alloc} {victim : NodeId} {rest : List NodeId} {old : Stored} {c' : UdpCache}
      (hsplit : recent = rest ++ [victim]) (hfull : rest.length + 1 = c.ucSize)
      (hold : c.storedAt victim = some old)
      (hinv : CacheInv c' (victim :: rest))
      (hst : StoredAway c c' victim rest (c.newStored su replylen)) :
      SetSpec c recent su replylen bufs alloc (c',
        { su with rpcBuffer := old.reply, suXdrs := xdrmemCreate old.reply su.suIosz .encode }, bufs)

theorem alloc_of_storedAt {n : NodeId} {st : Stored} (h : c.storedAt n = some st) :
    ∃ ent, c.nodes n = some ent ∧ ent.stored = st := Option.map_eq_some_iff.mp h

theorem StoredAway.alloc {st : Stored} (h : StoredAway c c' victim rest st)
    (halloc : ∀ n ∈ rest, ∃ ent, c.nodes n = some ent) :
    ∀ n ∈ victim :: rest, ∃ ent, c'.nodes n = some ent := by
  intro n hn
  have hat : ∃ st, c'.storedAt n = some st := by
    by_cases heq : n = victim
    · exact ⟨st, heq ▸ h.self⟩
    · obtain ⟨ent, hent⟩ := halloc n ((List.mem_cons.mp hn).resolve_left heq)
      refine ⟨ent.stored, ?_⟩
      rw [h.frame n heq, storedAt, hent]
      rfl
  obtain ⟨st, hst⟩ := hat
  obtain ⟨ent, hent, _⟩ := alloc_of_storedAt hst
  exact ⟨ent, hent⟩

/-- The ring has room: a new entry, if there is memory for one. -/
theorem cacheSet_fresh (h : CacheInv c recent) (hlt : recent.length < c.ucSize) (su : SvcudpData)
    (replylen : Nat) (bufs : Bufs) {m : Alloc} (halloc : c.nodes m.victim = none) :
    ∃ r, c.cacheSet su replylen (some m) bufs = .ok r ∧
      SetSpec c recent su replylen bufs (some m) r := by
  have hv := h.fifo.next_lt
  have hnot : m.victim ∉ recent := by
    intro hmem
    obtain ⟨ent, hent⟩ := h.alloc _ hmem
    rw [halloc] at hent
    cases hent
  obtain ⟨c', hstore, hst⟩ := storeAway_spec h.size_pos h.size_fits h.chains hnot m.newbuf su replylen
  refine ⟨_, ?_, .fresh hlt ?_ hst⟩
  · unfold cacheSet
    rw [if_neg (by omega), h.fifo.next_of_lt (by rwa [List.length_reverse])]
    dsimp only
    rw [hstore]
    rfl
  · refine ⟨?_, List.nodup_cons.mpr ⟨hnot, h.nodup⟩, hst.alloc h.alloc, hst.chains, ?_⟩
    · rw [hst.size]
      exact h.size_fits
    · rw [hst.fifo, hst.size, hst.nextvictim, List.reverse_cons]
      exact h.fifo.push (by rwa [List.length_reverse]) _

/-- The ring is full: the oldest entry is found on its chain, taken off and used again. -/
theorem cacheSet_reuse (h : CacheInv c (rest ++ [victim])) (hfull : rest.length + 1 = c.ucSize)
    (su : SvcudpData) (replylen : Nat) (bufs : Bufs) (alloc : Option Alloc) :
    ∃ r, c.cacheSet su replylen alloc bufs = .ok r ∧
      SetSpec c (rest ++ [victim]) su replylen bufs alloc r := by
  have hv := h.fifo.next_lt
  have hfifo := h.fifo
  rw [List.reverse_append, List.reverse_singleton, List.singleton_append] at hfifo
  have hlen : (victim :: rest.reverse).length = c.ucSize := by
    rw [List.length_cons, List.length_reverse]
    exact hfull
  have hrest : ∀ n ∈ rest, ∃ ent, c.nodes n = some ent :=
    fun n hn => h.alloc n (List.mem_append_left _ hn)
  obtain ⟨ent, hent⟩ := h.alloc victim (List.mem_append_right _ (List.mem_singleton_self _))
  obtain ⟨hndrest, _, hdisj⟩ := List.nodup_append.mp h.nodup
  have hnot : victim ∉ rest := fun hmem => hdisj victim hmem victim (List.mem_singleton_self _) rfl
  have hfuel : rest.length < c.ucSize + 1 := by omega
  obtain ⟨v, c₁, hfind, hset, hchains, hrel⟩ := unlink_victim h.chains h.nodup hrest hent hfuel
  have hpos₁ : 0 < c₁.ucSize := hrel.size ▸ h.size_pos
  have hfits₁ : 8 * c₁.ucSize < sizeRange := hrel.size ▸ h.size_fits
  obtain ⟨c', hstore, hst⟩ := storeAway_spec hpos₁ hfits₁ hchains hnot ent.cacheReply su replylen
  have hst' : StoredAway c c' victim rest (c.newStored su replylen) := by
    refine ⟨hst.chains, ?_, ?_, ?_, ?_, ?_, ?_⟩
    · rw [hst.self, newStored, newStored, hrel.caller]
    · intro n hn
      rw [hst.frame n hn, hrel.stored]
    · rw [hst.size, hrel.size]
    · rw [hst.caller, hrel.caller]
    · rw [hst.fifo, hrel.fifo, hrel.nextvictim]
    · rw [hst.nextvictim, hrel.nextvictim, hrel.size]
  have hold : c.storedAt victim = some ent.stored := by
    rw [storedAt, hent]
    rfl
  refine ⟨_, ?_, .reuse rfl hfull hold ?_ hst'⟩
  · unfold cacheSet
    rw [if_neg (by omega), hfifo.next_of_full hlen]
    dsimp only
    rw [node_of_some hent]
    change (c.cacheLoc ent.cacheXid >>= _) = _
    rw [cacheLoc_eq h.size_pos h.size_fits]
    change (c.findVictim victim _ _ >>= _) = _
    rw [hfind]
    change (c.setVicp _ _ >>= _) = _
    rw [hset]
    change (c₁.storeAway _ _ _ _ >>= _) = _
    rw [hstore]
    rfl
  · refine ⟨?_, List.nodup_cons.mpr ⟨hnot, hndrest⟩, hst'.alloc hrest, hst'.chains, ?_⟩
    · rw [hst'.size]
      exact h.size_fits
    · rw [hst'.fifo, hst'.size, hst'.nextvictim, List.reverse_cons]
      exact hfifo.replace hlen _

theorem cacheSet_spec (h : CacheInv c recent) (su : SvcudpData) (replylen : Nat) (bufs : Bufs)
    {alloc : Option Alloc} (halloc : ∀ m, alloc = some m → c.nodes m.victim = none) :
    ∃ r, c.cacheSet su replylen alloc bufs = .ok r ∧ SetSpec c recent su replylen bufs alloc r := by
  have hv := h.fifo.next_lt
  have hle := h.length_le
  rcases Nat.lt_or_ge recent.length c.ucSize with hlt | hge
  · cases alloc with
    | none =>
        refine ⟨_, ?_, .full hlt⟩
        unfold cacheSet
        rw [if_neg (by omega), h.fifo.next_of_lt (by rwa [List.length_reverse])]
    | some m => exact cacheSet_fresh h hlt su replylen bufs (halloc m rfl)
  · have hpos := h.size_pos
    rcases List.eq_nil_or_concat recent with rfl | ⟨rest, victim, hsplit⟩
    · simp at hge
      omega
    · rw [List.concat_eq_append] at hsplit
      subst hsplit
      rw [List.length_append, List.length_singleton] at hge hle
      exact cacheSet_reuse h (by omega) su replylen bufs alloc

/-- A cache of size zero stores nothing and is not searched. -/
theorem size_pos_of_cacheSet {su : SvcudpData} {replylen : Nat} {alloc : Option Alloc} {bufs : Bufs}
    {r : UdpCache × SvcudpData × Bufs} (h : c.cacheSet su replylen alloc bufs = .ok r) : 0 < c.ucSize := by
  unfold cacheSet at h
  split at h
  · cases h
  · omega

theorem size_pos_of_cacheGet {xid : Nat} {msg : RpcMsg} {raddr : SockaddrIn}
    {r : Option CacheNode × UdpCache} (h : c.cacheGet xid msg raddr = .ok r) : 0 < c.ucSize := by
  obtain ⟨loc, hloc, _⟩ := bind_ok h
  unfold cacheLoc at hloc
  dsimp only at hloc
  split at hloc
  · cases hloc
  · rename_i hslots
    rcases Nat.eq_zero_or_pos c.ucSize with hzero | hpos
    · simp [hzero] at hslots
    · exact hpos

/-- The cache holds the last stores of a history `log`, newest first. -/
structure Refines (c : UdpCache) (recent : List NodeId) (log : List Stored) : Prop where
  inv : CacheInv c recent
  contents_eq : c.contents recent = log.take c.ucSize

theorem length_contents (h : ∀ n ∈ l, ∃ ent, c.nodes n = some ent) :
    (c.contents l).length = l.length := by
  induction l with
  | nil => rfl
  | cons n l ih =>
      obtain ⟨ent, hent⟩ := h n List.mem_cons_self
      have hl := ih fun m hm => h m (List.mem_cons_of_mem _ hm)
      have hat : c.storedAt n = some ent.stored := by rw [storedAt, hent]; rfl
      rw [contents_cons hat, List.length_cons, List.length_cons, hl]

theorem StoredAway.contents_eq {st : Stored} (h : StoredAway c c' victim rest st) (hnot : victim ∉ rest) :
    c'.contents (victim :: rest) = st :: c.contents rest := by
  rw [contents_cons h.self]
  exact congrArg (st :: ·) (contents_congr fun n hn => h.frame n fun heq => hnot (heq ▸ hn))

/-- What the ring slot that was to be written next holds after `cache_set`. -/
def storedBy (c c' : UdpCache) : Option Stored := (c'.ucFifo c.ucNextvictim).bind c'.storedAt

/-- What `cache_set` does to the history of stores: nothing where there is no memory for a new entry,
else one store in front. The transport gets a new buffer, or that of the store that falls off. -/
inductive SetLog (c : UdpCache) (log : List Stored) (su : SvcudpData) (replylen : Nat) (bufs : Bufs) :
    Option Alloc → UdpCache × SvcudpData × Bufs → Prop
  | full (hnone : c.storedBy c = none) : SetLog c log su replylen bufs none (c, su, bufs)
  | fresh {m : Alloc} {c' : UdpCache} {recent : List NodeId} (hlt : log.length < c.ucSize)
      (href : Refines c' recent (c.newStored su replylen :: log)) (hsize : c'.ucSize = c.ucSize)
      (hcaller : c'.ucCaller = c.ucCaller)
      (hby : c.storedBy c' = some (c.newStored su replylen)) :
      SetLog c log su replylen bufs (some m) (c',
        { su with rpcBuffer := m.newbuf, suXdrs := xdrmemCreate m.newbuf su.suIosz .encode },
        Function.update bufs m.newbuf (some m.garbage))
  | reuse {alloc : Option Alloc} {c' : UdpCache} {recent : List NodeId} {k : Nat} {old : Stored}
      (hk : c.ucSize = k + 1) (hold : log.take (k + 1) = log.take k ++ [old])
      (href : Refines c' recent (c.newStored su replylen :: log)) (hsize : c'.ucSize = c.ucSize)
      (hcaller : c'.ucCaller = c.ucCaller)
      (hby : c.storedBy c' = some (c.newStored su replylen)) :
      SetLog c log su replylen bufs alloc (c',
        { su with rpcBuffer := old.reply, suXdrs := xdrmemCreate old.reply su.suIosz .encode }, bufs)

theorem StoredAway.storedBy_eq {st : Stored} (h : StoredAway c c' victim rest st) :
    c.storedBy c' = some st := by
  rw [storedBy, h.fifo, Function.update_self]
  exact h.self

/-- A store goes in front of the history; what falls off the end is forgotten. -/
theorem Refines.set {log : List Stored} {su : SvcudpData} {replylen : Nat} {bufs : Bufs}
    {alloc : Option Alloc} {r : UdpCache × SvcudpData × Bufs} (h : Refines c recent log)
    (hset : SetSpec c recent su replylen bufs alloc r) : SetLog c log su replylen bufs alloc r := by
  have hlen := length_contents h.inv.alloc
  rw [h.contents_eq, List.length_take] at hlen
  cases hset with
  | full hlt =>
      apply SetLog.full
      rw [storedBy, h.inv.fifo.next_of_lt (by rwa [List.length_reverse])]
      rfl
  | fresh hlt hinv hst =>
      have hshort : log.length < c.ucSize := by omega
      refine .fresh hshort ⟨hinv, ?_⟩ hst.size hst.caller hst.storedBy_eq
      rw [hst.contents_eq (List.nodup_cons.mp hinv.nodup).1, h.contents_eq, hst.size]
      obtain ⟨k, hk⟩ : ∃ k, c.ucSize = k + 1 := ⟨c.ucSize - 1, by omega⟩
      rw [hk, List.take_succ_cons, List.take_of_length_le (by omega), List.take_of_length_le (by omega)]
  | @reuse _ victim rest old c' hsplit hfull hold hinv hst =>
      have happ : log.take (rest.length + 1) = c.contents rest ++ [old] := by
        rw [hfull, ← h.contents_eq, hsplit, contents, contents, List.filterMap_append,
          List.filterMap_cons_some hold, List.filterMap_nil]
      have hrest : (c.contents rest).length = rest.length := by
        apply length_contents
        intro n hn
        exact h.inv.alloc n (hsplit ▸ List.mem_append_left _ hn)
      have htake := congrArg (List.take rest.length) happ
      rw [List.take_take, Nat.min_eq_left (Nat.le_succ _), List.take_left' hrest] at htake
      rw [← htake] at happ
      refine .reuse hfull.symm happ ⟨hinv, ?_⟩ hst.size hst.caller hst.storedBy_eq
      rw [hst.contents_eq (List.nodup_cons.mp hinv.nodup).1, hst.size, ← hfull, List.take_succ_cons, htake]

/-- The key that `cache_get` looks for: the xid of the request and the fields saved in the header. -/
def wanted (c : UdpCache) (xid : Nat) (st : Stored) : Bool :=
  decide (st.xid = xid ∧ st.caller = c.ucCaller)

theorem cacheMatch_eq (xid : Nat) : c.cacheMatch ent xid = c.wanted xid ent.stored := by
  rw [Bool.eq_iff_iff, wanted, decide_eq_true_eq]
  simp only [cacheMatch, CacheNode.stored, Bool.and_eq_true, beq_iff_eq]
  constructor
  · rintro ⟨⟨⟨⟨hxid, hproc⟩, hvers⟩, hprog⟩, haddr⟩
    exact ⟨hxid, Caller.ext hproc hvers hprog haddr⟩
  · rintro ⟨hxid, hcaller⟩
    rw [hcaller]
    exact ⟨⟨⟨⟨hxid, rfl⟩, rfl⟩, rfl⟩, rfl⟩

/-- The loop of `cache_get` finds the first wanted store of the chain. -/
theorem cacheFind_path {p : Option NodeId} {fuel xid : Nat} (hp : Path c.link p l)
    (halloc : ∀ n ∈ l, ∃ ent, c.nodes n = some ent) (hfuel : l.length ≤ fuel) :
    ∃ r, c.cacheFind xid fuel p = .ok r ∧
      r.map CacheNode.stored = (c.contents l).find? (c.wanted xid) := by
  induction l generalizing p fuel with
  | nil =>
      obtain rfl : p = none := hp
      refine ⟨none, ?_, rfl⟩
      cases fuel <;> rfl
  | cons n l ih =>
      obtain ⟨rfl, hp⟩ := hp
      obtain ⟨fuel, rfl⟩ : ∃ k, fuel = k + 1 := ⟨fuel - 1, by simp at hfuel; omega⟩
      obtain ⟨ent, hent⟩ := halloc n List.mem_cons_self
      have hat : c.storedAt n = some ent.stored := by rw [storedAt, hent]; rfl
      have hlink : c.link n = ent.cacheNext := by rw [link, hent]; rfl
      rw [hlink] at hp
      obtain ⟨r, hr, hfound⟩ := ih hp (fun m hm => halloc m (List.mem_cons_of_mem _ hm)) (by simpa using hfuel)
      have hstep : c.cacheFind xid (fuel + 1) (some n) =
          if c.wanted xid ent.stored then .ok (some ent) else c.cacheFind xid fuel ent.cacheNext := by
        rw [cacheFind, node_of_some hent, ← cacheMatch_eq]
        rfl
      rw [hstep, contents_cons hat, List.find?_cons]
      cases hw : c.wanted xid ent.stored with
      | true => exact ⟨some ent, rfl, rfl⟩
      | false => exact ⟨r, hr, hfound⟩

/-- What is wanted hashes to the slot that is searched, so the other chains hold nothing of it. -/
theorem find_filter_inSlot (xid : Nat) :
    (c.contents (l.filter (c.inSlot (c.slotOf xid)))).find? (c.wanted xid) =
      (c.contents l).find? (c.wanted xid) := by
  induction l with
  | nil => rfl
  | cons n l ih =>
      cases hat : c.storedAt n with
      | none =>
          have hslot : c.inSlot (c.slotOf xid) n = false := by simp [inSlot, hat]
          rw [List.filter_cons, hslot, contents, contents, List.filterMap_cons_none hat]
          exact ih
      | some st =>
          rw [contents_cons hat, List.find?_cons, List.filter_cons]
          by_cases hw : c.wanted xid st = true
          · have hxid : st.xid = xid := (of_decide_eq_true hw).1
            have hslot : c.inSlot (c.slotOf xid) n = true := by simp [inSlot, hat, hxid]
            rw [hslot, if_pos rfl, contents_cons hat, List.find?_cons, hw]
          · rw [Bool.not_eq_true] at hw
            rw [hw]
            cases hslot : c.inSlot (c.slotOf xid) n with
            | true =>
                rw [if_pos rfl, contents_cons hat, List.find?_cons, hw]
                exact ih
            | false => exact ih

/-- `cache_get` always ends; it finds the newest store under the wanted key, and saves the fields of
the message exactly when there is none. -/
theorem cacheGet_spec {log : List Stored} (h : Refines c recent log) (xid : Nat) (msg : RpcMsg)
    (raddr : SockaddrIn) :
    ∃ r, c.cacheGet xid msg raddr = .ok r ∧
      r.1.map CacheNode.stored = (log.take c.ucSize).find? (c.wanted xid) ∧
      r.2 = if r.1.isSome then c else { c with ucCaller := msg.caller raddr } := by
  have hlen : (recent.filter (c.inSlot (c.slotOf xid))).length ≤ c.ucSize + 1 := by
    have hfilter := List.length_filter_le (c.inSlot (c.slotOf xid)) recent
    have hle := h.inv.length_le
    omega
  obtain ⟨found, hfind, heq⟩ := cacheFind_path (h.inv.chains (c.slotOf xid))
    (fun n hn => h.inv.alloc n (List.mem_of_mem_filter hn)) hlen
  rw [find_filter_inSlot, h.contents_eq] at heq
  have hget : c.cacheGet xid msg raddr =
      .ok (found, if found.isSome then c else { c with ucCaller := msg.caller raddr }) := by
    rw [cacheGet, cacheLoc_eq h.inv.size_pos h.inv.size_fits]
    change (c.cacheFind _ _ _ >>= _) = _
    rw [hfind]
    cases found <;> rfl
  exact ⟨_, hget, heq, rfl⟩

/-- The saved fields of the header are no part of the structure. -/
theorem Refines.saved {log : List Stored} (h : Refines c recent log) (caller : Caller) :
    Refines { c with ucCaller := caller } recent log :=
  ⟨⟨h.inv.size_fits, h.inv.nodup, h.inv.alloc, h.inv.chains, h.inv.fifo⟩, h.contents_eq⟩

end UdpCache

end RpcMt
