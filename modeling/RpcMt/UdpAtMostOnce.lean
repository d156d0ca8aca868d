import RpcMt.Callouts
import RpcMt.UdpRequests

/-! What the reply cache is for, and what becomes of it. Every hit and every store of a run is on
record; the key under which a reply is stored, and the one under which a reply is looked for, take all
but the xid from the header, where the last lookup that missed has left it. -/

open RpcMt.Runs

namespace RpcMt

/-- A hit is sound: the entry found was stored under the key of the message that came in, and the bytes
stored are sent to the address in that key. -/
def Hit.Sound (stores : List Store) (hit : Hit) : Prop :=
  hit.found.xid = hit.xid ∧ hit.found.caller = hit.caller ∧ hit.sent.dest = hit.caller.addr ∧
    ∃ e ∈ stores, e.stored = hit.found ∧ hit.sent.bytes = e.bytes

/-- The reply sent was made for a request with the key of the message that came in. -/
def Hit.Own (stores : List Store) (hit : Hit) : Prop :=
  ∃ e ∈ stores, e.stored = hit.found ∧ hit.sent.bytes = e.bytes ∧ e.xid = hit.xid ∧ e.caller = hit.caller

/-- Every entry has the key of the request it was stored for. -/
def Attributed (stores : List Store) : Prop :=
  ∀ e ∈ stores, e.stored.xid = e.xid ∧ e.stored.caller = e.caller

theorem Hit.Sound.mono {stores : List Store} {hit : Hit} (h : hit.Sound stores) (e : Store) :
    hit.Sound (e :: stores) := by
  obtain ⟨hxid, hcaller, hdest, e', he', hrest⟩ := h
  exact ⟨hxid, hcaller, hdest, e', List.mem_cons_of_mem _ he', hrest⟩

theorem Hit.Sound.own {stores : List Store} {hit : Hit} (h : hit.Sound stores)
    (hattr : Attributed stores) : hit.Own stores := by
  obtain ⟨hxid, hcaller, _, e, he, hstored, hbytes⟩ := h
  obtain ⟨hexid, hecaller⟩ := hattr e he
  refine ⟨e, he, hstored, hbytes, ?_, ?_⟩
  · rw [← hexid, hstored, hxid]
  · rw [← hecaller, hstored, hcaller]

namespace UdpServer

variable {V ρ : Type} (k : Codec ρ) (cfg : Config) (master : Addr) (s : UdpServer V ρ)

/-- Whether the reply of the worker at `a` to the request `r` gets as far as into the cache. -/
def willStore (a : Addr) (r : Request V ρ) (msg : ReplyMsg ρ) (sentAll : Bool)
    (alloc : Option UdpCache.Alloc) : Bool :=
  sentAll && (s.st.cache.any fun c => alloc.isSome || (c.ucFifo c.ucNextvictim).isSome) &&
    match (k.xdrReplymsg { msg with rmXid := r.xid }).run ((s.st.viewAt a).rewound .encode) with
    | .ok (true, _, _) => true
    | _ => false

/-- A receive finds the header current: the fields saved there are those of the message that comes in,
unless no reply is stored under those fields and the xid of the message. -/
def headerCurrent : UdpEvent V ρ → Bool
  | .recv os => (UdpState.recvLoop os).all fun o =>
      (s.st.incoming k.xdrCallmsg master o).all fun msg => s.st.cache.all fun c =>
        (UdpState.lookup c msg.rmXid s.stores).isNone ||
          decide (c.ucCaller = msg.caller (o.source s.lastSrc))
  | _ => true

/-- A reply that is stored finds the header current: the fields saved there are those of the request
that is answered. -/
def storeCurrent : UdpEvent V ρ → Bool
  | .reply a msg sentAll alloc => (s.serving master a).all fun r => s.st.cache.all fun c =>
      !s.willStore k a r msg sentAll alloc || decide (c.ucCaller = r.caller)
  | _ => true

/-- What one event adds to the record of hits and stores. -/
inductive History (s t : UdpServer V ρ) : UdpEvent V ρ → Prop
  | quiet {ev : UdpEvent V ρ} (hits : t.hits = s.hits) (stores : t.stores = s.stores) : History s t ev
  | hit {os : List RecvOutcome} {o : RecvOutcome} {msg : RpcMsg} {c : UdpCache} {e : Store}
      (ho : UdpState.recvLoop os = some o) (hmsg : s.st.incoming k.xdrCallmsg master o = some msg)
      (hc : s.st.cache = some c) (he : UdpState.lookup c msg.rmXid s.stores = some e)
      (hits : ∃ addrlen, t.hits = ⟨msg.rmXid, msg.caller (o.source s.lastSrc), e.stored,
        ⟨o.source s.lastSrc, addrlen, e.bytes⟩⟩ :: s.hits) (stores : t.stores = s.stores) :
      History s t (.recv os)
  | stored {a : Addr} {r : Request V ρ} {msg : ReplyMsg ρ} {sentAll : Bool}
      {alloc : Option UdpCache.Alloc} {c : UdpCache} {e : Store} (hr : s.serving master a = some r)
      (hc : s.st.cache = some c) (hw : s.willStore k a r msg sentAll alloc = true)
      (hits : t.hits = s.hits) (stores : t.stores = e :: s.stores) (hxid : e.xid = r.xid)
      (hcaller : e.caller = r.caller) (hstored : e.stored.caller = c.ucCaller) :
      History s t (.reply a msg sentAll alloc)

/-- A cache of four entries, just enabled. -/
def someCache : UdpCache := ⟨4, fun _ => none, fun _ => none, 0, ⟨0, 0, 0, ⟨0, 0, 0, 0⟩⟩, fun _ => none⟩

theorem enable_someCache :
    svcudpEnablecache false 4 true true true ⟨0, 0, 0, ⟨0, 0, 0, 0⟩⟩ = some someCache := rfl

/-- The reply of the worker at `a`, kept in the entry 0 with the buffer 12. -/
def someReply (a : Addr) : UdpEvent (List Nat) (List Nat) :=
  .reply a ⟨0, [43]⟩ true (some ⟨0, 12, List.replicate 48 0⟩)

/-- A call that a worker decodes and answers. -/
def someAnswered : List (UdpEvent (List Nat) (List Nat)) :=
  [someCall 1000 7 42, .clone 1 11, .getargs 1 (getWords 1), someReply 1]

variable {k : Codec ρ} {cfg : Config} {master : Addr} {iosz : Nat} {cached : Bool} {s t : UdpServer V ρ}
  {a : Addr} {x : Svcxprt SvcudpData} {r : Request V ρ}

theorem UdpInv.recv_history (h : UdpInv k master iosz cached s) {os : List RecvOutcome} {o : RecvOutcome}
    (ho : UdpState.recvLoop os = some o) (hst : s.onRecv k master o = .ok t) :
    History k master s t (.recv os) := by
  obtain ⟨x, hx, hlast⟩ := h.live
  obtain ⟨d, hrecv, hst⟩ := bind_ok hst
  obtain ⟨x', bytes, hf, hmsg, hcases⟩ := UdpState.svcudpRecv_ok h.bufs h.fits hx hrecv
  dsimp only at hst
  rcases hcases with ⟨_, hnone, _, _⟩ | ⟨msg, _, hsome, _, hcached⟩
  · rw [hnone] at hst
    cases hst
    exact .quiet rfl rfl
  rw [hsome] at hst
  have hsu := hf.suCache.trans (h.bufs.suCache master x hx)
  cases hc : s.st.cache with
  | none =>
      rw [hc] at hsu
      rw [(UdpState.recvCached_none hsu hcached).1] at hst
      cases hst
      exact .quiet rfl rfl
  | some c =>
      obtain ⟨_, hmiss, hfound⟩ := UdpState.svcudpRecv_hit h.bufs h.fits hx hc hrecv hsome
      cases he : UdpState.lookup c msg.rmXid s.stores with
      | none =>
          rw [hmiss he] at hst
          cases hst
          exact .quiet rfl rfl
      | some e =>
          obtain ⟨ent, addrlen, hhit, hstored⟩ := hfound e he
          rw [hhit] at hst
          cases hst
          refine .hit ho (hmsg.symm.trans hsome) hc he ⟨addrlen, ?_⟩ rfl
          simp only [hlast, hstored]

theorem UdpInv.reply_history (h : UdpInv k master iosz cached s) (hx : s.st.xprts a = some x)
    (hr : s.serving master a = some r) {msg : ReplyMsg ρ} {sentAll : Bool}
    {alloc : Option UdpCache.Alloc} (halloc : s.allocPossible a alloc = true)
    (hst : s.onReply k a r msg sentAll alloc = .ok t) :
    History k master s t (.reply a msg sentAll alloc) := by
  obtain ⟨bytes, stat, w, hbytes, hrun, hcases⟩ := h.onReply_cases hx hr hst
  rcases hcases with rfl | ⟨rfl, rfl, c, c', su', bufs', hc, hset, rfl⟩
  · exact .quiet rfl rfl
  cases hby : c.storedBy c' with
  | none =>
      refine .quiet rfl ?_
      simp only [UdpState.logged, hby]
  | some stored =>
      have hok := allocOk_of_possible h hx halloc
      have hstored : stored = c.newStored (UdpState.leaveData x.xpPriv .encode w) (w.pos % uintRange) := by
        obtain ⟨_, _, _, hframe⟩ := h.bufs.cacheSet_frame hc hok hset
        exact hframe stored hby
      have hlog : UdpState.logged c c' r.xid r.caller (w.bytes.take (w.pos % uintRange)) s.stores =
          ⟨r.xid, r.caller, stored, w.bytes.take (w.pos % uintRange)⟩ :: s.stores := by
        simp only [UdpState.logged, hby]
      refine .stored hr hc ?_ rfl hlog rfl rfl (by rw [hstored]; rfl)
      -- `cache_set` stores nothing where it has neither a victim nor memory for an entry.
      have hslot : (alloc.isSome || (c.ucFifo c.ucNextvictim).isSome) = true := by
        cases alloc with
        | some m => rfl
        | none =>
            cases hv : c.ucFifo c.ucNextvictim with
            | some v => rfl
            | none =>
                have hsame : c' = c := by
                  simp only [UdpCache.cacheSet, hv] at hset
                  split at hset
                  · cases hset
                  · cases hset
                    rfl
                rw [hsame, UdpCache.storedBy, hv] at hby
                cases hby
      have hview : (s.st.viewAt a).rewound .encode = ⟨.encode, bytes, 0, iosz⟩ := by
        rw [UdpState.viewAt_eq hx hbytes, View.rewound, Xdr.view, (h.bufs.wf a x hx).room]
      simp only [willStore, hc, Option.any_some, hslot, hview, hrun, Bool.and_self]

/-- Only a receive adds a hit, and only a reply a store. -/
theorem UdpInv.history (h : UdpInv k master iosz cached s) {e : UdpEvent V ρ}
    (hst : s.step k cfg master e = some t) : History k master s t e := by
  cases e with
  | recv os =>
      obtain ⟨o, ho, hst⟩ := UdpServer.step_recv hst
      exact h.recv_history ho hst
  | clone a2 buf =>
      obtain ⟨_, _, _, _, _, _, _, rfl⟩ := UdpServer.step_clone hst
      exact .quiet rfl rfl
  | getargs a f =>
      obtain ⟨r, _, hst⟩ := UdpServer.step_getargs hst
      obtain ⟨d, _, hst⟩ := bind_ok hst
      cases hst
      split
      · exact .quiet rfl rfl
      · exact .quiet rfl rfl
  | freeargs a f =>
      obtain ⟨r, _, hst⟩ := UdpServer.step_freeargs hst
      obtain ⟨d, _, hst⟩ := bind_ok hst
      cases hst
      exact .quiet rfl rfl
  | reply a msg sentAll alloc =>
      obtain ⟨halloc, r, hr, hst⟩ := UdpServer.step_reply hst
      obtain ⟨x, hx⟩ := exists_xprt hst
      exact h.reply_history hx hr halloc hst
  | ret a =>
      obtain ⟨r, _, hst⟩ := UdpServer.step_ret hst
      obtain ⟨x, _, hst⟩ := bind_ok hst
      obtain ⟨x', _, hst⟩ := bind_ok hst
      cases hst
      exact .quiet rfl rfl
  | destroy a =>
      obtain ⟨_, _, _, _, rfl⟩ := UdpServer.step_destroy hst
      exact .quiet rfl rfl

/-! ### Whose replies are found -/

theorem hits_sound_step (h : UdpInv k master iosz cached s) (hhits : ∀ hit ∈ s.hits, Hit.Sound s.stores hit)
    {e : UdpEvent V ρ} (hok : s.headerCurrent k master e = true) (hst : s.step k cfg master e = some t) :
    ∀ hit ∈ t.hits, Hit.Sound t.stores hit := by
  cases h.history hst with
  | quiet hits stores =>
      rw [hits, stores]
      exact hhits
  | hit ho hmsg hc he hits stores =>
      obtain ⟨addrlen, hits⟩ := hits
      rw [hits, stores]
      intro hit hmem
      rcases List.mem_cons.mp hmem with rfl | hmem
      · simp only [headerCurrent, ho, hmsg, hc, he, Option.all_some, Option.isNone_some, Bool.false_or,
          decide_eq_true_eq] at hok
        obtain ⟨hxid, hcaller⟩ := UdpState.of_lookup he
        refine ⟨hxid, hcaller.trans hok, rfl, _, ?_, rfl, rfl⟩
        exact List.mem_of_mem_take (List.mem_of_find?_eq_some he)
      · exact hhits hit hmem
  | stored hr hc hw hits stores _ _ _ =>
      rw [hits, stores]
      exact fun hit hmem => (hhits hit hmem).mono _

theorem attributed_step (h : UdpInv k master iosz cached s) (hattr : Attributed s.stores)
    {e : UdpEvent V ρ} (hok : s.storeCurrent k master e = true) (hst : s.step k cfg master e = some t) :
    Attributed t.stores := by
  have hinv := h.step hst
  cases h.history hst with
  | quiet hits stores => rwa [stores]
  | hit _ _ _ _ hits stores => rwa [stores]
  | @stored a r msg sentAll alloc c e hr hc hw hits stores hxid hcaller hstored =>
      have hnew : e ∈ t.stores := by
        rw [stores]
        exact List.mem_cons_self
      simp only [storeCurrent, hr, hc, hw, Option.all_some, Bool.not_true, Bool.false_or,
        decide_eq_true_eq] at hok
      rw [stores]
      intro e' he'
      rcases List.mem_cons.mp he' with rfl | he'
      · exact ⟨hinv.xids _ hnew, by rw [hstored, hok, hcaller]⟩
      · exact hattr e' he'

section Enabled

variable {sock port id sendsz recvsz size : Nat} {pktinfo : Bool} {buf : BufId} {garbage : Nat → Byte}
  {suCache ucOk entriesOk fifoOk : Bool} {fields : Caller} {c₀ : UdpCache}

/-- In a run whose receives all find the header current, every hit is sound; where the replies that
are stored find it current as well, everybody is sent the reply to their own request. -/
theorem hits_sound (henable : svcudpEnablecache suCache size ucOk entriesOk fifoOk fields = some c₀) :
    (∀ s : UdpServer V ρ, Reached (step k cfg master) (fun s e => s.headerCurrent k master e = true)
        (start master sock port id sendsz recvsz pktinfo buf garbage (some c₀)) s →
      ∀ hit ∈ s.hits, Hit.Sound s.stores hit) ∧
    ∀ s : UdpServer V ρ, Reached (step k cfg master)
        (fun s e => s.headerCurrent k master e = true ∧ s.storeCurrent k master e = true)
        (start master sock port id sendsz recvsz pktinfo buf garbage (some c₀)) s →
      ∀ hit ∈ s.hits, Hit.Sound s.stores hit ∧ Hit.Own s.stores hit := by
  have hinv₀ : UdpInv (V := V) k master _ _
      (start master sock port id sendsz recvsz pktinfo buf garbage (some c₀)) :=
    udpInv_start (UdpCache.cacheInv_enabled henable)
  constructor
  · intro s hs
    refine (hs.invariant (fun s => UdpInv k master (svcudpBufsize sendsz recvsz) true s ∧
      ∀ hit ∈ s.hits, Hit.Sound s.stores hit) ⟨hinv₀, fun hit hmem => ?_⟩ ?_).2
    · cases hmem
    · rintro s e t ⟨hinv, hhits⟩ hok hst
      exact ⟨hinv.step hst, hits_sound_step hinv hhits hok hst⟩
  · intro s hs
    obtain ⟨_, hhits, hattr⟩ := hs.invariant (fun s => UdpInv k master (svcudpBufsize sendsz recvsz) true s ∧
      (∀ hit ∈ s.hits, Hit.Sound s.stores hit) ∧ Attributed s.stores)
      ⟨hinv₀, fun hit hmem => (by cases hmem), fun e he => (by cases he)⟩ (by
        rintro s e t ⟨hinv, hhits, hattr⟩ ⟨hheader, hstore⟩ hst
        exact ⟨hinv.step hst, hits_sound_step hinv hhits hheader hst, attributed_step hinv hattr hstore hst⟩)
    exact fun hit hmem => ⟨hhits hit hmem, (hhits hit hmem).own hattr⟩

/-- A request is answered and sent again: its sender gets the reply once more. -/
theorem hits_sound_resend : ∃ s, exec (step nullCodec defaultConfig 0)
    (fun s e => s.headerCurrent nullCodec 0 e = true ∧ s.storeCurrent nullCodec 0 e = true)
    (someUdpServer (some someCache))
    (someAnswered ++ [someCall 1000 7 42]) = some s ∧ s.hits ≠ [] ∧
      ∀ hit ∈ s.hits, Hit.Sound s.stores hit ∧ Hit.Own s.stores hit := by
  have hrun : (exec (step nullCodec defaultConfig 0)
      (fun s e => s.headerCurrent nullCodec 0 e = true ∧ s.storeCurrent nullCodec 0 e = true)
      (someUdpServer (some someCache))
      (someAnswered ++ [someCall 1000 7 42])).map (fun s => s.hits.length) =
        some 1 := by decide +kernel
  obtain ⟨s, hs, hlen⟩ := Option.map_eq_some_iff.mp hrun
  refine ⟨s, hs, fun hnil => ?_, (hits_sound enable_someCache).2 s (reached_of_exec _ _ .start _ hs)⟩
  rw [hnil] at hlen
  cases hlen

/-- Another client's request with the same xid is answered with the reply that was stored under the
first client's address. -/
theorem hit_for_stranger : ∃ s : UdpServer (List Nat) (List Nat),
    Reached (step nullCodec defaultConfig 0) anyStep (someUdpServer (some someCache)) s ∧
      ∃ hit ∈ s.hits, ¬Hit.Sound s.stores hit := by
  have hrun : (exec (step nullCodec defaultConfig 0) anyStep (someUdpServer (some someCache))
      (someAnswered ++ [someCall 2000 7 44])).map (fun s => s.hits.map fun hit =>
        (hit.caller.addr, hit.found.caller.addr)) = some [(someClient 2000, someClient 1000)] := by
    decide +kernel
  obtain ⟨s, hs, hhits⟩ := Option.map_eq_some_iff.mp hrun
  refine ⟨s, reached_of_exec _ _ .start _ hs, ?_⟩
  obtain ⟨hit, hmem, heq⟩ : ∃ hit ∈ s.hits,
      (hit.caller.addr, hit.found.caller.addr) = (someClient 2000, someClient 1000) := by
    apply List.mem_map.mp
    rw [hhits]
    exact List.mem_singleton_self _
  refine ⟨hit, hmem, fun hsound => ?_⟩
  obtain ⟨haddr, hfound⟩ := Prod.mk.inj heq
  rw [hsound.2.1, haddr] at hfound
  exact absurd hfound (by decide)

/-- What an entry holds: the bytes of the reply to some request, under exactly the key of it. -/
def EntryAttributed (s : UdpServer V ρ) (ent : CacheNode) : Prop :=
  ∃ e ∈ s.stores, ent.cacheXid = e.xid ∧ ent.cacheCaller = e.caller ∧
    ∃ bytes, s.st.bufs ent.cacheReply = some bytes ∧ bytes.take ent.cacheReplylen = e.bytes

/-- The entries in the ring are those of the last stores. -/
theorem UdpInv.exists_store (h : UdpInv k master iosz cached s) {c : UdpCache} (hc : s.st.cache = some c)
    {i : Nat} (hi : i < c.ucSize) {n : NodeId} (hn : c.ucFifo i = some n) :
    ∃ ent, c.nodes n = some ent ∧ ∃ e ∈ s.st.held s.stores, ent.stored = e.stored := by
  obtain ⟨recent, href⟩ := h.bufs.cache c hc (Nat.zero_lt_of_lt hi)
  have hmem : n ∈ recent := List.mem_reverse.mp (href.inv.fifo.mem hi hn)
  obtain ⟨ent, hent⟩ := href.inv.alloc n hmem
  have hcontents : ent.stored ∈ c.contents recent := by
    apply List.mem_filterMap.mpr
    exact ⟨n, hmem, by rw [UdpCache.storedAt, hent]; rfl⟩
  rw [href.contents_eq, ← List.map_take] at hcontents
  obtain ⟨e, he, heq⟩ := List.mem_map.mp hcontents
  refine ⟨ent, hent, e, ?_, heq.symm⟩
  rw [UdpState.held, hc]
  exact he

/-- In a run whose replies all find the header current when they are stored, every entry of the cache
is attributed to the request it answers. -/
theorem entries_attributed (henable : svcudpEnablecache suCache size ucOk entriesOk fifoOk fields = some c₀)
    (hs : Reached (step k cfg master) (fun s e => s.storeCurrent k master e = true)
      (start master sock port id sendsz recvsz pktinfo buf garbage (some c₀)) s)
    {c : UdpCache} (hc : s.st.cache = some c) {i : Nat} (hi : i < c.ucSize) {n : NodeId}
    (hn : c.ucFifo i = some n) : ∃ ent, c.nodes n = some ent ∧ s.EntryAttributed ent := by
  obtain ⟨hinv, hattr⟩ := hs.invariant
    (fun s => UdpInv k master (svcudpBufsize sendsz recvsz) true s ∧ Attributed s.stores)
    ⟨udpInv_start (UdpCache.cacheInv_enabled henable), fun e he => (by cases he)⟩ (by
      rintro s e t ⟨hinv, hattr⟩ hok hst
      exact ⟨hinv.step hst, attributed_step hinv hattr hok hst⟩)
  obtain ⟨ent, hent, e, he, hstored⟩ := hinv.exists_store hc hi hn
  obtain ⟨bytes, hbytes, _, htake⟩ := hinv.bufs.kept e he
  have hstore : e ∈ s.stores := by
    rw [UdpState.held, hc] at he
    exact List.mem_of_mem_take he
  obtain ⟨hxid, hcaller⟩ := hattr e hstore
  refine ⟨ent, hent, e, hstore, ?_, ?_, bytes, ?_, ?_⟩
  · rw [← hxid, ← hstored]
    rfl
  · rw [← hcaller, ← hstored]
    rfl
  · rw [← hbytes, ← hstored]
    rfl
  · rw [← htake, ← hstored]
    rfl

/-- One worker's reply, stored before anything else has been received. -/
theorem entries_attributed_single : ∃ (s : UdpServer (List Nat) (List Nat)) (c : UdpCache),
    exec (step nullCodec defaultConfig 0) (fun s e => s.storeCurrent nullCodec 0 e = true)
      (someUdpServer (some someCache)) someAnswered = some s ∧
    s.st.cache = some c ∧ ∃ ent, c.nodes 0 = some ent ∧ s.EntryAttributed ent := by
  have hrun : ((exec (step nullCodec defaultConfig 0) (fun s e => s.storeCurrent nullCodec 0 e = true)
      (someUdpServer (some someCache)) someAnswered).bind fun s =>
        s.st.cache.map fun c => (c.ucSize, c.ucFifo 0)) = some (4, some 0) := by decide +kernel
  obtain ⟨s, hs, hcache⟩ := Option.bind_eq_some_iff.mp hrun
  obtain ⟨c, hc, heq⟩ := Option.map_eq_some_iff.mp hcache
  obtain ⟨hsize, hslot⟩ := Prod.mk.inj heq
  refine ⟨s, c, hs, hc, ?_⟩
  exact entries_attributed enable_someCache (reached_of_exec _ _ .start _ hs) hc
    (show 0 < c.ucSize by rw [hsize]; decide) hslot

/-- Two requests are received before the first is answered: its reply is stored under the second
client's address. -/
theorem entry_misattributed : ∃ (s : UdpServer (List Nat) (List Nat)) (c : UdpCache) (ent : CacheNode),
    Reached (step nullCodec defaultConfig 0) anyStep (someUdpServer (some someCache)) s ∧
      s.st.cache = some c ∧ c.ucFifo 0 = some 0 ∧ c.nodes 0 = some ent ∧ ¬s.EntryAttributed ent := by
  have hrun : ((exec (step nullCodec defaultConfig 0) anyStep (someUdpServer (some someCache))
      [someCall 1000 7 42, .clone 1 11, .getargs 1 (getWords 1), someCall 2000 8 44, .clone 2 13, someReply 1]).bind fun s =>
        s.st.cache.bind fun c => (c.nodes 0).map fun ent => (c.ucFifo 0, ent.cacheCaller.addr,
          s.stores.map fun e => e.caller.addr)) =
      some (some 0, someClient 2000, [someClient 1000]) := by decide +kernel
  obtain ⟨s, hs, hrest⟩ := Option.bind_eq_some_iff.mp hrun
  obtain ⟨c, hc, hrest⟩ := Option.bind_eq_some_iff.mp hrest
  obtain ⟨ent, hent, heq⟩ := Option.map_eq_some_iff.mp hrest
  obtain ⟨hslot, heq⟩ := Prod.mk.inj heq
  obtain ⟨haddr, hstores⟩ := Prod.mk.inj heq
  refine ⟨s, c, ent, reached_of_exec _ _ .start _ hs, hc, hslot, hent, ?_⟩
  rintro ⟨e, he, _, hcaller, _⟩
  have hmem : e.caller.addr ∈ [someClient 1000] := hstores ▸ List.mem_map_of_mem he
  rw [← hcaller, haddr] at hmem
  exact absurd hmem (by decide)

/-- A receive that came up with `msg` has answered it with the reply kept for the same request. -/
def AnsweredFromCache (s : UdpServer V ρ) (d : UdpState.Received) (msg : RpcMsg) (src : SockaddrIn) : Prop :=
  ∃ ent sent, d.hit = some (ent, sent) ∧ sent.dest = src ∧ ∃ e ∈ s.st.held s.stores,
    e.xid = msg.rmXid ∧ e.caller = msg.caller src ∧ ent.stored = e.stored ∧ sent.bytes = e.bytes

/-- `get_single_request` calls a service when the receive returns TRUE and the lookup finds one. -/
def ServiceCalled {H : Type} (svcHead : List (Callout H)) (authOk : Bool) (d : UdpState.Received) : Prop :=
  d.rv = true ∧ ∃ msg h, d.msg = some msg ∧ requestLookup svcHead authOk msg = .dispatch h

/-- When a message is answered from the cache and not dispatched: the newest store kept under its xid
and the fields in the header must be one for the same request, and no service must want it. -/
theorem answered_once_iff {H : Type}
    (henable : svcudpEnablecache suCache size ucOk entriesOk fifoOk fields = some c₀)
    (hs : Reached (step k cfg master) anyStep
      (start master sock port id sendsz recvsz pktinfo buf garbage (some c₀)) s)
    {c : UdpCache} (hc : s.st.cache = some c) {o : RecvOutcome} {d : UdpState.Received}
    (hd : s.st.svcudpRecv k.xdrCallmsg master o = .ok d) {msg : RpcMsg} (hmsg : d.msg = some msg)
    (svcHead : List (Callout H)) (authOk : Bool) :
    (s.AnsweredFromCache d msg (o.source s.lastSrc) ∧ ¬ServiceCalled svcHead authOk d) ↔
      (∃ e, UdpState.lookup c msg.rmXid s.stores = some e ∧ e.xid = msg.rmXid ∧
        e.caller = msg.caller (o.source s.lastSrc)) ∧ ¬Dispatchable svcHead authOk msg := by
  have hinv := udpInv_reached (UdpCache.cacheInv_enabled henable) hs
  obtain ⟨x, hx, hlast⟩ := hinv.live
  obtain ⟨hrv, hmiss, hfound⟩ := UdpState.svcudpRecv_hit hinv.bufs hinv.fits hx hc hd hmsg
  have hcalled : ServiceCalled svcHead authOk d ↔ Dispatchable svcHead authOk msg := by
    rw [← requestLookup_dispatch_iff, ServiceCalled, hmsg]
    simp [hrv]
  rw [hcalled]
  refine and_congr_left fun _ => ?_
  constructor
  · rintro ⟨ent, sent, hhit, _, e, he, hxid, hcaller, hstored, _⟩
    cases hlook : UdpState.lookup c msg.rmXid s.stores with
    | none =>
        rw [hmiss hlook] at hhit
        cases hhit
    | some e' =>
        obtain ⟨ent', addrlen, hhit', hstored'⟩ := hfound e' hlook
        cases hhit.symm.trans hhit'
        -- Two entries that are held have different buffers.
        have hreply : e'.stored.reply = e.stored.reply := by rw [← hstored', hstored]
        have hsame : e' = e := List.inj_on_of_nodup_map hinv.bufs.distinct
          (UdpState.mem_held_of_lookup hc hlook) he hreply
        exact ⟨e', rfl, hsame ▸ hxid, hsame ▸ hcaller⟩
  · rintro ⟨e, hlook, hxid, hcaller⟩
    obtain ⟨ent, addrlen, hhit, hstored⟩ := hfound e hlook
    refine ⟨ent, _, hhit, by rw [hlast], e, UdpState.mem_held_of_lookup hc hlook, hxid, hcaller, hstored, rfl⟩

/-- A call for a program that nobody serves is answered by the dispatcher itself; sent again, it is
answered from the cache. -/
theorem answered_once_unserved : ∃ (s : UdpServer (List Nat) (List Nat)) (d : UdpState.Received),
    Reached (step nullCodec defaultConfig 0) anyStep (someUdpServer (some someCache)) s ∧
      s.st.svcudpRecv nullCodec.xdrCallmsg 0
        (.datagram (someClient 1000) 16 (nullCall 7 200 1 5 [42])) = .ok d ∧
      s.AnsweredFromCache d ⟨7, 200, 1, 5, 0⟩ (someClient 1000) ∧
      ¬ServiceCalled ([] : List (Callout Unit)) true d := by
  have hrun : ((exec (step nullCodec defaultConfig 0) anyStep (someUdpServer (some someCache))
      [someCall 1000 7 42, someReply 0]).bind fun s => s.st.cache.bind fun c =>
        ((s.st.svcudpRecv nullCodec.xdrCallmsg 0
          (.datagram (someClient 1000) 16 (nullCall 7 200 1 5 [42]))).toOption.map fun d =>
            (d.msg, (UdpState.lookup c 7 s.stores).map fun e => (e.xid, e.caller)))) =
      some (some ⟨7, 200, 1, 5, 0⟩, some (7, ⟨5, 1, 200, someClient 1000⟩)) := by decide +kernel
  obtain ⟨s, hs, hrest⟩ := Option.bind_eq_some_iff.mp hrun
  obtain ⟨c, hc, hrest⟩ := Option.bind_eq_some_iff.mp hrest
  obtain ⟨d, hd, heq⟩ := Option.map_eq_some_iff.mp hrest
  obtain ⟨hmsg, hlook⟩ := Prod.mk.inj heq
  obtain ⟨e, he, hkey⟩ := Option.map_eq_some_iff.mp hlook
  obtain ⟨hxid, hcaller⟩ := Prod.mk.inj hkey
  have hreached := reached_of_exec _ _ .start _ hs
  refine ⟨s, d, hreached, toOption_ok hd, ?_⟩
  refine (answered_once_iff enable_someCache hreached hc (toOption_ok hd) hmsg [] true).mpr
    ⟨⟨e, he, hxid, hcaller⟩, ?_⟩
  rintro ⟨_, callout, hmem, _⟩
  cases hmem

/-- A request answered by its service and sent again at once is answered from the cache and given to
the service a second time. -/
theorem answered_twice : ∃ (s : UdpServer (List Nat) (List Nat)) (d : UdpState.Received) (e : Store),
    Reached (step nullCodec defaultConfig 0) anyStep (someUdpServer (some someCache)) s ∧
      s.st.svcudpRecv nullCodec.xdrCallmsg 0
        (.datagram (someClient 1000) 16 (nullCall 7 200 1 5 [42])) = .ok d ∧
      d.msg = some ⟨7, 200, 1, 5, 0⟩ ∧ e ∈ s.st.held s.stores ∧ e.xid = 7 ∧
      e.caller = (⟨7, 200, 1, 5, 0⟩ : RpcMsg).caller (someClient 1000) ∧
      ServiceCalled [⟨200, 1, ()⟩] true d := by
  have hrun : ((exec (step nullCodec defaultConfig 0) anyStep (someUdpServer (some someCache))
      someAnswered).bind fun s =>
        ((s.st.svcudpRecv nullCodec.xdrCallmsg 0
          (.datagram (someClient 1000) 16 (nullCall 7 200 1 5 [42]))).toOption.map fun d =>
            (d.rv, d.msg, (s.st.held s.stores).map fun e => (e.xid, e.caller)))) =
      some (true, some ⟨7, 200, 1, 5, 0⟩, [(7, ⟨5, 1, 200, someClient 1000⟩)]) := by decide +kernel
  obtain ⟨s, hs, hrest⟩ := Option.bind_eq_some_iff.mp hrun
  obtain ⟨d, hd, heq⟩ := Option.map_eq_some_iff.mp hrest
  obtain ⟨hrv, heq⟩ := Prod.mk.inj heq
  obtain ⟨hmsg, hheld⟩ := Prod.mk.inj heq
  obtain ⟨e, he, hkey⟩ : ∃ e ∈ s.st.held s.stores, (e.xid, e.caller) = (7, ⟨5, 1, 200, someClient 1000⟩) := by
    apply List.mem_map.mp
    rw [hheld]
    exact List.mem_singleton_self _
  obtain ⟨hxid, hcaller⟩ := Prod.mk.inj hkey
  exact ⟨s, d, e, reached_of_exec _ _ .start _ hs, toOption_ok hd, hmsg, he, hxid, hcaller,
    hrv, _, (), hmsg, rfl⟩

end Enabled

end UdpServer

end RpcMt
