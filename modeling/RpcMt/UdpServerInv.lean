import RpcMt.UdpServer

/-! What holds in every run of the UDP machine: everybody has a buffer of their own, and each transport
carries the xid and the address of the request it serves. -/

open RpcMt.Runs

namespace RpcMt

namespace UdpServer

variable {V ρ : Type} (k : Codec ρ) (master : Addr)

/-- Every transport has its own buffer; a transport that serves a request has that request's xid and
answers to that request's address; and, where there is no cache, the view of a clone's stream is what
the calls of its worker make of the view the master had when the clone was made. -/
structure UdpInv (iosz : Nat) (cached : Bool) (s : UdpServer V ρ) : Prop where
  fits : iosz < uintRange
  cache : s.st.cache.isSome = cached
  bufs : s.st.BufInv iosz s.stores
  live : ∃ x, s.st.xprts master = some x ∧ x.xpRaddr = s.lastSrc
  clones : ∀ a x, a ≠ master → s.st.xprts a = some x → ∃ r, s.requests a = some r
  served : ∀ a r, s.requests a = some r → ∃ x, s.st.xprts a = some x
  serves : ∀ a x r, s.st.xprts a = some x → s.serving master a = some r →
    r.xid = x.xpPriv.suXid ∧ r.caller.addr = x.xpRaddr
  xids : ∀ e ∈ s.stores, e.stored.xid = e.xid
  views : s.st.cache = none → ∀ a x r, a ≠ master → s.st.xprts a = some x → s.requests a = some r →
    replay k r.snapshot r.ran = .ok (s.st.viewAt a)

end UdpServer

namespace UdpState

variable {iosz : Nat} {st : UdpState} {log : List Store} {a b : Addr} {x x' y : Svcxprt SvcudpData}
  {bytes : List Byte} {w : View}

theorem viewAt_eq (hx : st.xprts a = some x) (hbytes : st.bufs x.xpPriv.rpcBuffer = some bytes) :
    st.viewAt a = x.xpPriv.suXdrs.view bytes := by
  simp only [viewAt, hx, hbytes, Option.getD_some]

theorem viewAt_leave {su : SvcudpData} (hpriv : x'.xpPriv = leaveData su w.xOp w) :
    (st.leave a su.rpcBuffer w x').viewAt a = w := by
  have hx : (st.leave a su.rpcBuffer w x').xprts a = some x' := Function.update_self ..
  have hbytes : (st.leave a su.rpcBuffer w x').bufs x'.xpPriv.rpcBuffer = some w.bytes := by
    rw [hpriv]
    exact Function.update_self ..
  rw [viewAt_eq hx hbytes, hpriv]
  rfl

/-- A call of one transport leaves the views of the others alone. -/
theorem BufInv.viewAt_leave_of_ne (h : BufInv iosz st log) (hx : st.xprts a = some x) (hb : b ≠ a) :
    (st.leave a x.xpPriv.rpcBuffer w x').viewAt b = st.viewAt b := by
  have hxb : (st.leave a x.xpPriv.rpcBuffer w x').xprts b = st.xprts b := Function.update_of_ne hb _ _
  cases hy : st.xprts b with
  | none => simp only [viewAt, hxb, hy]
  | some y =>
      have hne : y.xpPriv.rpcBuffer ≠ x.xpPriv.rpcBuffer := fun heq => hb (h.apart b a y x hy hx heq)
      have hbufs : (st.leave a x.xpPriv.rpcBuffer w x').bufs y.xpPriv.rpcBuffer =
          st.bufs y.xpPriv.rpcBuffer := Function.update_of_ne hne _ _
      simp only [viewAt, hxb, hy, hbufs]

theorem viewAt_clone {a2 : Addr} {buf : BufId} (hx : st.xprts a = some x)
    (hbytes : st.bufs x.xpPriv.rpcBuffer = some bytes) :
    UdpState.viewAt { st.store a2 (x.cloneXprt (cloneData x.xpPriv buf)) with
      bufs := Function.update st.bufs buf (some bytes) } a2 = st.viewAt a := by
  have hx2 : (UdpState.xprts { st.store a2 (x.cloneXprt (cloneData x.xpPriv buf)) with
      bufs := Function.update st.bufs buf (some bytes) }) a2 =
      some (x.cloneXprt (cloneData x.xpPriv buf)) := Function.update_self ..
  rw [viewAt_eq hx hbytes, viewAt_eq hx2 (Function.update_self ..)]
  simp [Svcxprt.cloneXprt, cloneData, cloneXdrs, xdrmemCreate, Xdr.view]

theorem viewAt_store_of_ne (hb : b ≠ a) : (st.store a x').viewAt b = st.viewAt b := by
  have hxb : (st.store a x').xprts b = st.xprts b := Function.update_of_ne hb _ _
  simp only [viewAt, hxb]
  rfl

/-- A change outside the private data leaves the view alone. -/
theorem viewAt_store_same (hx : st.xprts a = some x) (hpriv : x'.xpPriv = x.xpPriv) :
    (st.store a x').viewAt a = st.viewAt a := by
  have hxa : (st.store a x').xprts a = some x' := Function.update_self ..
  simp only [viewAt, hxa, hx, hpriv]
  rfl

theorem BufInv.store_same (h : BufInv iosz st log) (hx : st.xprts a = some x)
    (hpriv : x'.xpPriv = x.xpPriv) : BufInv iosz (st.store a x') log := by
  obtain ⟨bytes, hbytes, hlen⟩ := h.buf a x hx
  have hsame : st.bufs = Function.update st.bufs x.xpPriv.rpcBuffer (some bytes) := by
    rw [← hbytes, Function.update_eq_self]
  have hown := h.own hx (hpriv ▸ h.wf a x hx) (by rw [hpriv]) (by rw [hpriv]) hlen
  rwa [← hsame] at hown

end UdpState

namespace UdpServer

variable {V ρ : Type} {k : Codec ρ} {cfg : Config} {master : Addr} {iosz : Nat} {cached : Bool} {s t : UdpServer V ρ} {a : Addr}
  {x x' : Svcxprt SvcudpData} {r : Request V ρ}

theorem requests_of_serving (h : s.serving master a = some r) : s.requests a = some r := by
  unfold serving at h
  split at h
  · cases h
  · exact h

theorem serving_of_ne (ha : a ≠ master) : s.serving master a = s.requests a := by
  rw [serving, if_neg (fun h => ha h.1)]

/-- The request of a transport after the request of the one at `a` has been replaced. -/
theorem serving_update {b : Addr} {r' r'' : Request V ρ}
    (h : t.serving master b = some r'')
    (hreq : t.requests = Function.update s.requests a (some r')) (hpending : t.pending = s.pending) :
    (b = a ∧ r'' = r') ∨ (b ≠ a ∧ s.serving master b = some r'') := by
  have hb := requests_of_serving h
  rw [hreq] at hb
  rcases update_eq_some hb with hself | ⟨hne, hother⟩
  · exact Or.inl hself
  · refine Or.inr ⟨hne, ?_⟩
    unfold serving at h ⊢
    rw [hpending] at h
    split at h
    · cases h
    · rename_i hmaster
      exact (if_neg hmaster).trans hother

/-- A call of the worker at `a`: it changes the transport at `a`, but not the xid and the address that
this transport has. -/
theorem UdpInv.call (h : UdpInv k master iosz cached s) (hx : s.st.xprts a = some x)
    (hr : s.serving master a = some r) {st' : UdpState} {r' : Request V ρ} {stores' : List Store}
    (hxprts : st'.xprts = Function.update s.st.xprts a (some x'))
    (hxid : x'.xpPriv.suXid = x.xpPriv.suXid) (hraddr : x'.xpRaddr = x.xpRaddr)
    (hkey : r'.xid = r.xid ∧ r'.caller = r.caller) (hbufs : st'.BufInv iosz stores')
    (hcache : st'.cache.isSome = s.st.cache.isSome) (hxids : ∀ e ∈ stores', e.stored.xid = e.xid)
    (hviews : st'.cache = none → s.st.cache = none ∧ (∀ b, b ≠ a → st'.viewAt b = s.st.viewAt b) ∧
      (a ≠ master → replay k r'.snapshot r'.ran = .ok (st'.viewAt a))) :
    UdpInv k master iosz cached
      { s with st := st', requests := Function.update s.requests a (some r'), stores := stores' } := by
  refine ⟨h.fits, hcache.trans h.cache, hbufs, ?_, ?_, ?_, ?_, hxids, ?_⟩
  · obtain ⟨y, hy, hlast⟩ := h.live
    by_cases ha : master = a
    · subst ha
      cases hx.symm.trans hy
      exact ⟨x', by rw [hxprts]; exact Function.update_self .., hraddr.trans hlast⟩
    · exact ⟨y, by rw [hxprts]; exact (Function.update_of_ne ha _ _).trans hy, hlast⟩
  · intro b y hb hy
    rw [hxprts] at hy
    by_cases hba : b = a
    · exact ⟨_, by rw [hba]; exact Function.update_self ..⟩
    · rcases update_eq_some hy with ⟨heq, _⟩ | ⟨_, hyo⟩
      · exact absurd heq hba
      · obtain ⟨r'', hr''⟩ := h.clones b y hb hyo
        exact ⟨r'', (Function.update_of_ne hba _ _).trans hr''⟩
  · intro b r'' hr''
    rw [hxprts]
    rcases update_eq_some hr'' with ⟨rfl, _⟩ | ⟨hba, hreq⟩
    · exact ⟨x', Function.update_self ..⟩
    · obtain ⟨y, hy⟩ := h.served b r'' hreq
      exact ⟨y, (Function.update_of_ne hba _ _).trans hy⟩
  · intro b y r'' hy hr''
    rw [hxprts] at hy
    rcases serving_update (s := s) hr'' rfl rfl with ⟨hba, hreq⟩ | ⟨hba, hreq⟩
    · rcases update_eq_some hy with ⟨_, hyx⟩ | ⟨hne, _⟩
      · rw [hreq, hyx, hxid, hraddr, hkey.1, hkey.2]
        exact h.serves a x r hx hr
      · exact absurd hba hne
    · rcases update_eq_some hy with ⟨heq, _⟩ | ⟨_, hyo⟩
      · exact absurd heq hba
      · exact h.serves b y r'' hyo hreq
  · intro hc b y r'' hb hy hr''
    rw [hxprts] at hy
    obtain ⟨hnone, hothers, hself⟩ := hviews hc
    rcases update_eq_some hr'' with ⟨hba, hreq⟩ | ⟨hba, hreq⟩
    · rw [hreq, hba]
      exact hself (hba ▸ hb)
    · rcases update_eq_some hy with ⟨heq, _⟩ | ⟨_, hyo⟩
      · exact absurd heq hba
      · rw [h.views hnone b y r'' hb hyo hreq, hothers b hba]

/-- A call that runs a filter over the transport's own stream. -/
theorem UdpInv.own (h : UdpInv k master iosz cached s) (hx : s.st.xprts a = some x)
    (hr : s.serving master a = some r) {w : View} {op : OwnOp V ρ} {bytes : List Byte}
    (hbytes : s.st.bufs x.xpPriv.rpcBuffer = some bytes)
    (hpriv : x'.xpPriv = UdpState.leaveData x.xpPriv w.xOp w) (hraddr : x'.xpRaddr = x.xpRaddr)
    (hroom : w.pos + w.handy = iosz) (hlen : w.bytes.length = iosz)
    (happly : op.apply k (x.xpPriv.suXdrs.view bytes) = .ok w) :
    UdpInv k master iosz cached (s.record a r op (s.st.leave a x.xpPriv.rpcBuffer w x')) := by
  have hwf : UdpState.Wf iosz x'.xpPriv :=
    hpriv ▸ UdpState.wf_leaveData (h.bufs.wf a x hx) w.xOp hroom
  have hbufs : (s.st.leave a x.xpPriv.rpcBuffer w x').BufInv iosz s.stores :=
    h.bufs.own hx hwf (by rw [hpriv]; rfl) (by rw [hpriv]; rfl) hlen
  refine h.call hx hr rfl (by rw [hpriv]; rfl) hraddr ⟨rfl, rfl⟩ hbufs rfl h.xids fun hc =>
    ⟨hc, fun b hb => h.bufs.viewAt_leave_of_ne hx hb, fun ha => ?_⟩
  have hold := h.views hc a x r ha hx (requests_of_serving hr)
  rw [UdpState.viewAt_eq hx hbytes] at hold
  rw [replay_append, hold]
  change op.apply k (x.xpPriv.suXdrs.view bytes) = _
  rw [happly]
  exact congrArg Except.ok (UdpState.viewAt_leave hpriv).symm

/-- A call that begins by reading the transport at `a` needs one there. -/
theorem exists_xprt {α β : Type} {st : UdpState} {f : Svcxprt SvcudpData → Res α} {g : α → Res β} {y : β}
    (h : (st.deref a >>= f) >>= g = .ok y) : ∃ x, st.xprts a = some x := by
  obtain ⟨_, h, _⟩ := bind_ok h
  obtain ⟨x, hx, _⟩ := bind_ok h
  exact ⟨x, UdpState.deref_ok hx⟩

theorem UdpInv.getargs (h : UdpInv k master iosz cached s) (hx : s.st.xprts a = some x)
    (hr : s.serving master a = some r) {f : Filter V} (hst : s.onGetargs a r f = .ok t) :
    UdpInv k master iosz cached t := by
  obtain ⟨bytes, hbytes, hlen⟩ := h.bufs.buf a x hx
  obtain ⟨d, hd, hst⟩ := bind_ok hst
  cases hret : x.mtxpProgress .returned with
  | true =>
      rw [UdpState.svcudpGetargs_returned hx hret] at hd
      cases hd
      cases hst
      exact h
  | false =>
      rw [UdpState.svcudpGetargs_eq h.bufs hx hbytes hret] at hd
      obtain ⟨⟨rv, v, w⟩, hrun, hd⟩ := bind_ok hd
      cases hd
      cases hst
      obtain ⟨hop, hwlen, hroom⟩ := f.frame hrun
      have hpriv : (RpcMt.svcudpGetargs x (UdpState.leaveData x.xpPriv x.xpPriv.suXdrs.xOp w)).xpPriv =
          UdpState.leaveData x.xpPriv w.xOp w := by
        rw [RpcMt.svcudpGetargs, hret, hop]
        rfl
      refine h.own hx hr hbytes hpriv ?_ (hroom.trans (h.bufs.wf a x hx).room) (hwlen.trans hlen) ?_
      · rw [RpcMt.svcudpGetargs, hret]
        rfl
      · rw [OwnOp.apply, hrun]
        rfl

theorem UdpInv.freeargs (h : UdpInv k master iosz cached s) (hx : s.st.xprts a = some x)
    (hr : s.serving master a = some r) {f : Filter V} (hst : s.onFreeargs a r f = .ok t) :
    UdpInv k master iosz cached t := by
  obtain ⟨bytes, hbytes, hlen⟩ := h.bufs.buf a x hx
  obtain ⟨d, hd, hst⟩ := bind_ok hst
  rw [UdpState.svcudpFreeargs_eq h.bufs hx hbytes] at hd
  obtain ⟨⟨rv, v, w⟩, hrun, hd⟩ := bind_ok hd
  cases hd
  cases hst
  obtain ⟨hop, hwlen, hroom⟩ := f.frame hrun
  have hpriv : (RpcMt.svcudpFreeargs x (UdpState.leaveData x.xpPriv .free w)).xpPriv =
      UdpState.leaveData x.xpPriv w.xOp w := by
    rw [hop]
    rfl
  refine h.own hx hr hbytes hpriv rfl (hroom.trans (h.bufs.wf a x hx).room) (hwlen.trans hlen) ?_
  rw [OwnOp.apply, hrun]
  rfl

theorem allocOk_of_possible (h : UdpInv k master iosz cached s) (hx : s.st.xprts a = some x)
    {alloc : Option UdpCache.Alloc} (halloc : s.allocPossible a alloc = true) :
    s.st.AllocOk iosz alloc := by
  rintro m rfl
  simp only [allocPossible, hx, Bool.and_eq_true, Option.isNone_iff_eq_none, beq_iff_eq] at halloc
  obtain ⟨⟨hnodes, hbufs⟩, hlen⟩ := halloc
  refine ⟨fun c hc => ?_, hbufs, hlen.trans (h.bufs.wf a x hx).iosz_eq⟩
  rw [hc] at hnodes
  simpa using hnodes

/-- A reply whose bytes go into the cache: the transport gets another buffer, and the history of
stores one more entry. -/
theorem UdpInv.replyStored (h : UdpInv k master iosz cached s) (hx : s.st.xprts a = some x)
    (hr : s.serving master a = some r) {alloc : Option UdpCache.Alloc} (halloc : s.st.AllocOk iosz alloc)
    {c c' : UdpCache} (hc : s.st.cache = some c) {w : View} {su' : SvcudpData} {bufs' : Bufs}
    {op : OwnOp V ρ} (hroom : w.pos + w.handy = iosz) (hlen : w.bytes.length = iosz) {reply : List Byte}
    {slen : Nat} (hreply : w.bytes.take slen = reply)
    (hset : c.cacheSet (UdpState.leaveData x.xpPriv .encode w) slen alloc
      (Function.update s.st.bufs x.xpPriv.rpcBuffer (some w.bytes)) = .ok (c', su', bufs')) :
    UdpInv k master iosz cached
      { s.record a r op ({ s.st with cache := some c', bufs := bufs' }.store a
          (RpcMt.svcudpReply x true su')) with
        stores := UdpState.logged c c' r.xid r.caller reply s.stores } := by
  -- The state in which `cache_set` runs: the reply is in the buffer, nothing is stored yet.
  let x₁ : Svcxprt SvcudpData := { x with xpPriv := UdpState.leaveData x.xpPriv .encode w }
  let st₁ := s.st.leave a x.xpPriv.rpcBuffer w x₁
  have hinv₁ : st₁.BufInv iosz s.stores :=
    h.bufs.own hx (UdpState.wf_leaveData (h.bufs.wf a x hx) .encode hroom) rfl rfl hlen
  have hx₁ : st₁.xprts a = some x₁ := Function.update_self ..
  have hbytes₁ : st₁.bufs x₁.xpPriv.rpcBuffer = some w.bytes := Function.update_self ..
  have halloc₁ : st₁.AllocOk iosz alloc := by
    intro m hm
    obtain ⟨hnodes, hfree, hgarbage⟩ := halloc m hm
    refine ⟨hnodes, ?_, hgarbage⟩
    obtain ⟨bytes, hbytes, _⟩ := h.bufs.buf a x hx
    have hne : m.newbuf ≠ x.xpPriv.rpcBuffer := by
      intro heq
      rw [heq, hbytes] at hfree
      cases hfree
    exact (Function.update_of_ne hne _ _).trans hfree
  obtain ⟨hxid, _, _, hby⟩ := hinv₁.cacheSet_frame hc halloc₁ hset
  have hbufs : UdpState.BufInv iosz ({ s.st with cache := some c', bufs := bufs' }.store a
      (RpcMt.svcudpReply x true su')) (UdpState.logged c c' r.xid r.caller reply s.stores) := by
    have hstored : UdpState.BufInv iosz ({ st₁ with cache := some c', bufs := bufs' }.store a
        (RpcMt.svcudpReply x true su')) (UdpState.logged c c' r.xid r.caller reply s.stores) :=
      hinv₁.cacheSet hx₁ hc halloc₁ hbytes₁ hreply hset rfl
    have hidem : Function.update st₁.xprts a (some (RpcMt.svcudpReply x true su')) =
        Function.update s.st.xprts a (some (RpcMt.svcudpReply x true su')) := Function.update_idem ..
    simp only [UdpState.store, hidem] at hstored
    exact hstored
  refine h.call hx hr rfl hxid rfl ⟨rfl, rfl⟩ hbufs (by rw [hc]; rfl) ?_ fun hnone => by cases hnone
  intro e he
  unfold UdpState.logged at he
  split at he
  · exact h.xids e he
  · rename_i stored hst
    rcases List.mem_cons.mp he with rfl | he
    · rw [hby stored hst]
      exact (h.serves a x r hx hr).1.symm
    · exact h.xids e he

/-- How a reply goes: it is encoded, and then only sent, or sent in full and stored away. -/
theorem UdpInv.onReply_cases (h : UdpInv k master iosz cached s) (hx : s.st.xprts a = some x)
    (hr : s.serving master a = some r) {msg : ReplyMsg ρ} {sentAll : Bool}
    {alloc : Option UdpCache.Alloc} (hst : s.onReply k a r msg sentAll alloc = .ok t) :
    ∃ bytes stat w, s.st.bufs x.xpPriv.rpcBuffer = some bytes ∧
      (k.xdrReplymsg { msg with rmXid := r.xid }).run ⟨.encode, bytes, 0, iosz⟩ = .ok (stat, (), w) ∧
      (t = s.record a r (.reply { msg with rmXid := r.xid }) (s.st.leave a x.xpPriv.rpcBuffer w
          (RpcMt.svcudpReply x stat (UdpState.leaveData x.xpPriv .encode w))) ∨
        stat = true ∧ sentAll = true ∧ ∃ c c' su' bufs', s.st.cache = some c ∧
          c.cacheSet (UdpState.leaveData x.xpPriv .encode w) (w.pos % uintRange) alloc
            (Function.update s.st.bufs x.xpPriv.rpcBuffer (some w.bytes)) = .ok (c', su', bufs') ∧
          t = { s.record a r (.reply { msg with rmXid := r.xid })
              ({ s.st with cache := some c', bufs := bufs' }.store a (RpcMt.svcudpReply x true su')) with
            stores := UdpState.logged c c' r.xid r.caller (w.bytes.take (w.pos % uintRange)) s.stores }) := by
  obtain ⟨bytes, hbytes, _⟩ := h.bufs.buf a x hx
  obtain ⟨d, hcall, hst⟩ := bind_ok hst
  rw [UdpState.svcudpReply_eq h.bufs h.fits hx hbytes, ← (h.serves a x r hx hr).1] at hcall
  obtain ⟨⟨stat, u, w⟩, hrun, hd⟩ := bind_ok hcall
  clear hcall
  refine ⟨bytes, stat, w, hbytes, hrun, ?_⟩
  dsimp only at hd
  cases stat with
  | false =>
      cases hd
      dsimp only at hst
      split at hst
      · rename_i hsent
        cases hsent
      · cases hst
        exact Or.inl rfl
  | true =>
      rw [if_neg (by simp)] at hd
      split at hd
      · rename_i hcached
        obtain ⟨rfl, hsu⟩ := Bool.and_eq_true_iff.mp hcached
        rw [h.bufs.suCache a x hx] at hsu
        obtain ⟨c, hc⟩ := Option.isSome_iff_exists.mp hsu
        obtain ⟨⟨su', st'⟩, hreplied, hpair⟩ := bind_ok hd
        cases hpair
        simp only [UdpState.replyCached, hc] at hreplied
        obtain ⟨⟨c', su'', bufs'⟩, hset, hpure⟩ := bind_ok hreplied
        cases hpure
        rw [hc] at hst
        cases hst
        exact Or.inr ⟨rfl, rfl, c, c', su'', bufs', hc, hset, rfl⟩
      · rename_i hcached
        cases hd
        -- Without a cache, and where not all was sent, nothing is stored.
        dsimp only at hst
        split at hst
        · rename_i c c' sent hc _ _
          rw [h.bufs.suCache a x hx, hc] at hcached
          rw [if_neg (by simpa using hcached)] at hst
          cases hst
          exact Or.inl rfl
        · cases hst
          exact Or.inl rfl

theorem UdpInv.reply (h : UdpInv k master iosz cached s) (hx : s.st.xprts a = some x)
    (hr : s.serving master a = some r) {msg : ReplyMsg ρ} {sentAll : Bool}
    {alloc : Option UdpCache.Alloc} (halloc : s.allocPossible a alloc = true)
    (hst : s.onReply k a r msg sentAll alloc = .ok t) : UdpInv k master iosz cached t := by
  obtain ⟨bytes, stat, w, hbytes, hrun, hcases⟩ := h.onReply_cases hx hr hst
  obtain ⟨hop, hwlen, hwroom⟩ := Filter.frame _ hrun
  have hwiosz : w.pos + w.handy = iosz := hwroom.trans (Nat.zero_add _)
  have hlen : w.bytes.length = iosz := hwlen.trans (h.bufs.length_eq hx hbytes)
  rcases hcases with rfl | ⟨_, _, c, c', su', bufs', hc, hset, rfl⟩
  · have hpriv : (RpcMt.svcudpReply x stat (UdpState.leaveData x.xpPriv .encode w)).xpPriv =
        UdpState.leaveData x.xpPriv w.xOp w := by
      rw [hop]
      cases stat <;> rfl
    refine h.own hx hr hbytes hpriv (by cases stat <;> rfl) hwiosz hlen ?_
    simp only [OwnOp.apply, View.rewound, Xdr.view, (h.bufs.wf a x hx).room, hrun]
    rfl
  · exact h.replyStored hx hr (allocOk_of_possible h hx halloc) hc hwiosz hlen rfl hset

theorem UdpInv.ret (h : UdpInv k master iosz cached s) (hx : s.st.xprts a = some x)
    (hr : s.serving master a = some r) (hst : s.onRet cfg a = .ok t) : UdpInv k master iosz cached t := by
  obtain ⟨y, hy, hst⟩ := bind_ok hst
  cases hx.symm.trans (UdpState.deref_ok hy)
  obtain ⟨x', hx', hst⟩ := bind_ok hst
  cases hst
  obtain ⟨hpriv, hraddr⟩ := svcReturn_frame hx'
  have hsame : Function.update s.requests a (some r) = s.requests := by
    rw [← requests_of_serving hr, Function.update_eq_self]
  have hkey : r.xid = r.xid ∧ r.caller = r.caller := ⟨rfl, rfl⟩
  have hinv := h.call hx hr rfl (by rw [hpriv]) hraddr hkey
    (h.bufs.store_same hx hpriv) rfl h.xids fun hc => ⟨hc, fun b hb => ?_, fun ha => ?_⟩
  · rwa [hsame] at hinv
  · exact UdpState.viewAt_store_of_ne hb
  · rw [UdpState.viewAt_store_same hx hpriv]
    exact h.views hc a x r ha hx (requests_of_serving hr)

/-- A receive hands the master a new request, and leaves the clones alone. -/
theorem UdpInv.recv (h : UdpInv k master iosz cached s) {o : RecvOutcome} (hst : s.onRecv k master o = .ok t) :
    UdpInv k master iosz cached t := by
  obtain ⟨x, hx, hlast⟩ := h.live
  obtain ⟨r, hrecv, hst⟩ := bind_ok hst
  obtain ⟨x', bytes, hf, _, hcases⟩ := UdpState.svcudpRecv_ok h.bufs h.fits hx hrecv
  have hbufs := UdpState.svcudpRecv_bufInv h.bufs h.fits hx hrecv
  have hmaster : r.st.xprts master = some x' := by
    rw [hf.xprts]
    exact Function.update_self ..
  have hraddr : x'.xpRaddr = o.source s.lastSrc := by rw [hf.raddr, hlast]
  have hother : ∀ b, b ≠ master → r.st.xprts b = s.st.xprts b := by
    intro b hb
    rw [hf.xprts]
    exact Function.update_of_ne hb _ _
  have hcache : r.st.cache.isSome = s.st.cache.isSome :=
    (hbufs.suCache master x' hmaster).symm.trans (hf.suCache.trans (h.bufs.suCache master x hx))
  have hnone : r.st.cache = none → s.st.cache = none := by
    intro hc
    rw [hc] at hcache
    exact Option.isSome_eq_false_iff.mp hcache.symm |> Option.isNone_iff_eq_none.mp
  have hlive : ∀ b, (b ≠ master → ∃ y, s.st.xprts b = some y) → ∃ y, r.st.xprts b = some y := by
    intro b hold
    by_cases hb : b = master
    · exact ⟨x', hb ▸ hmaster⟩
    · rw [hother b hb]
      exact hold hb
  have hview : ∀ b y, b ≠ master → s.st.xprts b = some y → r.st.viewAt b = s.st.viewAt b := by
    intro b y hb hy
    have hne : y.xpPriv.rpcBuffer ≠ x.xpPriv.rpcBuffer :=
      fun heq => hb (h.bufs.apart b master y x hy hx heq)
    have hbuf : r.st.bufs y.xpPriv.rpcBuffer = s.st.bufs y.xpPriv.rpcBuffer := by
      rw [hf.bufs]
      exact Function.update_of_ne hne _ _
    simp only [UdpState.viewAt, hother b hb, hy, hbuf]
  dsimp only at hst
  rcases hcases with ⟨_, hmsg, _, _⟩ | ⟨msg, _, hmsg, hxid, _⟩
  · rw [hmsg] at hst
    cases hst
    refine ⟨h.fits, hcache.trans h.cache, hbufs, ⟨x', hmaster, hraddr⟩, ?_, ?_, ?_, h.xids, ?_⟩
    · intro b y hb hy
      exact h.clones b y hb ((hother b hb).symm.trans hy)
    · exact fun b r' hr' => hlive b fun hb => h.served b r' hr'
    · intro b y r' hy hr'
      by_cases hb : b = master
      · rw [hb, serving, if_pos ⟨rfl, rfl⟩] at hr'
        cases hr'
      · rw [serving_of_ne hb] at hr'
        exact h.serves b y r' ((hother b hb).symm.trans hy) ((serving_of_ne hb).trans hr')
    · intro hc b y r' hb hy hr'
      have hy' := (hother b hb).symm.trans hy
      rw [h.views (hnone hc) b y r' hb hy' hr', hview b y hb hy']
  · rw [hmsg] at hst
    cases hst
    refine ⟨h.fits, hcache.trans h.cache, hbufs, ⟨x', hmaster, hraddr⟩, ?_, ?_, ?_, h.xids, ?_⟩
    · intro b y hb hy
      obtain ⟨r', hr'⟩ := h.clones b y hb ((hother b hb).symm.trans hy)
      exact ⟨r', (Function.update_of_ne hb _ _).trans hr'⟩
    · exact fun b r' hr' => hlive b fun hb =>
        h.served b r' ((Function.update_of_ne hb _ _).symm.trans hr')
    · intro b y r' hy hr'
      rcases update_eq_some (requests_of_serving hr') with ⟨hb, hreq⟩ | ⟨hb, hreq⟩
      · rw [hb] at hy
        cases hmaster.symm.trans hy
        rw [hreq]
        exact ⟨hxid.symm, hraddr.symm⟩
      · exact h.serves b y r' ((hother b hb).symm.trans hy) ((serving_of_ne hb).trans hreq)
    · intro hc b y r' hb hy hr'
      have hy' := (hother b hb).symm.trans hy
      have hr'' : s.requests b = some r' := (Function.update_of_ne hb _ _).symm.trans hr'
      rw [h.views (hnone hc) b y r' hb hy' hr'', hview b y hb hy']

/-- The clone starts with the view that the master has at that moment. -/
theorem UdpInv.clone (h : UdpInv k master iosz cached s) {a2 : Addr} {buf : BufId} {st' : UdpState}
    (hpending : s.pending.isSome = true) (hfree : s.st.xprts a2 = none) (hbuf : s.st.bufs buf = none)
    (hr : s.requests master = some r) (hclone : s.st.svcudpXprtClone master a2 buf = .ok st') :
    UdpInv k master iosz cached { s with
      st := st'
      pending := none
      requests := Function.update s.requests a2
        (some { r with snapshot := s.st.viewAt master, ran := [] }) } := by
  obtain ⟨x, hx, hlast⟩ := h.live
  obtain ⟨bytes, hbytes, hlen⟩ := h.bufs.buf master x hx
  rw [UdpState.svcudpXprtClone_eq h.bufs hx hbytes] at hclone
  cases hclone
  have hne : master ≠ a2 := by
    rintro rfl
    rw [hx] at hfree
    cases hfree
  have hserving : s.serving master master = some r := by
    unfold serving
    split
    · rename_i hnone
      rw [Option.isNone_iff_eq_none.mp hnone.2] at hpending
      cases hpending
    · exact hr
  have hothers : ∀ b y, b ≠ a2 → s.st.xprts b = some y →
      UdpState.viewAt { s.st.store a2 (x.cloneXprt (UdpState.cloneData x.xpPriv buf)) with
        bufs := Function.update s.st.bufs buf (some bytes) } b = s.st.viewAt b := by
    intro b y hb hy
    obtain ⟨bytes', hbytes', _⟩ := h.bufs.buf b y hy
    have hnb : y.xpPriv.rpcBuffer ≠ buf := by
      intro heq
      rw [heq, hbuf] at hbytes'
      cases hbytes'
    have hkeep : Function.update s.st.bufs buf (some bytes) y.xpPriv.rpcBuffer =
        s.st.bufs y.xpPriv.rpcBuffer := Function.update_of_ne hnb _ _
    have hyo : (s.st.store a2 (x.cloneXprt (UdpState.cloneData x.xpPriv buf))).xprts b = some y :=
      (Function.update_of_ne hb _ _).trans hy
    simp only [UdpState.viewAt, hyo, hy, hkeep]
  refine ⟨h.fits, h.cache, h.bufs.clone hx hbytes hbuf, ?_, ?_, ?_, ?_, h.xids, ?_⟩
  · exact ⟨x, (Function.update_of_ne hne _ _).trans hx, hlast⟩
  · intro b y hb hy
    by_cases hba : b = a2
    · exact ⟨_, by rw [hba]; exact Function.update_self ..⟩
    · obtain ⟨r', hr'⟩ := h.clones b y hb ((Function.update_of_ne hba _ _).symm.trans hy)
      exact ⟨r', (Function.update_of_ne hba _ _).trans hr'⟩
  · intro b r' hr'
    rcases update_eq_some hr' with ⟨rfl, _⟩ | ⟨hba, hreq⟩
    · exact ⟨_, Function.update_self ..⟩
    · obtain ⟨y, hy⟩ := h.served b r' hreq
      exact ⟨y, (Function.update_of_ne hba _ _).trans hy⟩
  · intro b y r' hy hr'
    rcases update_eq_some (requests_of_serving hr') with ⟨hb, hreq⟩ | ⟨hb, hreq⟩
    · rcases update_eq_some hy with ⟨_, hyx⟩ | ⟨hba, _⟩
      · rw [hreq, hyx]
        exact h.serves master x r hx hserving
      · exact absurd hb hba
    · have hbm : b ≠ master := by
        rintro rfl
        rw [serving, if_pos ⟨rfl, rfl⟩] at hr'
        cases hr'
      exact h.serves b y r' ((Function.update_of_ne hb _ _).symm.trans hy)
        ((serving_of_ne hbm).trans hreq)
  · intro hc b y r' hb hy hr'
    rcases update_eq_some hr' with ⟨hba, hreq⟩ | ⟨hba, hreq⟩
    · rw [hreq, hba]
      change Except.ok (s.st.viewAt master) = Except.ok _
      rw [UdpState.viewAt_clone hx hbytes]
    · have hyo := (Function.update_of_ne hba _ _).symm.trans hy
      rw [hothers b y hba hyo]
      exact h.views hc b y r' hb hyo hreq

theorem UdpInv.destroy (h : UdpInv k master iosz cached s) {st' : UdpState} (ha : a ≠ master)
    (hst : s.st.svcudpDestroy a = .ok st') :
    UdpInv k master iosz cached { s with st := st', requests := Function.update s.requests a none } := by
  obtain ⟨x, hx, hst⟩ := bind_ok hst
  cases hst
  have hxa := UdpState.deref_ok hx
  obtain ⟨y, hy, hlast⟩ := h.live
  refine ⟨h.fits, h.cache, h.bufs.destroy hxa, ?_, ?_, ?_, ?_, h.xids, ?_⟩
  · exact ⟨y, (Function.update_of_ne ha.symm _ _).trans hy, hlast⟩
  · intro b z hb hz
    obtain ⟨hba, hzo⟩ := update_none_eq_some hz
    obtain ⟨r', hr'⟩ := h.clones b z hb hzo
    exact ⟨r', (Function.update_of_ne hba _ _).trans hr'⟩
  · intro b r' hr'
    obtain ⟨hba, hreq⟩ := update_none_eq_some hr'
    obtain ⟨z, hz⟩ := h.served b r' hreq
    exact ⟨z, (Function.update_of_ne hba _ _).trans hz⟩
  · intro b z r' hz hr'
    obtain ⟨hba, hzo⟩ := update_none_eq_some hz
    apply h.serves b z r' hzo
    unfold serving at hr' ⊢
    split at hr'
    · cases hr'
    · rename_i hmaster
      exact (if_neg hmaster).trans ((Function.update_of_ne hba _ _).symm.trans hr')
  · intro hc b z r' hb hz hr'
    obtain ⟨hba, hzo⟩ := update_none_eq_some hz
    have hne : z.xpPriv.rpcBuffer ≠ x.xpPriv.rpcBuffer :=
      fun heq => hba (h.bufs.apart b a z x hzo hxa heq)
    have hbuf : Function.update s.st.bufs x.xpPriv.rpcBuffer none z.xpPriv.rpcBuffer =
        s.st.bufs z.xpPriv.rpcBuffer := Function.update_of_ne hne _ _
    rw [h.views hc b z r' hb hzo (update_none_eq_some hr').2]
    have hzn : Function.update s.st.xprts a none b = some z := hz
    simp only [UdpState.viewAt, hzn, hzo, hbuf]

/-- One event keeps the invariant. -/
theorem UdpInv.step (h : UdpInv k master iosz cached s) {e : UdpEvent V ρ}
    (hst : s.step k cfg master e = some t) : UdpInv k master iosz cached t := by
  cases e with
  | recv os =>
      obtain ⟨_, _, hst⟩ := UdpServer.step_recv hst
      exact h.recv hst
  | clone a2 buf =>
      obtain ⟨hpending, hfree, hbuf, r, st, hr, hclone, rfl⟩ := UdpServer.step_clone hst
      exact h.clone hpending hfree hbuf hr hclone
  | getargs a f =>
      obtain ⟨r, hr, hst⟩ := UdpServer.step_getargs hst
      obtain ⟨x, hx⟩ := exists_xprt hst
      exact h.getargs hx hr hst
  | freeargs a f =>
      obtain ⟨r, hr, hst⟩ := UdpServer.step_freeargs hst
      obtain ⟨x, hx⟩ := exists_xprt hst
      exact h.freeargs hx hr hst
  | reply a msg sentAll alloc =>
      obtain ⟨halloc, r, hr, hst⟩ := UdpServer.step_reply hst
      obtain ⟨x, hx⟩ := exists_xprt hst
      exact h.reply hx hr halloc hst
  | ret a =>
      obtain ⟨r, hr, hst⟩ := UdpServer.step_ret hst
      obtain ⟨x, hx, _⟩ := bind_ok hst
      exact h.ret (UdpState.deref_ok hx) hr hst
  | destroy a =>
      obtain ⟨ha, _, st, hdestroy, rfl⟩ := UdpServer.step_destroy hst
      exact h.destroy ha hdestroy

theorem svcudpBufsize_lt (sendsz recvsz : Nat) : svcudpBufsize sendsz recvsz < uintRange := by
  have hmod := Nat.mod_lt (max sendsz recvsz + 3) (show 0 < uintRange by decide)
  have hdiv := Nat.div_mul_le_self ((max sendsz recvsz + 3) % uintRange) 4
  exact lt_of_le_of_lt hdiv hmod

section Start

variable {sock port id sendsz recvsz : Nat} {pktinfo : Bool} {buf : BufId} {garbage : Nat → Byte}
  {cache : Option UdpCache}

theorem start_xprts : (start (V := V) (ρ := ρ) master sock port id sendsz recvsz pktinfo buf garbage
    cache).st.xprts = Function.update (fun _ => none) master
      (some (svcudpBufcreate sock port id sendsz recvsz pktinfo buf cache.isSome)) := rfl

theorem start_bufs : (start (V := V) (ρ := ρ) master sock port id sendsz recvsz pktinfo buf garbage
    cache).st.bufs = Function.update (fun _ => none) buf
      (some ((List.range (svcudpBufsize sendsz recvsz)).map garbage)) := rfl

theorem bufInv_start (hcache : ∀ c, cache = some c → 0 < c.ucSize → c.CacheInv []) :
    (start (V := V) (ρ := ρ) master sock port id sendsz recvsz pktinfo buf garbage cache).st.BufInv
      (svcudpBufsize sendsz recvsz) [] := by
  have hheld : (start (V := V) (ρ := ρ) master sock port id sendsz recvsz pktinfo buf garbage
      cache).st.held [] = [] := by
    unfold UdpState.held
    split
    · rfl
    · exact List.take_nil
  have honly : ∀ a x, (start (V := V) (ρ := ρ) master sock port id sendsz recvsz pktinfo buf garbage
      cache).st.xprts a = some x → a = master ∧ x.xpPriv.rpcBuffer = buf ∧
        x.xpPriv.suCache = cache.isSome ∧ UdpState.Wf (svcudpBufsize sendsz recvsz) x.xpPriv := by
    intro a x hx
    rw [start_xprts] at hx
    rcases update_eq_some hx with ⟨ha, hxm⟩ | ⟨_, hxo⟩
    · rw [hxm]
      exact ⟨ha, rfl, rfl, rfl, rfl, Nat.zero_add _, rfl, rfl⟩
    · cases hxo
  refine ⟨?_, ?_, ?_, ?_, ?_, ?_, ?_, ?_⟩
  · intro a x hx
    exact (honly a x hx).2.2.2
  · intro a x hx
    rw [(honly a x hx).2.1, start_bufs]
    exact ⟨_, Function.update_self .., by simp⟩
  · intro a b x y hx hy _
    rw [(honly a x hx).1, (honly b y hy).1]
  · intro a x hx
    exact (honly a x hx).2.2.1
  · intro c hc hpos
    exact ⟨[], hcache c hc hpos, by simp [UdpCache.contents]⟩
  · rw [hheld]
    simp
  · rw [hheld]
    exact List.nodup_nil
  · rw [hheld]
    simp

theorem udpInv_start (hcache : ∀ c, cache = some c → 0 < c.ucSize → c.CacheInv []) :
    UdpInv k master (svcudpBufsize sendsz recvsz) cache.isSome
      (start (V := V) (ρ := ρ) master sock port id sendsz recvsz pktinfo buf garbage cache) := by
  refine ⟨svcudpBufsize_lt sendsz recvsz, rfl, bufInv_start hcache, ?_, ?_, ?_, ?_, by simp [start], ?_⟩
  · rw [start_xprts]
    exact ⟨_, Function.update_self .., rfl⟩
  · intro a x ha hx
    rw [start_xprts] at hx
    exact absurd ((update_eq_some hx).resolve_right fun hxo => by cases hxo.2).1 ha
  · intro a r hr
    cases hr
  · intro a x r _ hr
    cases requests_of_serving hr
  · intro _ a x r _ _ hr
    cases hr

/-- The invariant holds in every state of every run. -/
theorem udpInv_reached (hcache : ∀ c, cache = some c → 0 < c.ucSize → c.CacheInv []) {ok : UdpServer V ρ → UdpEvent V ρ → Prop}
    (hs : Reached (step k cfg master) ok
      (start master sock port id sendsz recvsz pktinfo buf garbage cache) s) :
    UdpInv k master (svcudpBufsize sendsz recvsz) cache.isSome s :=
  hs.invariant _ (udpInv_start hcache) fun _ _ _ hinv _ hst => hinv.step hst

end Start

end UdpServer

end RpcMt
