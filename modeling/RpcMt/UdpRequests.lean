import RpcMt.UdpServerInv

/-! A clone keeps its request to itself: whatever is received on the master, cloned from it, decoded and
answered elsewhere in the meantime, the worker on a clone decodes what the master's stream showed when
the clone was made, and answers the message the clone was made for. -/

open RpcMt.Runs

namespace RpcMt

/-- The same request, with other calls made for it. -/
def Request.Same {V ρ : Type} (r r' : Request V ρ) : Prop :=
  r'.xid = r.xid ∧ r'.caller = r.caller ∧ r'.snapshot = r.snapshot

namespace UdpServer

variable {V ρ : Type} {k : Codec ρ} {cfg : Config} {master : Addr} {iosz : Nat} {cached : Bool} {s t : UdpServer V ρ}
  {a : Addr} {x : Svcxprt SvcudpData} {r : Request V ρ}

/-- Decoding on a clone is decoding on the view that the master had, after the calls that the worker has
made since. -/
theorem UdpInv.getargs_eq (h : UdpInv k master iosz cached s) (hcache : s.st.cache = none) (ha : a ≠ master)
    (hx : s.st.xprts a = some x) (hr : s.requests a = some r) (hret : x.mtxpProgress .returned = false)
    (f : Filter V) :
    (s.st.svcudpGetargs a f).map (fun d => (d.rv, d.val)) =
      (replay k r.snapshot r.ran >>= f.run).map fun p => (p.1, some p.2.1) := by
  obtain ⟨bytes, hbytes, _⟩ := h.bufs.buf a x hx
  rw [h.views hcache a x r ha hx hr, UdpState.viewAt_eq hx hbytes,
    UdpState.svcudpGetargs_eq h.bufs hx hbytes hret]
  change _ = (f.run (x.xpPriv.suXdrs.view bytes)).map _
  cases f.run (x.xpPriv.suXdrs.view bytes) <;> rfl

/-- What a worker sends goes where its request came from, and is the encoding of its message under the
xid of its request. -/
theorem UdpInv.reply_sent (h : UdpInv k master iosz cached s) (hx : s.st.xprts a = some x)
    (hr : s.serving master a = some r) {msg : ReplyMsg ρ} {sentAll : Bool} {alloc : Option UdpCache.Alloc}
    {d : UdpState.Replied} {sent : Datagram}
    (hreply : s.st.svcudpReply k.xdrReplymsg a msg sentAll alloc = .ok d) (hsent : d.sent = some sent) :
    sent.dest = r.caller.addr ∧ ∃ w, (k.xdrReplymsg { msg with rmXid := r.xid }).run
      ((s.st.viewAt a).rewound .encode) = .ok (true, (), w) ∧ sent.bytes = w.bytes.take w.pos := by
  obtain ⟨bytes, hbytes, _⟩ := h.bufs.buf a x hx
  obtain ⟨hxid, haddr⟩ := h.serves a x r hx hr
  have hroom := (h.bufs.wf a x hx).room
  rw [UdpState.svcudpReply_eq h.bufs h.fits hx hbytes] at hreply
  obtain ⟨⟨stat, u, w⟩, hrun, hd⟩ := bind_ok hreply
  obtain ⟨_, _, hwroom⟩ := Filter.frame _ hrun
  have hpos : w.pos % uintRange = w.pos := by
    apply Nat.mod_eq_of_lt
    have hfits := h.fits
    have hw : w.pos + w.handy = 0 + iosz := hwroom
    omega
  have hview : (s.st.viewAt a).rewound .encode = ⟨.encode, bytes, 0, iosz⟩ := by
    rw [UdpState.viewAt_eq hx hbytes, View.rewound, Xdr.view, hroom]
  rw [hview, hxid]
  dsimp only at hd
  cases stat with
  | false =>
      cases hd
      cases hsent
  | true =>
      have hdg : sent = UdpState.replyDatagram x w := by
        rw [if_neg (by simp)] at hd
        split at hd
        · obtain ⟨p, _, hpure⟩ := bind_ok hd
          cases hpure
          exact (Option.some.inj hsent).symm
        · cases hd
          exact (Option.some.inj hsent).symm
      refine ⟨by rw [hdg, haddr]; rfl, w, hrun, ?_⟩
      rw [hdg, UdpState.replyDatagram, hpos]

/-- A call of the worker at `b` leaves all requests as they are. -/
theorem record_same {b : Addr} {r₀ : Request V ρ} {op : OwnOp V ρ} (st : UdpState)
    (hb : s.serving master b = some r₀) (hr : s.requests a = some r) :
    ∃ r', (s.record b r₀ op st).requests a = some r' ∧ r.Same r' := by
  by_cases hab : a = b
  · subst hab
    cases hr.symm.trans (requests_of_serving hb)
    exact ⟨_, Function.update_self .., rfl, rfl, rfl⟩
  · exact ⟨r, (Function.update_of_ne hab _ _).trans hr, rfl, rfl, rfl⟩

/-- A transport serves the same request until it is destroyed, or the master receives the next one. -/
theorem step_same {e : UdpEvent V ρ} (hst : s.step k cfg master e = some t)
    (hr : s.requests a = some r) (hx : s.st.xprts a = some x) (hd : a ≠ master → e.destroys a = false)
    (hrecv : e.isRecv = true → a ≠ master) : ∃ r', t.requests a = some r' ∧ r.Same r' := by
  have hsame : ∃ r', s.requests a = some r' ∧ r.Same r' := ⟨r, hr, rfl, rfl, rfl⟩
  cases e with
  | recv os =>
      obtain ⟨o, _, hst⟩ := UdpServer.step_recv hst
      obtain ⟨d, _, hst⟩ := bind_ok hst
      dsimp only at hst
      split at hst
      · cases hst
        exact hsame
      · cases hst
        exact ⟨r, (Function.update_of_ne (hrecv rfl) _ _).trans hr, rfl, rfl, rfl⟩
  | clone a2 buf =>
      obtain ⟨_, hfree, _, _, _, _, _, rfl⟩ := UdpServer.step_clone hst
      have hne : a ≠ a2 := by
        rintro rfl
        cases hfree.symm.trans hx
      exact ⟨r, (Function.update_of_ne hne _ _).trans hr, rfl, rfl, rfl⟩
  | getargs b f =>
      obtain ⟨r₀, hb, hst⟩ := UdpServer.step_getargs hst
      obtain ⟨d, _, hst⟩ := bind_ok hst
      cases hst
      split
      · exact record_same d.st hb hr
      · exact hsame
  | freeargs b f =>
      obtain ⟨r₀, hb, hst⟩ := UdpServer.step_freeargs hst
      obtain ⟨d, _, hst⟩ := bind_ok hst
      cases hst
      exact record_same d.st hb hr
  | reply b msg sentAll alloc =>
      obtain ⟨_, r₀, hb, hst⟩ := UdpServer.step_reply hst
      obtain ⟨d, _, hst⟩ := bind_ok hst
      dsimp only at hst
      split at hst
      · cases hst
        split
        · exact record_same d.st hb hr
        · exact record_same d.st hb hr
      · cases hst
        exact record_same d.st hb hr
  | ret b =>
      obtain ⟨_, _, hst⟩ := UdpServer.step_ret hst
      obtain ⟨y, _, hst⟩ := bind_ok hst
      obtain ⟨y', _, hst⟩ := bind_ok hst
      cases hst
      exact hsame
  | destroy b =>
      obtain ⟨hb, _, _, _, rfl⟩ := UdpServer.step_destroy hst
      have hne : a ≠ b := by
        rintro rfl
        simpa [UdpEvent.destroys] using hd hb
      exact ⟨r, (Function.update_of_ne hne _ _).trans hr, rfl, rfl, rfl⟩

/-- Over a run that does not destroy the clone at `a`, or does not receive where that is the master. -/
theorem same_of_reached {ok : UdpServer V ρ → UdpEvent V ρ → Prop} (h : UdpInv k master iosz cached s)
    (hr : s.requests a = some r) (hok : ∀ s e, ok s e → (a ≠ master → e.destroys a = false) ∧ (e.isRecv = true → a ≠ master))
    (hrun : Reached (step k cfg master) ok s t) :
    UdpInv k master iosz cached t ∧ ∃ r', t.requests a = some r' ∧ r.Same r' := by
  refine hrun.invariant (fun u => UdpInv k master iosz cached u ∧ ∃ r', u.requests a = some r' ∧ r.Same r')
    ⟨h, r, hr, rfl, rfl, rfl⟩ ?_
  rintro u e u' ⟨hu, r', hr', hxid, hcaller, hsnap⟩ hue hst
  obtain ⟨hd, hrecv⟩ := hok u e hue
  obtain ⟨y, hy⟩ := hu.served a r' hr'
  obtain ⟨r'', hr'', hxid', hcaller', hsnap'⟩ := step_same hst hr' hy hd hrecv
  exact ⟨hu.step hst, r'', hr'', hxid'.trans hxid, hcaller'.trans hcaller, hsnap'.trans hsnap⟩

/-- A datagram is received without a cache, and its message gets a clone; whatever happens then until
the clone is destroyed, the worker on the clone decodes what the master's stream showed when the
clone was made, after the calls `ran` that it has made itself, and answers the sender of the
datagram under the xid of the message. -/
theorem clone_serves_its_message {sock port id sendsz recvsz : Nat} {pktinfo : Bool} {buf : BufId}
    {garbage : Nat → Byte} {s₀ s₁ s₂ s₃ s : UdpServer V ρ} {os : List RecvOutcome} {src : SockaddrIn}
    {addrlen : Nat} {got : List Byte} {call : RpcMsg} {newbuf : BufId}
    (hs₀ : Reached (step k cfg master) anyStep
      (start master sock port id sendsz recvsz pktinfo buf garbage none) s₀)
    (ho : UdpState.recvLoop os = some (.datagram src addrlen got))
    (hrecv : s₀.step k cfg master (.recv os) = some s₁) (hcall : s₁.pending = some call)
    (hs₂ : Reached (step k cfg master) (fun _ e => e.isRecv = false) s₁ s₂)
    (hclone : s₂.step k cfg master (.clone a newbuf) = some s₃)
    (hs : Reached (step k cfg master) (fun _ e => e.destroys a = false) s₃ s) :
    ∃ x r, s.st.xprts a = some x ∧ s.requests a = some r ∧
      (x.mtxpProgress .returned = false → ∀ f : Filter V,
        (s.st.svcudpGetargs a f).map (fun d => (d.rv, d.val)) =
          (replay k (s₂.st.viewAt master) r.ran >>= f.run).map fun p => (p.1, some p.2.1)) ∧
      ∀ msg sentAll alloc d sent, s.st.svcudpReply k.xdrReplymsg a msg sentAll alloc = .ok d →
        d.sent = some sent → sent.dest = src ∧
          ∃ v w, replay k (s₂.st.viewAt master) r.ran = .ok v ∧
            (k.xdrReplymsg { msg with rmXid := call.rmXid }).run (v.rewound .encode) = .ok (true, (), w) ∧
            sent.bytes = w.bytes.take w.pos := by
  have hinv₀ := udpInv_reached (fun c hc => by cases hc) hs₀
  have hinv₁ := hinv₀.step hrecv
  -- The message received is the request of the master, and still is when the clone is made.
  obtain ⟨r₁, hr₁, hxid₁, haddr₁⟩ : ∃ r, s₁.requests master = some r ∧ r.xid = call.rmXid ∧
      r.caller.addr = src := by
    obtain ⟨o', ho', hst⟩ := UdpServer.step_recv hrecv
    cases ho.symm.trans ho'
    obtain ⟨d, _, hst⟩ := bind_ok hst
    dsimp only at hst
    split at hst
    · cases hst
      cases hcall
    · cases hst
      cases hcall
      exact ⟨_, Function.update_self .., rfl, rfl⟩
  obtain ⟨hinv₂, r₂, hr₂, hxid₂, hcaller₂, _⟩ := same_of_reached hinv₁ hr₁
    (fun _ e he => ⟨fun h => absurd rfl h, fun hrec => by rw [he] at hrec; cases hrec⟩) hs₂
  obtain ⟨ha, r₃, hr₃, hxid₃, hcaller₃, hsnap₃⟩ : a ≠ master ∧ ∃ r, s₃.requests a = some r ∧
      r.xid = r₂.xid ∧ r.caller = r₂.caller ∧ r.snapshot = s₂.st.viewAt master := by
    obtain ⟨y, hy, _⟩ := hinv₂.live
    obtain ⟨_, hfree, _, r, st, hr, _, rfl⟩ := UdpServer.step_clone hclone
    cases hr₂.symm.trans hr
    refine ⟨?_, _, Function.update_self .., rfl, rfl, rfl⟩
    rintro rfl
    cases hfree.symm.trans hy
  obtain ⟨hinv, r, hr, hxid, hcaller, hsnap⟩ := same_of_reached (hinv₂.step hclone) hr₃
    (fun _ e he => ⟨fun _ => he, fun _ => ha⟩) hs
  have hcache : s.st.cache = none := by simpa using hinv.cache
  obtain ⟨x, hx⟩ := hinv.served a r hr
  have hsnapshot : r.snapshot = s₂.st.viewAt master := hsnap.trans hsnap₃
  refine ⟨x, r, hx, hr, fun hret f => ?_, ?_⟩
  · rw [← hsnapshot]
    exact hinv.getargs_eq hcache ha hx hr hret f
  · intro msg sentAll alloc d sent hreply hsent
    obtain ⟨hdest, w, hrun, hbytes⟩ := hinv.reply_sent hx ((serving_of_ne ha).trans hr) hreply hsent
    have hxids : r.xid = call.rmXid := by rw [hxid, hxid₃, hxid₂, hxid₁]
    rw [hxids] at hrun
    refine ⟨?_, s.st.viewAt a, w, ?_, hrun, hbytes⟩
    · rw [hdest, hcaller, hcaller₃, hcaller₂, haddr₁]
    · rw [← hsnapshot]
      exact hinv.views hcache a x r ha hx hr

/-- A master at 0 whose buffer has room for a call with two words of arguments. -/
def someUdpServer (cache : Option UdpCache) : UdpServer (List Nat) (List Nat) :=
  start 0 3 111 0 48 48 false 10 (fun _ => 0) cache

/-- The settings under which the dispatcher does not wait for a worker. -/
def unwaitedConfig : Config := { defaultConfig with mtmode := 2 }

def someClient (port : Nat) : SockaddrIn := ⟨2, port, 0, 0⟩

def someCall (port xid arg : Nat) : UdpEvent (List Nat) (List Nat) :=
  .recv [.datagram (someClient port) 16 (nullCall xid 200 1 5 [arg])]

/-- A second client's call overwrites the master before the worker of the first has run. -/
theorem clone_serves_its_message_overwritten : ∃ (s₁ s : UdpServer (List Nat) (List Nat))
    (x : Svcxprt SvcudpData) (r : Request (List Nat) (List Nat)),
    (someUdpServer none).step nullCodec unwaitedConfig 0 (someCall 1000 7 42) = some s₁ ∧
    exec (step nullCodec unwaitedConfig 0) anyStep s₁ [.clone 1 11, someCall 2000 8 43] = some s ∧
    s.st.xprts 1 = some x ∧ s.requests 1 = some r ∧
    (x.mtxpProgress .returned = false → ∀ f : Filter (List Nat),
      (s.st.svcudpGetargs 1 f).map (fun d => (d.rv, d.val)) =
        (replay nullCodec (s₁.st.viewAt 0) r.ran >>= f.run).map fun p => (p.1, some p.2.1)) ∧
    ∀ msg sentAll alloc d sent, s.st.svcudpReply nullCodec.xdrReplymsg 1 msg sentAll alloc = .ok d →
      d.sent = some sent → sent.dest = someClient 1000 ∧
        ∃ v w, replay nullCodec (s₁.st.viewAt 0) r.ran = .ok v ∧
          (nullCodec.xdrReplymsg { msg with rmXid := 7 }).run (v.rewound .encode) = .ok (true, (), w) ∧
          sent.bytes = w.bytes.take w.pos := by
  have hfirst : ((someUdpServer none).step nullCodec unwaitedConfig 0 (someCall 1000 7 42)).bind pending =
      some ⟨7, 200, 1, 5, 0⟩ := by decide +kernel
  have hrest : (((someUdpServer none).step nullCodec unwaitedConfig 0 (someCall 1000 7 42)).bind fun s₁ =>
      exec (step nullCodec unwaitedConfig 0) anyStep s₁ [.clone 1 11, someCall 2000 8 43]).isSome = true := by
    decide +kernel
  obtain ⟨s₁, hrecv, hcall⟩ := Option.bind_eq_some_iff.mp hfirst
  rw [hrecv] at hrest
  obtain ⟨s, hs⟩ := Option.isSome_iff_exists.mp hrest
  obtain ⟨_, s₃, hclone, hmore⟩ := exec_cons _ _ hs
  obtain ⟨_, s₄, hsecond, hend⟩ := exec_cons _ _ hmore
  cases hend
  obtain ⟨x, r, hx, hr, hget, hreply⟩ :=
    clone_serves_its_message .start rfl hrecv hcall .start hclone (.next .start rfl hsecond)
  exact ⟨s₁, s, x, r, hrecv, hs, hx, hr, hget, hreply⟩

end UdpServer

end RpcMt
