import RpcMt.SvcRun

/-! What the events of `svc_run` and its workers do to the registry and to the list of workers. All
but the reaper leave every transport where it is and touch few of its fields, and mark at most one id;
the reaper removes at most the transport it finds under a marked id. -/

open RpcMt.Registry

namespace RpcMt.SvcRun

/-! ### What the steps change -/

/-- What the calls on a transport leave of it. -/
structure Touched (cfg : Config) (x y : Svcxprt Endpoint) : Prop where
  id : y.mtxpId = x.mtxpId
  clone : y.mtxpClone = x.mtxpClone
  parent : y.mtxpParent = x.mtxpParent
  udp : y.xpPriv = .udp ↔ x.xpPriv = .udp
  ready : x.xpPriv ≠ .udp → cfg.waitMethodTcp = waitMutex → x.mtxpMtready = true → y.mtxpMtready = true

theorem Touched.refl {cfg : Config} (x : Svcxprt Endpoint) : Touched cfg x x :=
  ⟨rfl, rfl, rfl, Iff.rfl, fun _ _ h => h⟩

theorem Touched.trans {cfg : Config} {x y z : Svcxprt Endpoint} (h : Touched cfg x y)
    (h' : Touched cfg y z) : Touched cfg x z where
  id := h'.id.trans h.id
  clone := h'.clone.trans h.clone
  parent := h'.parent.trans h.parent
  udp := h'.udp.trans h.udp
  ready := fun hx hm hr => h'.ready (fun hy => hx (h.udp.mp hy)) hm (h.ready hx hm hr)

theorem touched_of_core {cfg : Config} {x y : Svcxprt Endpoint} (h : x.core = y.core) :
    Touched cfg x y := by
  have hcore : y = { x with mtxpRefcnt := y.mtxpRefcnt } := by
    calc y = { y.core with mtxpRefcnt := y.mtxpRefcnt } := rfl
      _ = { x.core with mtxpRefcnt := y.mtxpRefcnt } := by rw [h]
      _ = { x with mtxpRefcnt := y.mtxpRefcnt } := rfl
  rw [hcore]
  exact ⟨rfl, rfl, rfl, Iff.rfl, fun _ _ h => h⟩

theorem touched_setProgress {cfg : Config} (x : Svcxprt Endpoint) (m : Milestone) :
    Touched cfg x (x.setProgress m) := ⟨rfl, rfl, rfl, Iff.rfl, fun _ _ h => h⟩

theorem touched_setBusy {cfg : Config} (x : Svcxprt Endpoint) (value : Nat) :
    Touched cfg x (x.setBusy value) := ⟨rfl, rfl, rfl, Iff.rfl, fun _ _ h => h⟩

theorem touched_priv {cfg : Config} {x : Svcxprt Endpoint} {priv : Endpoint}
    (h : priv = .udp ↔ x.xpPriv = .udp) : Touched cfg x { x with xpPriv := priv } :=
  ⟨rfl, rfl, rfl, h, fun _ _ h => h⟩

theorem touched_unlock {cfg : Config} {x : Svcxprt Endpoint}
    (h : x.xpPriv = .udp ∨ cfg.waitMethodTcp ≠ waitMutex) : Touched cfg x x.unlockMtready := by
  refine ⟨rfl, rfl, rfl, Iff.rfl, fun hx hm _ => ?_⟩
  rcases h with h | h
  · exact absurd h hx
  · exact absurd hm h

/-- A connection knows no clones and its `mtxp_mtready` is locked. -/
def Shaped (x : Svcxprt Endpoint) : Prop :=
  x.mtxpClone = decide (x.xpPriv = .udp) ∧
    (x.xpPriv ≠ .udp → x.mtxpParent = noParent ∧ x.mtxpMtready = true)

def AllShaped (s : Xports) : Prop := ∀ a x, s.heap a = some x → Shaped x

theorem Shaped.touched {cfg : Config} {x y : Svcxprt Endpoint} (hm : cfg.waitMethodTcp = waitMutex)
    (h : Shaped x) (ht : Touched cfg x y) : Shaped y := by
  refine ⟨?_, fun hy => ?_⟩
  · rw [ht.clone, h.1]
    exact decide_eq_decide.mpr ht.udp.symm
  · have hx : x.xpPriv ≠ .udp := fun hx => hy (ht.udp.mpr hx)
    obtain ⟨hparent, hready⟩ := h.2 hx
    exact ⟨ht.parent.trans hparent, ht.ready hx hm hready⟩

/-- A change of the registry that destroys nothing and marks at most the id `m`. -/
structure Change (cfg : Config) (m : Option Nat) (s t : Xports) : Prop where
  entries : Entries t
  kept : ∀ a x, s.heap a = some x → ∃ y, t.heap a = some y ∧ Touched cfg x y
  shaped : cfg.waitMethodTcp = waitMutex → AllShaped s → AllShaped t
  bits : ∀ j, t.xprtgcIdset.bit j = true →
    s.xprtgcIdset.bit j = true ∨ ∃ id, m = some id ∧ Bitvec.SameBit id j

variable {cfg : Config} {s t u : Xports} {a b : Addr} {x y : Svcxprt Endpoint} {m : Option Nat}

theorem Change.refl (h : Entries s) : Change cfg none s s :=
  ⟨h, fun _ x hx => ⟨x, hx, .refl x⟩, fun _ hs => hs, fun _ hj => Or.inl hj⟩

theorem Change.trans (h : Change cfg none s t) (h' : Change cfg m t u) : Change cfg m s u where
  entries := h'.entries
  kept := by
    intro a x hx
    obtain ⟨y, hy, hxy⟩ := h.kept a x hx
    obtain ⟨z, hz, hyz⟩ := h'.kept a y hy
    exact ⟨z, hz, hxy.trans hyz⟩
  shaped := fun hm hs => h'.shaped hm (h.shaped hm hs)
  bits := by
    intro j hj
    rcases h'.bits j hj with hj' | hj'
    · rcases h.bits j hj' with hj'' | ⟨_, hnone, _⟩
      · exact Or.inl hj''
      · cases hnone
    · exact Or.inr hj'

theorem change_store (h : Entries s) (hx : s.heap a = some x) (ht : Touched cfg x y) :
    Change cfg none s (s.store a y) where
  entries := entries_store h hx ht.id
  kept := by
    intro b z hz
    by_cases hb : b = a
    · subst hb
      cases hx.symm.trans hz
      exact ⟨y, Function.update_self .., ht⟩
    · exact ⟨z, (Function.update_of_ne hb _ _).trans hz, .refl z⟩
  shaped := by
    intro hm hs b z hz
    rcases update_eq_some hz with ⟨_, rfl⟩ | ⟨_, hz⟩
    · exact (hs a x hx).touched hm ht
    · exact hs b z hz
  bits := fun _ hj => Or.inl hj

theorem change_registered {id : Nat} (ha : s.heap a = none)
    (hx : AllShaped s → Shaped { x with mtxpId := id }) (h : Registered s t a x id) : Change cfg none s t where
  entries := h.entries
  kept := by
    intro b y hy
    have hb : b ≠ a := by
      rintro rfl
      cases ha.symm.trans hy
    obtain ⟨z, hz, hcore⟩ := (h.kept b hb).after hy
    exact ⟨z, hz, touched_of_core hcore⟩
  shaped := by
    intro hm hs b z hz
    by_cases hb : b = a
    · subst hb
      obtain ⟨y, hy, hcore⟩ := h.self
      cases hy.symm.trans hz
      exact (hx hs).touched hm (touched_of_core hcore)
    · obtain ⟨y, hy, hcore⟩ := (h.kept b hb).before hz
      exact (hs b y hy).touched hm (touched_of_core hcore.symm)
  bits := by
    intro j hj
    rw [h.gcset] at hj
    exact Or.inl hj

theorem change_mark (h : Entries s) (hx : s.heap a = some x) (hmark : s.xprtGcMark a = .ok t) :
    Change cfg (some x.mtxpId) s t := by
  obtain ⟨hheap, hxports, hbits⟩ := xprtGcMark_ok hx hmark
  refine ⟨?_, ?_, ?_, ?_⟩
  · intro id b hb
    rw [hxports] at hb
    rw [hheap]
    exact h id b hb
  · intro b z hz
    exact ⟨z, hheap ▸ hz, .refl z⟩
  · intro _ hs b z hz
    exact hs b z (hheap ▸ hz)
  · intro j hj
    rw [hbits j, Bool.or_eq_true, decide_eq_true_eq] at hj
    rcases hj with hsame | hold
    · exact Or.inr ⟨_, rfl, hsame⟩
    · exact Or.inl hold

/-! ### What each event changes -/

theorem readtcp_touched (x : Svcxprt Endpoint) (io : Reading) (hx : x.xpPriv ≠ .udp) :
    Touched cfg x (readtcp x io) := by
  cases io with
  | unused => exact .refl x
  | ok => exact (touched_setProgress x .doneRead).trans (touched_setBusy _ 0)
  | failed =>
      have hudp : (Endpoint.conn .died = .udp) ↔ x.xpPriv = .udp := ⟨nofun, fun h => absurd h hx⟩
      exact (touched_setBusy x 1).trans (touched_priv hudp)

theorem svcCreate_change {sock port : Nat} {ep : Endpoint} {stat : XprtStat} (h : Entries s)
    (hc : svcCreate s a sock port ep stat = some t) : Change cfg none s t := by
  unfold svcCreate at hc
  split at hc
  · rename_i ha
    have hnone := Option.isNone_iff_eq_none.mp ha
    obtain ⟨id, _, _, hreg⟩ := xprtRegister_registered h hnone rfl (toOption_ok hc)
    exact change_registered hnone (fun _ => ⟨rfl, fun _ => ⟨rfl, rfl⟩⟩) hreg
  · cases hc

theorem svctcpRecv_touched (x : Svcxprt Endpoint) {priv : Endpoint}
    (hp : priv = .udp ↔ x.xpPriv = .udp) : Touched cfg x (svctcpRecv x priv) :=
  ⟨rfl, rfl, rfl, hp, fun _ _ h => h⟩

theorem svcRecv_change {r : Recv} {ok : Bool} (h : Entries s) (hr : svcRecv cfg s a r = some (t, ok)) :
    Change cfg none s t := by
  obtain ⟨x, hderef, hbody⟩ := Option.bind_eq_some_iff.mp hr
  have hx := deref_ok (toOption_ok hderef)
  split at hbody
  · obtain ⟨u, hu, hpure⟩ := Option.bind_eq_some_iff.mp hbody
    cases hpure
    exact svcCreate_change h hu
  · cases hbody
    exact .refl h
  · rename_i hp
    cases hbody
    exact change_store h hx (svctcpRecv_touched x (by simp [hp]))
  · rename_i hp
    cases hbody
    exact change_store h hx (svctcpRecv_touched x (by simp [hp]))
  · rename_i io hp
    cases hbody
    have hread : Touched cfg x (readtcp x io) := readtcp_touched x io (by simp [hp])
    exact change_store h hx (hread.trans (svctcpRecv_touched _ Iff.rfl))
  · rename_i io hp
    split at hbody
    · cases hbody
    · cases hbody
      have hread : Touched cfg x (readtcp x io) := readtcp_touched x io (by simp [hp])
      have hudp : (readtcp x io).xpPriv ≠ .udp := fun h => by simpa [hp] using hread.udp.mp h
      exact change_store h hx (hread.trans (svctcpRecv_touched _ (by simp [hudp])))
  · cases hbody

theorem recv_ok {s t : State} {r : Recv} (h : Entries s.reg) (hst : recv cfg s r = some t) :
    Change cfg none s.reg t.reg ∧ t.workers = s.workers ∧ ∃ a, s.pc = .receiving a := by
  unfold recv at hst
  split at hst
  · rename_i a hpc
    obtain ⟨⟨u, ok⟩, hu, hst⟩ := Option.bind_eq_some_iff.mp hst
    cases hst
    exact ⟨svcRecv_change h hu, rfl, a, hpc⟩
  · cases hst

theorem refuse_ok {s t : State} {died : Bool} (h : Entries s.reg) (hst : refuse s died = some t) :
    Change cfg none s.reg t.reg ∧ t.workers = s.workers ∧ ∃ a, s.pc = .received a := by
  unfold refuse at hst
  split at hst
  · rename_i a hpc
    obtain ⟨x, hx, hst⟩ := Option.bind_eq_some_iff.mp hst
    have hx := deref_ok (toOption_ok hx)
    cases hst
    refine ⟨change_store h hx ⟨rfl, rfl, rfl, ?_, fun _ _ h => h⟩, rfl, a, hpc⟩
    show (svctcpReply x _).xpPriv = .udp ↔ x.xpPriv = .udp
    cases hp : x.xpPriv <;> simp [svctcpReply, Svcxprt.setProgress]
  · cases hst

theorem waitOnGetargs_touched (waiter : Wait.Waiter) (x : Svcxprt Endpoint) :
    Touched cfg x (Wait.waitOnGetargs cfg (waiter, x)).2 := by
  cases waiter with
  | enter =>
      rw [Wait.waitOnGetargs]
      split
      · exact .refl x
      · exact ⟨rfl, rfl, rfl, Iff.rfl, fun _ _ h => h⟩
  | locking =>
      rw [Wait.waitOnGetargs]
      split
      · exact .refl x
      · exact ⟨rfl, rfl, rfl, Iff.rfl, fun _ _ _ => rfl⟩
  | polling i =>
      rw [Wait.waitOnGetargs]
      split
      · split
        · exact ⟨rfl, rfl, rfl, Iff.rfl, fun _ _ h => h⟩
        · exact .refl x
      · exact .refl x
  | done => exact .refl x

theorem wait_ok {s t : State} (h : Entries s.reg) (hst : wait cfg s = some t) :
    Change cfg none s.reg t.reg ∧ t.workers = s.workers ∧
      ∃ a w waiter x, s.pc = .waiting a w waiter ∧ s.reg.heap w = some x ∧
        t.pc = if (Wait.waitOnGetargs cfg (waiter, x)).1 = .done then .status a w
          else .waiting a w (Wait.waitOnGetargs cfg (waiter, x)).1 := by
  unfold wait at hst
  split at hst
  · rename_i a w waiter hpc
    obtain ⟨x, hx, hst⟩ := Option.bind_eq_some_iff.mp hst
    have hx := deref_ok (toOption_ok hx)
    cases hst
    exact ⟨change_store h hx (waitOnGetargs_touched waiter x), rfl, a, w, waiter, x, hpc, hx, rfl⟩
  · cases hst

/-! A status is `XPRT_DIED` on a connection whose stream has died, and only there. -/

theorem svcStat_touched (x : Svcxprt Endpoint) (io : Reading) (eof : Bool) :
    Touched cfg x (svcStat x io eof).1 ∧ ((svcStat x io eof).2 = .died → x.xpPriv = .conn .died) := by
  unfold svcStat
  split
  · rename_i hp
    exact ⟨.refl x, fun _ => hp⟩
  · rename_i hp
    refine ⟨readtcp_touched x io (by simp [hp]), fun h => ?_⟩
    cases eof <;> cases h
  · exact ⟨.refl x, nofun⟩

theorem stat_ok {s t : State} {io : Reading} {eof : Bool} (h : Entries s.reg)
    (hst : stat s io eof = some t) :
    t.workers = s.workers ∧ ∃ a w x, s.pc = .status a w ∧ s.reg.heap w = some x ∧
      (Change cfg none s.reg t.reg ∨
        (x.xpPriv = .conn .died ∧ Change cfg (some x.mtxpId) s.reg t.reg)) := by
  unfold stat at hst
  split at hst
  · rename_i a w hpc
    obtain ⟨x, hx, hst⟩ := Option.bind_eq_some_iff.mp hst
    have hx := deref_ok (toOption_ok hx)
    obtain ⟨htouch, hdied⟩ := @svcStat_touched cfg x io eof
    generalize hstat : svcStat x io eof = r at hst htouch hdied
    obtain ⟨y, xrv⟩ := r
    have hy : Touched cfg x { y with mtxpStat := xrv } :=
      htouch.trans ⟨rfl, rfl, rfl, Iff.rfl, fun _ _ h => h⟩
    have hchange := change_store h hx hy
    cases xrv with
    | died =>
        obtain ⟨u, hu, hst⟩ := Option.bind_eq_some_iff.mp hst
        cases hst
        refine ⟨rfl, a, w, x, hpc, hx, Or.inr ⟨hdied rfl, ?_⟩⟩
        have hself : (s.reg.store w { y with mtxpStat := .died }).heap w =
            some { y with mtxpStat := .died } := Function.update_self ..
        have hmark := @change_mark cfg _ _ _ _ hchange.entries hself (toOption_ok hu)
        have hid : y.mtxpId = x.mtxpId := hy.id
        have hall : Change cfg (some y.mtxpId) s.reg u := hchange.trans hmark
        exact hid ▸ hall
    | morereqs =>
        cases hst
        exact ⟨rfl, a, w, x, hpc, hx, Or.inl hchange⟩
    | idle =>
        cases hst
        exact ⟨rfl, a, w, x, hpc, hx, Or.inl hchange⟩
  · cases hst

/-! Dispatching: the clone, if there is one, has no return on record, so only a connection is marked. -/

theorem workerXprt_ok {w : Addr} (h : Entries s) (hx : s.heap a = some x)
    (hw : workerXprt s a b = some (t, w)) :
    (x.mtxpClone = false ∧ t = s ∧ w = a) ∨
      (x.mtxpClone = true ∧ Change cfg none s t ∧ ∃ id maxid z, s.xprtIdChoose = .ok (id, maxid) ∧
        t.heap w = some z ∧ z.mtxpId = id ∧ z.mtxpClone = true ∧ z.mtxpProgress .returned = false) := by
  unfold workerXprt at hw
  rw [deref_of_heap hx] at hw
  obtain ⟨y, hy, hbody⟩ := Option.bind_eq_some_iff.mp hw
  cases hy
  split at hbody
  · rename_i hclone
    split at hbody
    · rename_i hb
      obtain ⟨u, hu, hpure⟩ := Option.bind_eq_some_iff.mp hbody
      cases hpure
      have hnone := Option.isNone_iff_eq_none.mp hb
      obtain ⟨id, maxid, hchoose, hreg⟩ := xprtRegister_registered h hnone rfl (toOption_ok hu)
      have hshaped : AllShaped s → Shaped { x.cloneXprt x.xpPriv with mtxpId := id } := by
        intro hs
        have hudp : x.xpPriv = .udp := of_decide_eq_true ((hs a x hx).1.symm.trans hclone)
        exact ⟨(hs a x hx).1, fun hno => absurd hudp hno⟩
      obtain ⟨z, hz, hcore⟩ := hreg.self
      have hid := (Svcxprt.mtxpId_of_core hcore).symm
      have hz' := @touched_of_core cfg _ _ hcore
      refine Or.inr ⟨hclone, change_registered hnone hshaped hreg, id, maxid, z, hchoose, hz, hz'.id,
        hz'.clone.trans hclone, ?_⟩
      calc z.mtxpProgress .returned
        _ = z.core.mtxpProgress .returned := rfl
        _ = false := by rw [← hcore]; rfl
    · cases hbody
  · rename_i hclone
    cases hbody
    exact Or.inl ⟨by simpa using hclone, rfl, rfl⟩

theorem requestDispatch_touched {cfg : Config} (h : requestDispatch cfg x = .call y) : Touched cfg x y := by
  obtain ⟨_, rfl⟩ | ⟨_, rfl⟩ := requestDispatch_cases h
  · exact ⟨rfl, rfl, rfl, Iff.rfl, fun _ _ h => h⟩
  · exact ⟨rfl, rfl, rfl, Iff.rfl, fun _ _ h => h⟩

/-- The id of the transport that `request_dispatch` uses. -/
def handedId (s : Xports) (x : Svcxprt Endpoint) : Option Nat :=
  if x.mtxpClone then s.xprtIdChoose.toOption.map Prod.fst else some x.mtxpId

/-- What `request_dispatch` does with a call received on `a`. -/
inductive Dispatched (cfg : Config) (s t : State) (a : Addr) (x : Svcxprt Endpoint) : Prop
  | marked (hx : x.mtxpClone = false) (hreq : requestDispatch cfg x = .gcMark)
      (hworkers : t.workers = s.workers) (hchange : Change cfg (some x.mtxpId) s.reg t.reg)
  | handed (w : Addr) (y : Svcxprt Endpoint)
      (hw : x.mtxpClone = false → w = a)
      (hworkers : t.workers = s.workers ++ [⟨w, x.mtxpClone, .running⟩])
      (hchange : Change cfg none s.reg t.reg)
      (hy : t.reg.heap w = some y) (hclone : y.mtxpClone = x.mtxpClone)
      (hid : handedId s.reg x = some y.mtxpId)
      (hpc : cfg.mtmode = 1 → t.pc = .waiting a w .enter)

theorem dispatch_ok {s t : State} (h : Entries s.reg) (hst : dispatch cfg s b = some t) :
    ∃ a x, s.pc = .received a ∧ s.reg.heap a = some x ∧ Dispatched cfg s t a x := by
  unfold dispatch at hst
  split at hst
  · rename_i a hpc
    obtain ⟨⟨u, w⟩, hu, hbody⟩ := Option.bind_eq_some_iff.mp hst
    obtain ⟨z, hz, hbody⟩ := Option.bind_eq_some_iff.mp hbody
    have hz := deref_ok (toOption_ok hz)
    obtain ⟨x, hx, _⟩ := Option.bind_eq_some_iff.mp hu
    have hx := deref_ok (toOption_ok hx)
    refine ⟨a, x, hpc, hx, ?_⟩
    -- The transport that is used, before it is stored back: `a` itself or the new clone.
    have hused : Change cfg none s.reg u ∧ (x.mtxpClone = false → w = a) ∧ z.mtxpClone = x.mtxpClone ∧
        handedId s.reg x = some z.mtxpId ∧ (x.mtxpClone = true → z.mtxpProgress .returned = false) ∧
        (x.mtxpClone = false → z = x) := by
      rcases workerXprt_ok h hx hu with ⟨hno, rfl, rfl⟩ | ⟨hyes, hchange, id, maxid, z', hch, hz', hid, hcl, hret⟩
      · cases hx.symm.trans hz
        exact ⟨.refl h, fun _ => rfl, rfl, by simp [handedId, hno], by simp [hno], fun _ => rfl⟩
      · cases hz'.symm.trans hz
        refine ⟨hchange, by simp [hyes], hcl.trans hyes.symm, ?_, fun _ => hret, by simp [hyes]⟩
        simp [handedId, hyes, hch, hid, Except.toOption]
    obtain ⟨hchange, hw, hclone, hid, hret, hsame⟩ := hused
    have hstore : ∀ y, requestDispatch cfg z = .call y →
        Change cfg none s.reg (u.store w y) ∧ y.mtxpClone = x.mtxpClone ∧
          handedId s.reg x = some y.mtxpId := by
      intro y hy
      have ht := requestDispatch_touched hy
      refine ⟨hchange.trans (change_store hchange.entries hz ht), ht.clone.trans hclone, ?_⟩
      rw [ht.id, hid]
    split at hbody
    · rename_i y hy hmode
      cases hbody
      obtain ⟨h1, h2, h3⟩ := hstore y hy
      exact .handed w y hw (by rw [hclone]) h1 (Function.update_self ..) h2 h3 fun _ => rfl
    · rename_i y hy hmode
      cases hbody
      obtain ⟨h1, h2, h3⟩ := hstore y hy
      refine .handed w y hw (by rw [hclone]) h1 (Function.update_self ..) h2 h3 fun hone => ?_
      rw [hmode] at hone
      cases hone
    · rename_i hreq
      obtain ⟨v, hv, hpure⟩ := Option.bind_eq_some_iff.mp hbody
      cases hpure
      cases hx' : x.mtxpClone with
      | true =>
          exfalso
          unfold requestDispatch at hreq
          rw [if_neg (by simp [hret hx'])] at hreq
          cases hreq
      | false =>
          have hzx := hsame hx'
          subst hzx
          exact .marked hx' hreq rfl (hchange.trans (change_mark hchange.entries hz (toOption_ok hv)))
    · cases hbody
  · cases hst

theorem svcudpGetargs_touched (hp : x.xpPriv = .udp) : Touched cfg x (svcudpGetargs x .udp) := by
  unfold svcudpGetargs
  split
  · exact .refl x
  · have hpriv := @touched_priv cfg x .udp (by simp [hp])
    have hbusy := (hpriv.trans (touched_setProgress _ .getargs)).trans (touched_setBusy _ 1)
    exact hbusy.trans (touched_unlock (Or.inl rfl))

theorem endGetargs_touched (x : Svcxprt Endpoint) : Touched cfg x (endGetargs cfg x) := by
  unfold endGetargs
  have hget := @touched_setProgress cfg x .getargs
  by_cases hm : cfg.waitMethodTcp = 1
  · rw [if_pos hm]
    exact hget.trans (touched_setBusy _ 1)
  · rw [if_neg hm]
    exact hget.trans (touched_unlock (Or.inr hm))

theorem svcudpReply_touched (hp : x.xpPriv = .udp) (stat : Bool) :
    Touched cfg x (svcudpReply x stat .udp) := by
  have hpriv := @touched_priv cfg x .udp (by simp [hp])
  cases stat with
  | false => exact hpriv
  | true => exact hpriv.trans (touched_setProgress _ .reply)

theorem callXprt_ok {pc pc' : WorkerPc} {c : Call} (h : callXprt cfg x pc c = some (y, pc')) :
    Touched cfg x y ∧ pc ≠ .done ∧ (pc = .marked → pc' = .done) := by
  unfold callXprt at h
  split at h
  · split at h
    · rename_i hp
      cases h
      exact ⟨svcudpGetargs_touched hp, nofun, nofun⟩
    · cases h
      exact ⟨touched_setBusy x 1, nofun, nofun⟩
    · cases h
  · split at h
    · rename_i io _ _ hp
      cases h
      exact ⟨(readtcp_touched x io (by simp [hp])).trans (touched_setBusy _ 0), nofun, nofun⟩
    · cases h
  · split at h
    · cases h
    · cases h
      exact ⟨endGetargs_touched x, nofun, nofun⟩
  · split at h
    · rename_i hp
      cases h
      exact ⟨svcudpReply_touched hp _, nofun, nofun⟩
    · rename_i hp
      cases h
      exact ⟨(touched_priv (by simp [hp])).trans (touched_setProgress _ .reply), nofun, nofun⟩
    · cases h
  · split at h
    · rename_i hp
      cases h
      exact ⟨(touched_priv (by simp [hp])).trans (touched_setProgress _ .freeargs), nofun, nofun⟩
    · rename_i hp
      obtain ⟨z, hz, hpure⟩ := Option.bind_eq_some_iff.mp h
      cases hpure
      have hz := toOption_ok hz
      unfold svctcpFreeargs at hz
      split at hz
      · cases hz
      · cases hz
        exact ⟨(touched_priv (by simp [hp])).trans (touched_setProgress _ .freeargs), nofun, nofun⟩
    · cases h
  · cases h
    exact ⟨touched_setBusy x 1, nofun, nofun⟩
  · cases h
    exact ⟨touched_setProgress x .returned, nofun, nofun⟩
  · cases h
    exact ⟨touched_setBusy x 0, nofun, fun _ => rfl⟩
  · cases h

/-- What a step of worker `i` does: the mark of `svc_return`, or a call that changes its transport. -/
inductive Worked (cfg : Config) (s t : State) (i : Nat) (c : Call) (w : Worker) (x : Svcxprt Endpoint) :
    Prop
  | marked (hpc : w.pc = .returned) (hc : c = .svcReturn)
      (hworkers : t.workers = s.workers.set i { w with pc := .marked })
      (hchange : Change cfg (if x.mtxpClone then some x.mtxpId else none) s.reg t.reg)
  | called (pc : WorkerPc) (hmark : ¬(w.pc = .returned ∧ c = .svcReturn)) (hdone : w.pc ≠ .done)
      (hlast : w.pc = .marked → pc = .done)
      (hworkers : t.workers = s.workers.set i { w with pc := pc })
      (hchange : Change cfg none s.reg t.reg)

theorem worker_ok {s t : State} {i : Nat} {c : Call} (h : Entries s.reg)
    (hst : worker cfg s i c = some t) :
    ∃ w x, s.workers[i]? = some w ∧ s.reg.heap w.xprt = some x ∧ t.pc = s.pc ∧ Worked cfg s t i c w x := by
  obtain ⟨w, hw, hbody⟩ := Option.bind_eq_some_iff.mp hst
  split at hbody
  · rename_i hret
    obtain ⟨u, hu, hpure⟩ := Option.bind_eq_some_iff.mp hbody
    cases hpure
    obtain ⟨x, hx, hu⟩ := bind_ok (toOption_ok hu)
    have hx := deref_ok hx
    refine ⟨w, x, hw, hx, rfl, .marked hret.1 hret.2 rfl ?_⟩
    split at hu
    · rename_i hclone
      split at hu
      · cases hu
      · rw [if_pos hclone]
        exact change_mark h hx hu
    · rename_i hclone
      cases hu
      rw [if_neg hclone]
      exact .refl h
  · rename_i hret
    obtain ⟨x, hx, hbody⟩ := Option.bind_eq_some_iff.mp hbody
    have hx := deref_ok (toOption_ok hx)
    obtain ⟨⟨y, pc⟩, hcall, hpure⟩ := Option.bind_eq_some_iff.mp hbody
    cases hpure
    obtain ⟨ht, hdone, hlast⟩ := callXprt_ok hcall
    exact ⟨w, x, hw, hx, rfl, .called pc hret hdone hlast rfl (change_store h hx ht)⟩

/-! A step of the reaper destroys at most what it finds under the id it is at. -/

theorem reap_ok {s t : State} (h : Entries s.reg) (hst : reap s = some t) :
    ∃ c id, s.pc = .reaping c id ∧ t.workers = s.workers ∧ (t.reg = s.reg ∨ Reaped s.reg t.reg id) := by
  unfold reap at hst
  split at hst
  · rename_i c id hpc
    refine ⟨c, id, hpc, ?_⟩
    obtain ⟨o, ho, hbody⟩ := Option.bind_eq_some_iff.mp hst
    cases o with
    | some u =>
        cases hbody
        exact ⟨rfl, Or.inr (xprtGcReapTurn_ok h (toOption_ok ho))⟩
    | none =>
        cases c with
        | svcRun =>
            cases hbody
            exact ⟨rfl, Or.inl rfl⟩
        | svcGetreqPoll =>
            cases hbody
            exact ⟨rfl, Or.inl rfl⟩
        | svcGetreqCommon fd =>
            obtain ⟨entry, _, hbody⟩ := Option.bind_eq_some_iff.mp hbody
            cases entry with
            | null =>
                cases hbody
                exact ⟨rfl, Or.inl rfl⟩
            | bad =>
                cases hbody
                exact ⟨rfl, Or.inl rfl⟩
            | ref a =>
                obtain ⟨_, _, hpure⟩ := Option.bind_eq_some_iff.mp hbody
                cases hpure
                exact ⟨rfl, Or.inl rfl⟩
  · cases hst

theorem svcPoll_ok {s t : State} {ready : Bool} (hst : svcPoll s ready = some t) :
    t.reg = s.reg ∧ t.workers = s.workers ∧ s.pc = .polling := by
  unfold svcPoll at hst
  split at hst
  · rename_i hpc
    obtain ⟨fds, _, hbody⟩ := Option.bind_eq_some_iff.mp hst
    split at hbody
    · cases hbody
      exact ⟨rfl, rfl, hpc⟩
    · cases hbody
      exact ⟨rfl, rfl, hpc⟩
  · cases hst

theorem svcGetreqPoll_ok {s t : State} {revents : Bool} (hst : svcGetreqPoll s revents = some t) :
    t.reg = s.reg ∧ t.workers = s.workers ∧ s.pc = .polled := by
  unfold svcGetreqPoll at hst
  split at hst
  · rename_i hpc
    split at hst
    · cases hst
      exact ⟨rfl, rfl, hpc⟩
    · split at hst
      · cases hst
        exact ⟨rfl, rfl, hpc⟩
      · cases hst
        exact ⟨rfl, rfl, hpc⟩
  · cases hst

end RpcMt.SvcRun
