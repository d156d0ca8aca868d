import RpcMt.Shutdown

/-! `xprt_destroy_all` is complete: it returns, has destroyed every live transport once and every clone before
its parent, has never counted a parent below zero, and leaves the tables vacant. The passes are run with a
log of the calls of `SVC_DESTROY`, which they do not read. -/

open RpcMt.Runs

namespace RpcMt.Registry

variable {π : Type}

/-- The registry in the course of a shutdown, and what was destroyed so far, the last first, each with the
registry it was destroyed in. -/
structure Teardown (π : Type) where
  reg : Registry ExactSet π
  log : List (Registry ExactSet π × Addr)

namespace Teardown

/-- `xprtDestroyTurn`, logged. -/
def destroyTurn (which : Svcxprt π → Bool) (id : Nat) (p : Teardown π) : Res (Teardown π) := do
  let entry ← p.reg.xportsAt id
  if entry = .bad then pure p
  else do
    let (a, x) ← p.reg.derefPtr entry
    if which x then do
      let s' ← p.reg.svcDestroy a
      pure ⟨{ s' with xports := Function.update s'.xports id .bad }, (p.reg, a) :: p.log⟩
    else pure p

def destroyLoop (which : Svcxprt π → Bool) (turns : Nat) (p : Teardown π) : Res (Teardown π) :=
  forIds (fun id p => p.reg.idIsValid id) (destroyTurn which) turns 0 p

def destroyAll (turns : Nat) (p : Teardown π) : Res (Teardown π) := do
  let p₁ ← p.destroyLoop (fun x => x.mtxpParent != noParent) turns
  let p₂ ← p₁.destroyLoop (fun x => x.xpPort == 0) turns
  p₂.destroyLoop (fun _ => true) turns

/-! ### The log is not read -/

theorem destroyTurn_reg (which : Svcxprt π → Bool) (id : Nat) (p : Teardown π) :
    (destroyTurn which id p).map Teardown.reg = xprtDestroyTurn which id p.reg := by
  unfold destroyTurn xprtDestroyTurn
  cases p.reg.xportsAt id with
  | error e => rfl
  | ok entry =>
      show (if entry = .bad then _ else _ : Res (Teardown π)).map Teardown.reg = if entry = .bad then _ else _
      split
      · rfl
      · cases p.reg.derefPtr entry with
        | error e => rfl
        | ok r =>
            show (if which r.2 then _ else _ : Res (Teardown π)).map Teardown.reg = if which r.2 then _ else _
            split
            · cases p.reg.svcDestroy r.1 with
              | error e => rfl
              | ok s' => rfl
            · rfl

theorem destroyLoop_reg (which : Svcxprt π → Bool) (turns : Nat) (p : Teardown π) :
    (p.destroyLoop which turns).map Teardown.reg = p.reg.xprtDestroyLoop which turns := by
  unfold destroyLoop xprtDestroyLoop
  apply forIds_map
  · exact fun _ _ => rfl
  · exact destroyTurn_reg which

theorem destroyLoop_reg_ok {which : Svcxprt π → Bool} {turns : Nat} {p q : Teardown π}
    (h : p.destroyLoop which turns = .ok q) : p.reg.xprtDestroyLoop which turns = .ok q.reg := by
  rw [← destroyLoop_reg, h]
  rfl

/-! ### One pass -/

variable {s : Registry ExactSet π} {good which : Svcxprt π → Bool} {p : Teardown π}

/-- A pass over `s`, before the transport under `id`: what it is for is gone below. -/
structure PassInv (s : Registry ExactSet π) (good which : Svcxprt π → Bool) (id : Nat) (p : Teardown π) : Prop where
  destroys : Destroys s p.log p.reg
  good : ∀ a x, p.reg.heap a = some x → good x = true
  gone : ∀ a x, p.reg.heap a = some x → x.mtxpId < id → which x = false

/-- What a pass goes by does not depend on reference counts. -/
def ReadsCore (f : Svcxprt π → Bool) : Prop := ∀ x y : Svcxprt π, x.core = y.core → f x = f y

theorem passInv_turn (hs : Orderly s) (hmax : s.xportsMaxid < s.xportsSize) (hgood : ReadsCore good)
    (hwhich : ReadsCore which)
    (hfree : ∀ u : Registry ExactSet π, Orderly u → (∀ a x, u.heap a = some x → good x = true) →
      ∀ a x, u.heap a = some x → which x = true → u.Childless x)
    {id : Nat} (h : PassInv s good which id p) (hid : id ≤ s.xportsMaxid) :
    ∃ q, destroyTurn which id p = .ok q ∧ PassInv s good which (id + 1) q := by
  have horderly := h.destroys.orderly hs
  obtain ⟨hmaxid, hsize⟩ := h.destroys.maxid
  have hat : p.reg.xportsAt id = .ok (p.reg.xports id) := if_pos (by omega)
  -- Below `id + 1` there is one transport more to account for.
  have hkeep : (∀ a x, p.reg.heap a = some x → x.mtxpId = id → which x = false) →
      PassInv s good which (id + 1) p := by
    intro hself
    refine ⟨h.destroys, h.good, fun a x hx hlt => ?_⟩
    rcases Nat.lt_succ_iff_lt_or_eq.mp hlt with hlt | heq
    · exact h.gone a x hx hlt
    · exact hself a x hx heq
  unfold destroyTurn
  rw [hat]
  rcases horderly.slots id with hbad | ⟨a, href⟩
  · refine ⟨p, if_pos hbad, hkeep fun a x hx heq => ?_⟩
    have hheld := horderly.held a x hx
    rw [heq, hbad] at hheld
    cases hheld
  · obtain ⟨x, hx, hxid⟩ := horderly.entry id a href
    have hderef : p.reg.derefPtr (p.reg.xports id) = .ok (a, x) := by
      rw [href, derefPtr, deref_of_heap hx]
      rfl
    show ∃ q, (if p.reg.xports id = .bad then _ else p.reg.derefPtr (p.reg.xports id) >>= _ : Res (Teardown π)) = .ok q ∧ _
    rw [hderef, if_neg (by rw [href]; exact XprtPtr.noConfusion)]
    show ∃ q, (if which x = true then p.reg.svcDestroy a >>= _ else _ : Res (Teardown π)) = .ok q ∧ _
    by_cases hx' : which x = true
    · have hchildless := hfree p.reg horderly h.good a x hx hx'
      obtain ⟨t, ht, _⟩ := horderly.destroy hx hchildless
      obtain ⟨x₀, hx₀, hd⟩ := svcDestroy_ok ht
      cases hx.symm.trans hx₀
      have hvacant : Function.update t.xports id .bad = t.xports := by
        rw [hd.xports, hxid, Function.update_idem]
      rw [if_pos hx', ht]
      refine ⟨⟨t, (p.reg, a) :: p.log⟩, ?_, .next h.destroys hx hchildless ht, ?_, ?_⟩
      · show Except.ok _ = _
        rw [hvacant]
      · intro b y hy
        obtain ⟨_, y', hy', hcore⟩ := hd.live_before hy
        rw [hgood y y' hcore]
        exact h.good b y' hy'
      · intro b y hy hlt
        obtain ⟨hb, y', hy', hcore⟩ := hd.live_before hy
        rw [hwhich y y' hcore]
        rw [Svcxprt.mtxpId_of_core hcore] at hlt
        rcases Nat.lt_succ_iff_lt_or_eq.mp hlt with hlt | heq
        · exact h.gone b y' hy' hlt
        · exact absurd (horderly.eq_of_id hy' hx (heq.trans hxid.symm)) hb
    · rw [if_neg hx']
      refine ⟨p, rfl, hkeep fun b y hy heq => ?_⟩
      cases horderly.eq_of_id hy hx (heq.trans hxid.symm)
      cases hx.symm.trans hy
      exact Bool.eq_false_iff.mpr hx'

/-- A pass destroys what it is for, and nothing else. -/
theorem destroyLoop_ok (hs : Orderly s) (hmax : s.xportsMaxid < s.xportsSize) (hgood : ReadsCore good)
    (hwhich : ReadsCore which)
    (hfree : ∀ u : Registry ExactSet π, Orderly u → (∀ a x, u.heap a = some x → good x = true) →
      ∀ a x, u.heap a = some x → which x = true → u.Childless x)
    (hp : Destroys s p.log p.reg) (hall : ∀ a x, p.reg.heap a = some x → good x = true) {turns : Nat}
    (hturns : s.xportsMaxid + 1 < turns) :
    ∃ q, p.destroyLoop which turns = .ok q ∧ Destroys s q.log q.reg ∧
      ∀ a x, q.reg.heap a = some x → good x = true ∧ which x = false := by
  have hlast : s.xportsMaxid < sizeMax := hs.lt_sizeMax hmax
  have hguard : ∀ id q, PassInv s good which id q → (q.reg.idIsValid id = true ↔ id ≤ s.xportsMaxid) := by
    intro id q hq
    rw [idIsValid, hq.destroys.maxid.1, decide_eq_true_iff]
  have hstart : PassInv s good which 0 p := ⟨hp, hall, fun _ _ _ hlt => absurd hlt (Nat.not_lt_zero _)⟩
  have hturns' : s.xportsMaxid + 1 < 0 + turns := by omega
  obtain ⟨q, hq, hinv⟩ := forIds_ok hlast hguard
    (fun id q hq hid => passInv_turn hs hmax hgood hwhich hfree hq hid) (Nat.zero_le _) hturns' hstart
  refine ⟨q, hq, hinv.destroys, fun a x hx => ⟨hinv.good a x hx, hinv.gone a x hx ?_⟩⟩
  have horderly := hinv.destroys.orderly hs
  have hle := (horderly.maxid_lt (horderly.mem hx)).1
  rw [hinv.destroys.maxid.1] at hle
  omega

/-! ### All three -/

/-- With the clones gone nobody is a parent. -/
theorem childless_of_masters {u : Registry ExactSet π} (hu : Orderly u)
    (hall : ∀ a x, u.heap a = some x → (x.mtxpParent == noParent) = true) {a : Addr} {x : Svcxprt π}
    (hx : u.heap a = some x) : u.Childless x := by
  refine Or.inr (Set.eq_empty_of_forall_notMem ?_)
  rintro b ⟨y, hy, hyp⟩
  have hlt := hu.lt_sizeMax (hu.id_lt hx)
  rw [← hyp, beq_iff_eq.mp (hall b y hy)] at hlt
  exact absurd hlt (lt_irrefl _)

theorem parent_readsCore : ReadsCore (fun x : Svcxprt π => x.mtxpParent == noParent) := by
  intro x y hcore
  have hparent : x.core.mtxpParent = y.core.mtxpParent := by rw [hcore]
  exact congrArg (· == noParent) hparent

theorem port_readsCore : ReadsCore (fun x : Svcxprt π => x.xpPort == 0) := by
  intro x y hcore
  have hport : x.core.xpPort = y.core.xpPort := by rw [hcore]
  exact congrArg (· == 0) hport

theorem destroyAll_ok (hs : Orderly s) (hmax : s.xportsMaxid < s.xportsSize) {turns : Nat}
    (hturns : s.xportsMaxid + 1 < turns) :
    ∃ q, destroyAll turns ⟨s, []⟩ = .ok q ∧ s.xprtDestroyAll turns = .ok q.reg ∧ Destroys s q.log q.reg ∧
      ∀ a, q.reg.heap a = none := by
  have hany : ReadsCore (fun _ : Svcxprt π => true) := fun _ _ _ => rfl
  have hclones : ReadsCore (fun x : Svcxprt π => x.mtxpParent != noParent) :=
    fun x y hcore => congrArg not (parent_readsCore x y hcore)
  obtain ⟨p₁, h₁, hd₁, hleft₁⟩ := destroyLoop_ok (p := ⟨s, []⟩) hs hmax hany hclones
    (fun _ _ _ _ _ _ hclone => Or.inl (bne_iff_ne.mp hclone)) .nil (fun _ _ _ => rfl) hturns
  have hmasters₁ : ∀ a x, p₁.reg.heap a = some x → (x.mtxpParent == noParent) = true := by
    intro a x hx
    simpa using (hleft₁ a x hx).2
  obtain ⟨p₂, h₂, hd₂, hleft₂⟩ := destroyLoop_ok hs hmax parent_readsCore port_readsCore
    (fun u hu hall a x hx _ => childless_of_masters hu hall hx) hd₁ hmasters₁ hturns
  obtain ⟨q, h₃, hd₃, hleft₃⟩ := destroyLoop_ok hs hmax parent_readsCore hany
    (fun u hu hall a x hx _ => childless_of_masters hu hall hx) hd₂ (fun a x hx => (hleft₂ a x hx).1) hturns
  refine ⟨q, ?_, ?_, hd₃, fun a => ?_⟩
  · rw [destroyAll, h₁]
    show (p₁.destroyLoop _ turns >>= _ : Res (Teardown π)) = _
    rw [h₂]
    exact h₃
  · rw [xprtDestroyAll, xprtDestroyAllUdpClones, destroyLoop_reg_ok h₁]
    show (p₁.reg.xprtDestroyAllTcpRendezvous turns >>= _ : Res _) = _
    rw [xprtDestroyAllTcpRendezvous, destroyLoop_reg_ok h₂]
    exact destroyLoop_reg_ok h₃
  · cases hx : q.reg.heap a with
    | none => rfl
    | some x => exact absurd (hleft₃ a x hx).2 (Bool.noConfusion)

/-- What a shutdown of `s` should come to. -/
structure Complete (s : Registry ExactSet π) (q : Teardown π) : Prop where
  once : (q.log.map Prod.snd).Nodup
  every : ∀ a, a ∈ q.log.map Prod.snd ↔ (s.heap a).isSome = true
  clonesFirst : ∀ later before u a m c mc, q.log = later ++ (u, a) :: before → s.heap a = some m →
    m.mtxpParent = noParent → s.heap c = some mc → mc.mtxpParent = m.mtxpId → c ∈ before.map Prod.snd
  counts : ∀ u, u = q.reg ∨ u ∈ q.log.map Prod.fst → ∀ b y, u.heap b = some y → 0 ≤ y.mtxpRefcnt
  xports : ∀ id, q.reg.xports id = .bad
  sockXports : ∀ sock, q.reg.sockXports sock = .bad
  pollfd : ∀ slot, slot < q.reg.maxPollfd → q.reg.pollfd slot = none

theorem complete_of_destroys (hs : Orderly s) {q : Teardown π} (h : Destroys s q.log q.reg)
    (hgone : ∀ a, q.reg.heap a = none) : Complete s q := by
  have horderly := h.orderly hs
  have hnone : ∀ a sock, ¬ q.reg.MasterOn a sock := by
    rintro a sock ⟨x, hx, _⟩
    cases (hgone a).symm.trans hx
  refine ⟨h.nodup, fun a => ⟨h.was_live, fun hlive => ?_⟩, ?_, ?_, ?_, ?_, ?_⟩
  · by_contra hout
    have hleft := (h.live_iff a).mpr ⟨hlive, hout⟩
    rw [hgone] at hleft
    cases hleft
  · exact fun _ _ _ _ _ _ _ hlog hm hmaster hc hparent => h.clone_first hlog hm hmaster hc hparent
  · rintro u (rfl | hu)
    · exact horderly.counts
    · obtain ⟨⟨u', a⟩, hmem, rfl⟩ := List.mem_map.mp hu
      obtain ⟨later, before, hlog⟩ := List.append_of_mem hmem
      exact ((h.at_split hlog).1.orderly hs).counts
  · intro id
    rcases horderly.slots id with hbad | ⟨a, href⟩
    · exact hbad
    · obtain ⟨x, hx, _⟩ := horderly.entry id a href
      cases (hgone a).symm.trans hx
  · intro sock
    rcases horderly.socks sock with hbad | ⟨a, hon⟩
    · exact hbad
    · exact absurd hon (hnone a sock)
  · intro slot hslot
    cases hfilled : q.reg.pollfd slot with
    | none => rfl
    | some sock =>
        obtain ⟨a, hon⟩ := horderly.owned slot sock hslot hfilled
        exact absurd hon (hnone a sock)

end Teardown

section Used

variable {s t : Registry ExactSet π}

/-- Once there is a transport the high-water mark is one of the table. -/
theorem maxid_of_registered {a : Addr} {x : Svcxprt π} (ht : Tables t) (hid : x.mtxpId = xprtIdInvalid)
    (hreg : (s.store a x).xprtRegister a = .ok t) : t.xportsMaxid < t.xportsSize := by
  obtain ⟨id, s₁, _, hent⟩ := xprtRegister_ok (Function.update_self ..) hid hreg
  have hat : t.xports id = .ref a := by rw [hent.xports, Function.update_self]
  exact (ht.maxid_lt ((ht.listed id).mpr ⟨a, hat⟩)).2

theorem maxid_lifeStep {op : LifeOp π} (ht : Tables t) (hmax : s.xportsMaxid < s.xportsSize)
    (hst : s.lifeStep op = some t) : t.xportsMaxid < t.xportsSize := by
  cases op with
  | touch a x =>
      obtain ⟨y, _, hst⟩ := Option.bind_eq_some_iff.mp hst
      split at hst
      · cases hst
        exact hmax
      · cases hst
  | reg op =>
      simp only [lifeStep, regStep] at hst
      split at hst
      · have hrun := toOption_ok hst
        cases op with
        | register a sock port isClone priv stat => exact maxid_of_registered ht rfl hrun
        | clone p a priv =>
            obtain ⟨px, _, hrun⟩ := bind_ok hrun
            exact maxid_of_registered (x := px.cloneXprt priv) ht rfl hrun
        | unregister a =>
            obtain ⟨x, _, hd⟩ := svcDestroy_ok hrun
            rw [hd.maxid, hd.size]
            exact hmax
      · cases hst

/-- From a registry that has had a transport, by whatever has happened since, `xprt_destroy_all` returns and
the shutdown is complete. -/
theorem xprtDestroyAll_complete {dtablesize : Nat} {a : Addr} {sock port : Nat} {isClone : Bool} {priv : π}
    {stat : XprtStat} {s₁ : Registry ExactSet π}
    (hfirst : regStep (createXports dtablesize) (.register a sock port isClone priv stat) = some s₁)
    (hs : Reached lifeStep ParentsStay s₁ s) :
    ∃ enough, ∀ turns, enough ≤ turns → ∃ q, Teardown.destroyAll turns ⟨s, []⟩ = .ok q ∧
      s.xprtDestroyAll turns = .ok q.reg ∧ Teardown.Complete s q := by
  have hok : ParentsStay (createXports dtablesize) (.reg (.register a sock port isClone priv stat)) := trivial
  have hfirst' : Orderly s₁ := orderly_lifeStep (orderly_createXports dtablesize) hok hfirst
  have hreg := toOption_ok ((if_pos rfl).symm.trans hfirst)
  have hinv : Orderly s ∧ s.xportsMaxid < s.xportsSize := by
    apply hs.invariant fun s => Orderly s ∧ s.xportsMaxid < s.xportsSize
    · exact ⟨hfirst', maxid_of_registered hfirst'.toTables rfl hreg⟩
    · intro u op v ⟨hu, hmax⟩ hok hst
      have hv := orderly_lifeStep hu hok hst
      exact ⟨hv, maxid_lifeStep hv.toTables hmax hst⟩
  refine ⟨s.xportsMaxid + 2, fun turns hturns => ?_⟩
  have hlong : s.xportsMaxid + 1 < turns := by omega
  obtain ⟨q, hq, hreg', hdestroys, hgone⟩ := Teardown.destroyAll_ok hinv.1 hinv.2 hlong
  exact ⟨q, hq, hreg', Teardown.complete_of_destroys hinv.1 hdestroys hgone⟩

/-- A UDP master, a clone of it and a TCP rendezvous, shut down. -/
theorem xprtDestroyAll_three : ∃ s : Registry ExactSet Unit, s.xportsCount = 3 ∧
    ∃ enough, ∀ turns, enough ≤ turns → ∃ q, Teardown.destroyAll turns ⟨s, []⟩ = .ok q ∧
      s.xprtDestroyAll turns = .ok q.reg ∧ Teardown.Complete s q := by
  have hrun : ((createXports 8 : Registry ExactSet Unit).regStep (.register 0 3 111 true () .idle)).bind (fun s =>
      (s.lifeStep (.reg (.clone 0 1 ()))).bind fun t =>
        (t.lifeStep (.reg (.register 2 4 2049 false () .idle))).map Registry.xportsCount) = some 3 := by
    decide +kernel
  obtain ⟨s₁, h₁, hrun⟩ := Option.bind_eq_some_iff.mp hrun
  obtain ⟨s₂, h₂, hrun⟩ := Option.bind_eq_some_iff.mp hrun
  obtain ⟨s₃, h₃, hcount⟩ := Option.map_eq_some_iff.mp hrun
  have hok₂ : ParentsStay s₁ (.reg (.clone 0 1 ())) := trivial
  have hok₃ : ParentsStay s₂ (.reg (.register 2 4 2049 false () .idle)) := trivial
  exact ⟨s₃, hcount, xprtDestroyAll_complete h₁ (.next (.next .start hok₂ h₂) hok₃ h₃)⟩

end Used

end RpcMt.Registry
