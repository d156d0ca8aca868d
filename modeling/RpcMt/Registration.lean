import Mathlib.Order.Fin.Basic
import RpcMt.CalloutRuns

/-! What the callers of `svc_register` and `svc_unregister` cannot rely on: a registration that is refused
by the binder stays on the list all the same, and `svc_unregister` asks the binder to forget a service
whether or not it was mapped. -/

namespace RpcMt

open Runs

variable {H : Type}

namespace Registrations

variable {s t : Registrations H} {l : List (Listed H)} {prog vers : RpcUlong}

/-! ### The keys of the list -/

theorem find_isSome_iff : (l.find? (hasKey prog vers)).isSome = true ↔ (prog, vers) ∈ keys l := by
  rw [← not_iff_not, ← serviceOf_eq_none, Bool.not_eq_true, Option.isSome_eq_false_iff,
    Option.isNone_iff_eq_none]
  simp [serviceOf]

theorem keys_unregisterList (hkeys : (keys l).Nodup) (prog vers : RpcUlong) :
    (keys (unregisterList l prog vers)).Nodup := by
  apply List.Nodup.sublist _ hkeys
  exact List.Sublist.map _ (List.eraseP_sublist)

theorem svcFind_none_iff {tab : SvcTable H} (h : tab.Lists l) :
    (∃ prev, tab.svcFind prog vers = .ok (prev, none)) ↔ (prog, vers) ∉ keys l := by
  rcases SvcTable.key_cases l prog vers with hno | ⟨l₁, n, e, l₂, rfl, hno, hkey⟩
  · refine iff_of_true (SvcTable.svcFind_absent h hno) ?_
    intro hin
    obtain ⟨x, hx, hxk⟩ := List.mem_map.mp hin
    exact hno x hx hxk
  · refine iff_of_false ?_ (not_not_intro ?_)
    · rintro ⟨prev, hnone⟩
      cases hnone.symm.trans (SvcTable.svcFind_present h hno hkey)
    · rw [← hkey]
      simp [keys]

theorem mem_unregisterList (hkeys : (keys l).Nodup) {x : Listed H} (hx : x ∈ unregisterList l prog vers) :
    x ∈ l ∧ x.2.key ≠ (prog, vers) := by
  refine ⟨List.mem_of_mem_eraseP hx, fun hkey => ?_⟩
  have hgone := congrFun (serviceOf_unregister hkeys prog vers) (prog, vers)
  rw [Function.update_self, serviceOf_eq_none] at hgone
  exact hgone (List.mem_map.mpr ⟨x, hx, hkey⟩)

/-- With its only callout gone, a program and version is not mapped: the binder is always asked. -/
theorem unregisterBinder_eq (hkeys : (keys l).Nodup) (b : Binder) (prog vers : RpcUlong) :
    SvcTable.unregisterBinder b l prog vers =
      if (prog, vers) ∈ keys l then b.pmapUnset prog vers else b := by
  have hunmapped : isMapped (unregisterList l prog vers) prog vers = false := by
    unfold isMapped
    rw [List.find?_eq_none.mpr fun x hx => by simpa [hasKey] using (mem_unregisterList hkeys hx).2]
    rfl
  unfold SvcTable.unregisterBinder
  by_cases hin : (prog, vers) ∈ keys l
  · rw [if_pos ⟨find_isSome_iff.mpr hin, hunmapped⟩, if_pos hin]
  · rw [if_neg fun h => hin (find_isSome_iff.mp h.1), if_neg hin]

theorem svcFind_some_iff {tab : SvcTable H} (h : tab.Lists l) :
    (∃ prev n, tab.svcFind prog vers = .ok (prev, some n)) ↔ (prog, vers) ∈ keys l := by
  rw [← not_iff_not, ← svcFind_none_iff h]
  constructor
  · intro hno
    rcases SvcTable.key_cases l prog vers with habsent | ⟨l₁, n, e, l₂, rfl, habsent, hkey⟩
    · exact SvcTable.svcFind_absent h habsent
    · exact absurd ⟨_, n, SvcTable.svcFind_present h habsent hkey⟩ hno
  · rintro ⟨prev, hnone⟩ ⟨prev', n, hsome⟩
    cases hnone.symm.trans hsome

theorem Maps_pmapSet {b : Binder} (h : b.Maps prog vers) (prog' vers' prot : RpcUlong) (port : Nat) :
    (b.pmapSet prog' vers' prot port).Maps prog vers := by
  obtain ⟨m, hm, hkey⟩ := h
  exact ⟨m, List.mem_cons_of_mem _ hm, hkey⟩

theorem Maps_pmapUnset (b : Binder) (prog' vers' prog vers : RpcUlong) :
    (b.pmapUnset prog' vers').Maps prog vers ↔ b.Maps prog vers ∧ (prog', vers') ≠ (prog, vers) := by
  unfold Binder.Maps Binder.pmapUnset
  constructor
  · rintro ⟨m, hm, rfl, rfl⟩
    obtain ⟨hmem, hne⟩ := List.mem_filter.mp hm
    refine ⟨⟨m, hmem, rfl, rfl⟩, fun heq => ?_⟩
    obtain ⟨hprog, hvers⟩ := Prod.mk.inj heq
    rw [decide_eq_true ⟨hprog.symm, hvers.symm⟩] at hne
    cases hne
  · rintro ⟨⟨m, hm, rfl, rfl⟩, hne⟩
    refine ⟨m, List.mem_filter.mpr ⟨hm, ?_⟩, rfl, rfl⟩
    have hkey : ¬(m.prog = prog' ∧ m.vers = vers') := fun heq => hne (Prod.ext heq.1.symm heq.2.symm)
    rw [decide_eq_false hkey]
    rfl

variable [DecidableEq H]

/-- `svc_register` works on a list `l'` that has a callout of the request, the list it found or that with
a new callout in front, and may then map the callout. -/
theorem registerList_cases (l : List (Listed H)) (rq : SvcTable.Request H) (fresh : CalloutId) (granted : Bool) :
    ∃ l', (l' = l ∧ (rq.prog, rq.vers) ∈ keys l ∨
        l' = (fresh, ⟨rq.prog, rq.vers, rq.dispatch, false⟩) :: l ∧ (rq.prog, rq.vers) ∉ keys l) ∧
      ((registerList l rq fresh granted).2 = l' ∨
        ∃ y ∈ l', y.2.key = (rq.prog, rq.vers) ∧ rq.protocol.val ≠ 0 ∧
          registerList l rq fresh granted = (true, l'.map (markMapped y.1)) ∧
          ∀ b, SvcTable.registerBinder b l rq granted =
            b.pmapSet rq.prog rq.vers rq.protocol rq.xpPort) := by
  unfold registerList SvcTable.registerBinder
  rcases hfind : l.find? (hasKey rq.prog rq.vers) with _ | x
  · have habsent : (rq.prog, rq.vers) ∉ keys l := by
      rw [← find_isSome_iff, hfind]
      exact Bool.noConfusion
    refine ⟨_, Or.inr ⟨rfl, habsent⟩, ?_⟩
    by_cases hprot : rq.protocol.val = 0
    · exact Or.inl (by simp [hprot])
    · cases granted with
      | false => exact Or.inl (by simp [hprot])
      | true => exact Or.inr ⟨_, List.mem_cons_self, rfl, hprot, by simp [hprot], by simp [hprot]⟩
  · have hpresent : (rq.prog, rq.vers) ∈ keys l := by
      rw [← find_isSome_iff, hfind]
      rfl
    have hkey : x.2.key = (rq.prog, rq.vers) := by simpa [hasKey] using List.find?_some hfind
    refine ⟨l, Or.inl ⟨rfl, hpresent⟩, ?_⟩
    by_cases hdisp : x.2.scDispatch = rq.dispatch
    · by_cases hprot : rq.protocol.val = 0
      · exact Or.inl (by simp [hprot, hdisp])
      · cases granted with
        | false => exact Or.inl (by simp [hprot, hdisp])
        | true =>
            exact Or.inr ⟨x, List.mem_of_find?_eq_some hfind, hkey, hprot, by simp [hprot, hdisp],
              by simp [hprot, hdisp]⟩
    · exact Or.inl (by simp [hdisp])

theorem keys_registerList (hkeys : (keys l).Nodup) (rq : SvcTable.Request H) (fresh : CalloutId)
    (granted : Bool) : (keys (registerList l rq fresh granted).2).Nodup := by
  obtain ⟨l', hl', hlist⟩ := registerList_cases l rq fresh granted
  have hnodup : (keys l').Nodup := by
    rcases hl' with ⟨rfl, _⟩ | ⟨rfl, hno⟩
    · exact hkeys
    · exact List.nodup_cons.mpr ⟨hno, hkeys⟩
  rcases hlist with heq | ⟨y, _, _, _, heq, _⟩
  · rw [heq]
    exact hnodup
  · rw [heq, keys_mark]
    exact hnodup

/-! ### Registrations that fail -/

/-- A call reported as failed leaves the list and the answers to all requests as they were. -/
def KeptOnFailure (tab tab' : SvcTable H) (l l' : List (Listed H)) (ok : Bool) : Prop :=
  ok = false → l' = l ∧
    ∀ prog vers, tab'.requestMatchProgVersion prog vers = tab.requestMatchProgVersion prog vers

/-- The binder refuses a service that is not on the list yet. -/
def RefusedAsNew (tab : SvcTable H) (rq : SvcTable.Request H) (granted : Bool) : Prop :=
  rq.protocol.val ≠ 0 ∧ granted = false ∧ ∃ prev, tab.svcFind rq.prog rq.vers = .ok (prev, none)

theorem registerList_failed_iff (l : List (Listed H)) (rq : SvcTable.Request H) (fresh : CalloutId)
    (granted : Bool) :
    ((registerList l rq fresh granted).1 = false → (registerList l rq fresh granted).2 = l) ↔
      ¬(rq.protocol.val ≠ 0 ∧ granted = false ∧ (rq.prog, rq.vers) ∉ keys l) := by
  unfold registerList
  rcases hfind : l.find? (hasKey rq.prog rq.vers) with _ | x
  · have habsent : (rq.prog, rq.vers) ∉ keys l := by
      rw [← find_isSome_iff, hfind]
      exact Bool.noConfusion
    by_cases hprot : rq.protocol.val = 0
    · simp [hprot]
    · cases granted <;> simp [hprot, habsent]
  · have hpresent : (rq.prog, rq.vers) ∈ keys l := by
      rw [← find_isSome_iff, hfind]
      rfl
    simp only [hpresent, not_true_eq_false, and_false, not_false_eq_true, iff_true]
    split
    · by_cases hprot : rq.protocol.val = 0
      · simp [hprot]
      · cases granted <;> simp [hprot]
    · exact fun _ => rfl

/-- The handler was registered for the program and version, with the answer TRUE, and they have not been
removed since. -/
def Vouched (prog vers : RpcUlong) (h : H) : List (Report H) → Prop
  | [] => False
  | .registered rq ok :: older =>
      (rq.prog = prog ∧ rq.vers = vers ∧ rq.dispatch = h ∧ ok = true) ∨ Vouched prog vers h older
  | .unregistered prog' vers' _ _ :: older => ¬(prog' = prog ∧ vers' = vers) ∧ Vouched prog vers h older

/-- No registration is refused by the binder as a new service. -/
def NoneRefused (s : Registrations H) : RegCall H → Prop
  | .register rq _ granted => ¬RefusedAsNew s.tab rq granted
  | .unregister _ _ => True

/-- Every callout of the list stands for a registration that was reported as done. -/
def AllVouched (s : Registrations H) : Prop :=
  ∃ l, s.tab.Lists l ∧ (keys l).Nodup ∧ ∀ x ∈ l, Vouched x.2.scProg x.2.scVers x.2.scDispatch s.reports

theorem mem_registerList {rq : SvcTable.Request H} {fresh : CalloutId} {granted : Bool} {x : Listed H}
    (hx : x ∈ (registerList l rq fresh granted).2) :
    (∃ y ∈ l, y.2.key = x.2.key ∧ y.2.scDispatch = x.2.scDispatch) ∨
      (rq.prog, rq.vers) ∉ keys l ∧ x.2.key = (rq.prog, rq.vers) ∧ x.2.scDispatch = rq.dispatch := by
  obtain ⟨l', hl', hlist⟩ := registerList_cases l rq fresh granted
  have hy : ∃ y ∈ l', y.2.key = x.2.key ∧ y.2.scDispatch = x.2.scDispatch := by
    rcases hlist with heq | ⟨a, _, _, _, heq, _⟩
    · exact ⟨x, heq ▸ hx, rfl, rfl⟩
    · rw [heq] at hx
      obtain ⟨y, hy, rfl⟩ := List.mem_map.mp hx
      refine ⟨y, hy, ?_, (scDispatch_markMapped a.1 y).symm⟩
      unfold markMapped SvcEntry.key
      split <;> rfl
  obtain ⟨y, hy, hkey, hdisp⟩ := hy
  rcases hl' with ⟨rfl, _⟩ | ⟨rfl, hno⟩
  · exact Or.inl ⟨y, hy, hkey, hdisp⟩
  · rcases List.mem_cons.mp hy with rfl | hy
    · exact Or.inr ⟨hno, hkey.symm, hdisp.symm⟩
    · exact Or.inl ⟨y, hy, hkey, hdisp⟩

theorem step_allVouched {c : RegCall H} (h : AllVouched s) (hok : NoneRefused s c) (hst : step s c = some t) :
    AllVouched t := by
  obtain ⟨l, hl, hkeys, hvouched⟩ := h
  cases c with
  | register rq fresh granted =>
      obtain ⟨t', hst', hlists, _, hreports⟩ :=
        step_register hl rq (fits_of_step hst) granted
      cases hst.symm.trans hst'
      refine ⟨_, hlists, keys_registerList hkeys _ _ _, ?_⟩
      intro x hx
      rw [hreports]
      rcases mem_registerList hx with ⟨y, hy, hkey, hdisp⟩ | ⟨hno, hkey, hdisp⟩
      · obtain ⟨hprog, hvers⟩ := Prod.mk.inj hkey
        have hold := hvouched y hy
        rw [hprog, hvers, hdisp] at hold
        exact Or.inr hold
      · have hdone : (registerList l rq fresh granted).1 = true := by
          by_contra hfailed
          have hsame := (registerList_failed_iff l rq fresh granted).mpr fun ⟨hprot, hrefused, _⟩ =>
            hok ⟨hprot, hrefused, (svcFind_none_iff hl).mpr hno⟩
          rw [hsame (by simpa using hfailed)] at hx
          exact hno (hkey ▸ List.mem_map_of_mem hx)
        obtain ⟨hprog, hvers⟩ := x.2.key_eq.mp hkey
        exact Or.inl ⟨hprog.symm, hvers.symm, hdisp.symm, hdone⟩
  | unregister prog vers =>
      obtain ⟨t', hst', hlists, _, hreports⟩ := step_unregister hl prog vers
      cases hst.symm.trans hst'
      refine ⟨_, hlists, keys_unregisterList hkeys _ _, ?_⟩
      intro x hx
      rw [hreports]
      obtain ⟨hold, hne⟩ := mem_unregisterList hkeys hx
      exact ⟨fun heq => hne (x.2.key_eq.mpr ⟨heq.1.symm, heq.2.symm⟩), hvouched x hold⟩

theorem allVouched_of_reached {binder : Binder} (h : Reached step NoneRefused (start binder) s) :
    AllVouched s :=
  h.invariant _ ⟨[], SvcTable.lists_empty, List.nodup_nil, nofun⟩ fun _ _ _ hs hok hst => step_allVouched hs hok hst

/-- A call that fails leaves the list as it was unless the binder has refused a new service; and in a
history without such a refusal, requests go only to handlers whose registration was reported as done. -/
theorem failed_register_iff :
    (∀ (tab : SvcTable H) (l : List (Listed H)) (binder : Binder) (rq : SvcTable.Request H)
        (fresh : CalloutId) (granted : Bool), tab.Lists l → tab.callouts fresh = none →
      ∃ ok tab' binder' l', tab.svcRegister binder rq fresh granted = .ok (ok, tab', binder') ∧
        tab'.Lists l' ∧ (KeptOnFailure tab tab' l l' ok ↔ ¬RefusedAsNew tab rq granted)) ∧
      ∀ (binder : Binder) (s : Registrations H), Reached step NoneRefused (start binder) s →
        ∀ prog vers h, s.tab.requestMatchProgVersion prog vers = .ok (.dispatch h) →
          Vouched prog vers h s.reports := by
  refine ⟨?_, ?_⟩
  · intro tab l binder rq fresh granted h hfresh
    obtain ⟨tab', hrun, hlists⟩ := SvcTable.svcRegister_spec h binder rq hfresh granted
    refine ⟨_, tab', _, _, hrun, hlists, ?_⟩
    unfold RefusedAsNew
    rw [svcFind_none_iff h, ← registerList_failed_iff l rq fresh granted]
    refine forall_congr' fun hfailed => and_iff_left_of_imp ?_
    intro hsame prog vers
    rw [SvcTable.requestMatchProgVersion_eq h, SvcTable.requestMatchProgVersion_eq hlists, hsame]
  · intro binder s hs prog vers h hmatch
    obtain ⟨l, hl, _, hvouched⟩ := allVouched_of_reached hs
    have hans := isAnswer_matchProgVersion l prog vers
    rw [SvcTable.requestMatchProgVersion_eq hl, Except.ok.injEq] at hmatch
    rw [hmatch] at hans
    obtain ⟨x, hfind, rfl⟩ := Option.map_eq_some_iff.mp hans
    have hkey : x.2.key = (prog, vers) := by simpa [hasKey] using List.find?_some hfind
    obtain ⟨rfl, rfl⟩ := x.2.key_eq.mp hkey
    exact hvouched x (List.mem_of_find?_eq_some hfind)

/-- A new service whose mapping is refused: the call fails, and a request for it is dispatched. -/
theorem failed_register_counterexample :
    ∃ tab', (SvcTable.empty : SvcTable Nat).svcRegister [] ⟨7, 1, 40, 6, 80⟩ 1 false = .ok (false, tab', []) ∧
      tab'.Lists [(1, ⟨7, 1, 40, false⟩)] ∧ tab'.requestMatchProgVersion 7 1 = .ok (.dispatch 40) ∧
      ¬KeptOnFailure SvcTable.empty tab' [] [(1, ⟨7, 1, 40, false⟩)] false := by
  obtain ⟨tab', hrun, hlists⟩ := SvcTable.svcRegister_spec (SvcTable.lists_empty (H := Nat)) []
    ⟨7, 1, 40, 6, 80⟩ (s := 1) rfl false
  refine ⟨tab', hrun, hlists, ?_, fun hkept => ?_⟩
  · exact SvcTable.requestMatchProgVersion_eq hlists
  · cases (hkept rfl).1

theorem failed_register_example :
    (∃ ok tab' binder' l', (SvcTable.empty : SvcTable Nat).svcRegister [] ⟨7, 1, 40, 6, 80⟩ 1 true =
        .ok (ok, tab', binder') ∧ tab'.Lists l' ∧
      (KeptOnFailure SvcTable.empty tab' [] l' ok ↔
        ¬RefusedAsNew (SvcTable.empty : SvcTable Nat) ⟨7, 1, 40, 6, 80⟩ true)) ∧
      ∃ t : Registrations Nat, step (start []) (.register ⟨7, 1, 40, 6, 80⟩ 1 true) = some t ∧
        Vouched 7 1 40 t.reports := by
  refine ⟨failed_register_iff.1 _ _ _ _ _ _ SvcTable.lists_empty rfl, ?_⟩
  have hfresh : (SvcTable.empty : SvcTable Nat).callouts 1 = none := rfl
  obtain ⟨t, ht, hlists, _⟩ := step_register (s := start []) SvcTable.lists_empty ⟨7, 1, 40, 6, 80⟩ hfresh true
  have hok : NoneRefused (start []) (.register ⟨7, 1, (40 : Nat), 6, 80⟩ 1 true) :=
    fun hrefused => Bool.noConfusion hrefused.2.1
  exact ⟨t, ht, failed_register_iff.2 [] t (.next .start hok ht) 7 1 40
    (SvcTable.requestMatchProgVersion_eq hlists)⟩

/-! ### The binder -/

/-- All registrations of a service since its last removal were made with protocol 0. -/
def OnlyProtocolZero (prog vers : RpcUlong) : List (Report H) → Prop
  | [] => True
  | .registered rq ok :: older =>
      (rq.prog = prog → rq.vers = vers → ok = true → rq.protocol.val = 0) ∧ OnlyProtocolZero prog vers older
  | .unregistered prog' vers' _ _ :: older => (prog' = prog ∧ vers' = vers) ∨ OnlyProtocolZero prog vers older

/-- A removal takes the mapping from the binder exactly if the callout was mapped, and leaves the binder
alone if the service was registered with protocol 0 only. -/
def ReportKept (older : List (Report H)) : Report H → Prop
  | .unregistered prog vers scMapped touched =>
      touched = scMapped ∧ (OnlyProtocolZero prog vers older → touched = false)
  | .registered _ _ => True

def BinderKept : List (Report H) → Prop
  | [] => True
  | r :: older => ReportKept older r ∧ BinderKept older

/-- No callout is removed that is not mapped while the binder maps its program and version. -/
def Spared (s : Registrations H) : RegCall H → Prop
  | .unregister prog vers => (∃ prev n, s.tab.svcFind prog vers = .ok (prev, some n)) →
      s.tab.svcIsMapped prog vers = .ok true ∨ ¬s.binder.Maps prog vers
  | .register _ _ _ => True

/-- What a callout marked as mapped says about the binder and the calls so far. -/
structure BinderInv (s : Registrations H) (l : List (Listed H)) : Prop where
  lists : s.tab.Lists l
  keys : (keys l).Nodup
  mapped : ∀ x ∈ l, x.2.scMapped = true →
    s.binder.Maps x.2.scProg x.2.scVers ∧ ¬OnlyProtocolZero x.2.scProg x.2.scVers s.reports

theorem Maps_registerBinder {b : Binder} (h : b.Maps prog vers) (l : List (Listed H))
    (rq : SvcTable.Request H) (granted : Bool) : (SvcTable.registerBinder b l rq granted).Maps prog vers := by
  unfold SvcTable.registerBinder
  split
  · exact Maps_pmapSet h _ _ _ _
  · exact h

/-- A callout that is marked after `svc_register` was marked before, or the call has just mapped it. -/
theorem mapped_registerList {rq : SvcTable.Request H} {fresh : CalloutId} {granted : Bool} {x : Listed H}
    (hids : ((registerList l rq fresh granted).2.map Prod.fst).Nodup)
    (hx : x ∈ (registerList l rq fresh granted).2) (hmapped : x.2.scMapped = true) :
    x ∈ l ∨ x.2.key = (rq.prog, rq.vers) ∧ rq.protocol.val ≠ 0 ∧ (registerList l rq fresh granted).1 = true ∧
      ∀ b, SvcTable.registerBinder b l rq granted = b.pmapSet rq.prog rq.vers rq.protocol rq.xpPort := by
  obtain ⟨l', hl', hlist⟩ := registerList_cases l rq fresh granted
  have hold (hx' : x ∈ l') : x ∈ l := by
    rcases hl' with ⟨rfl, _⟩ | ⟨rfl, _⟩
    · exact hx'
    · rcases List.mem_cons.mp hx' with rfl | hx'
      · cases hmapped
      · exact hx'
  rcases hlist with heq | ⟨y, hy, hkey, hprot, heq, hbinder⟩
  · exact Or.inl (hold (heq ▸ hx))
  · rw [heq] at hids hx ⊢
    rw [SvcTable.map_fst_markMapped] at hids
    obtain ⟨z, hz, rfl⟩ := List.mem_map.mp hx
    by_cases hzy : z.1 = y.1
    · obtain rfl : z = y := List.inj_on_of_nodup_map hids hz hy hzy
      refine Or.inr ⟨?_, hprot, rfl, hbinder⟩
      rw [← hkey]
      unfold markMapped SvcEntry.key
      split <;> rfl
    · rw [markMapped, if_neg hzy] at hold ⊢
      exact Or.inl (hold hz)

omit [DecidableEq H] in
theorem BinderInv.of_isMapped (h : BinderInv s l) (hmapped : isMapped l prog vers = true) :
    s.binder.Maps prog vers ∧ ¬OnlyProtocolZero prog vers s.reports := by
  rcases hfind : l.find? (hasKey prog vers) with _ | x
  · simp [isMapped, hfind] at hmapped
  · have hkey : x.2.key = (prog, vers) := by simpa [hasKey] using List.find?_some hfind
    obtain ⟨rfl, rfl⟩ := x.2.key_eq.mp hkey
    exact h.mapped x (List.mem_of_find?_eq_some hfind) (by simpa [isMapped, hfind] using hmapped)

theorem step_binderInv {c : RegCall H} (h : ∃ l, BinderInv s l) (hst : step s c = some t) :
    ∃ l, BinderInv t l := by
  obtain ⟨l, hl, hkeys, hmapped⟩ := h
  cases c with
  | register rq fresh granted =>
      obtain ⟨t', hst', hlists, hbinder, hreports⟩ :=
        step_register hl rq (fits_of_step hst) granted
      cases hst.symm.trans hst'
      refine ⟨_, hlists, keys_registerList hkeys _ _ _, ?_⟩
      intro x hx hm
      rw [hbinder, hreports]
      rcases mapped_registerList hlists.nodup hx hm with hold | ⟨hkey, hprot, hdone, hset⟩
      · obtain ⟨hmaps, hnot⟩ := hmapped x hold hm
        exact ⟨Maps_registerBinder hmaps l rq granted, fun hall => hnot hall.2⟩
      · obtain ⟨hprog, hvers⟩ := x.2.key_eq.mp hkey
        rw [hset, hprog, hvers]
        exact ⟨⟨_, List.mem_cons_self, rfl, rfl⟩, fun hall => hprot (hall.1 rfl rfl hdone)⟩
  | unregister prog vers =>
      obtain ⟨t', hst', hlists, hbinder, hreports⟩ := step_unregister hl prog vers
      cases hst.symm.trans hst'
      refine ⟨_, hlists, keys_unregisterList hkeys _ _, ?_⟩
      intro x hx hm
      obtain ⟨hold, hne⟩ := mem_unregisterList hkeys hx
      obtain ⟨hmaps, hnot⟩ := hmapped x hold hm
      rw [hbinder, hreports, unregisterBinder_eq hkeys]
      refine ⟨?_, ?_⟩
      · split
        · exact (Maps_pmapUnset _ _ _ _ _).mpr ⟨hmaps, hne.symm⟩
        · exact hmaps
      · rintro (hsame | hall)
        · exact hne (x.2.key_eq.mpr ⟨hsame.1.symm, hsame.2.symm⟩)
        · exact hnot hall

theorem binderInv_of_reached {binder : Binder} (h : Reached step anyStep (start binder) s) :
    ∃ l, BinderInv s l :=
  h.invariant (fun s => ∃ l, BinderInv s l) ⟨[], SvcTable.lists_empty, List.nodup_nil, nofun⟩
    fun _ _ _ hs _ hst => step_binderInv hs hst

/-- One call takes from the binder what it should exactly if it is spared. -/
theorem step_kept_iff {c : RegCall H} (h : BinderInv s l) (hst : step s c = some t) :
    ∃ r, t.reports = r :: s.reports ∧ (ReportKept s.reports r ↔ Spared s c) := by
  cases c with
  | register rq fresh granted =>
      obtain ⟨t', hst', _, _, hreports⟩ :=
        step_register h.lists rq (fits_of_step hst) granted
      cases hst.symm.trans hst'
      exact ⟨_, hreports, Iff.rfl⟩
  | unregister prog vers =>
      obtain ⟨t', hst', _, hbinder, hreports⟩ := step_unregister h.lists prog vers
      cases hst.symm.trans hst'
      refine ⟨_, hreports, ?_⟩
      show (_ ∧ _) ↔ (_ → _)
      rw [Binder.lost, hbinder, unregisterBinder_eq h.keys, svcFind_some_iff h.lists,
        SvcTable.svcIsMapped_spec h.lists, Except.ok.injEq]
      by_cases hin : (prog, vers) ∈ keys l
      · have hgone : ¬(s.binder.pmapUnset prog vers).Maps prog vers := by
          rw [Maps_pmapUnset]
          simp
        rw [if_pos hin, decide_eq_false hgone]
        cases hmapped : isMapped l prog vers with
        | true =>
            obtain ⟨hmaps, hnot⟩ := h.of_isMapped hmapped
            simp [hmaps, hnot]
        | false =>
            simp only [hin]
            by_cases hmaps : s.binder.Maps prog vers <;> simp [hmaps]
      · have hunmapped : isMapped l prog vers = false := by
          rcases hfind : l.find? (hasKey prog vers) with _ | x
          · simp [isMapped, hfind]
          · exact absurd (find_isSome_iff.mp (hfind ▸ rfl)) hin
        rw [if_neg hin, hunmapped]
        simp [hin]

/-- In a history every removal keeps the binder's books exactly if no unmapped service is removed while
the binder maps it. -/
theorem binder_kept_iff (binder : Binder) (s : Registrations H) :
    Reached step Spared (start binder) s ↔
      Reached step anyStep (start binder) s ∧ BinderKept s.reports := by
  constructor
  · intro h
    refine ⟨h.mono fun _ _ _ => trivial, ?_⟩
    induction h with
    | start => exact trivial
    | next hs hok hst ih =>
        obtain ⟨l, hl⟩ := binderInv_of_reached (hs.mono fun _ _ _ => trivial)
        obtain ⟨r, hr, hkept⟩ := step_kept_iff hl hst
        rw [hr]
        exact ⟨hkept.mpr hok, ih⟩
  · rintro ⟨h, hkept⟩
    induction h with
    | start => exact .start
    | next hs _ hst ih =>
        obtain ⟨l, hl⟩ := binderInv_of_reached hs
        obtain ⟨r, hr, hiff⟩ := step_kept_iff hl hst
        rw [hr] at hkept
        exact .next (ih hkept.2) (hiff.mp hkept.1) hst

/-- A mapping that another process has made goes with a service registered with protocol 0 only. -/
theorem binder_kept_counterexample :
    ∃ s : Registrations Nat, Reached step anyStep (start [⟨7, 1, 6, 111⟩]) s ∧
      s.reports = [.unregistered 7 1 false true, .registered ⟨7, 1, 40, 0, 80⟩ true] ∧
      ¬BinderKept s.reports := by
  have hrun : (exec step anyStep (start [⟨7, 1, 6, 111⟩])
      [.register ⟨7, 1, (40 : Nat), 0, 80⟩ 1 true, .unregister 7 1]).map reports =
      some [.unregistered 7 1 false true, .registered ⟨7, 1, 40, 0, 80⟩ true] := by decide +kernel
  obtain ⟨s, hs, hreports⟩ := Option.map_eq_some_iff.mp hrun
  refine ⟨s, reached_of_exec step anyStep .start _ hs, hreports, ?_⟩
  rw [hreports]
  exact fun hkept => Bool.noConfusion hkept.1.1

end Registrations

end RpcMt
