import Mathlib.Data.List.Perm.Subperm
import RpcMt.CalloutSpecs
import RpcMt.Runs
import RpcMt.TopLevel

/-! Who frees a callout. `svc_register` has its callouts from `svc_l1_alloc`, which keeps their addresses for
`svc_l1_cleanup` to free; `svc_unregister` frees a callout itself and leaves its address in `l1_vec`. The heap is
strict: a pointer to a block that was freed is never followed and never freed again without a fault. What is no
longer live after a run without a fault was therefore freed once. -/

namespace RpcMt

open Runs

variable {H : Type}

namespace SvcTable

/-! ### Callouts in memory -/

/-- The callouts in memory are those of the list. -/
structure Owns (tab : SvcTable H) (l : List (Listed H)) : Prop where
  lists : tab.Lists l
  only : ∀ p, tab.callouts p ≠ none → p ∈ l.map Prod.fst

variable {tab tab' : SvcTable H} {l : List (Listed H)} {prog vers : RpcUlong}

theorem owns_empty : (empty : SvcTable H).Owns [] := ⟨lists_empty, fun _ h => absurd rfl h⟩

theorem write_live {s : CalloutId} {c : SvcCallout H} (hs : tab.callouts s ≠ none) (p : CalloutId) :
    (tab.write s c).callouts p ≠ none ↔ tab.callouts p ≠ none := by
  by_cases hp : p = s
  · subst hp
    exact iff_of_true (by simp [write]) hs
  · have hother : (tab.write s c).callouts p = tab.callouts p := Function.update_of_ne hp _ _
    rw [hother]

theorem callout_live {s : CalloutId} {c : SvcCallout H} (h : tab.callout s = .ok c) : tab.callouts s ≠ none := by
  unfold callout at h
  split at h
  · cases h
  · rename_i c' hc
    rw [hc]
    exact Option.some_ne_none c'

theorem pmapIt_live {binder binder' : Binder} {rq : Request H} {granted ok : Bool} {s : CalloutId}
    (h : tab.pmapIt binder rq granted s = .ok (ok, tab', binder')) (p : CalloutId) :
    tab'.callouts p ≠ none ↔ tab.callouts p ≠ none := by
  unfold pmapIt at h
  split at h
  · split at h
    · obtain ⟨c, hc, h⟩ := bind_ok h
      cases h
      exact write_live (callout_live hc) p
    · cases h
      rfl
  · cases h
    rfl

/-- The addresses on the list that `svc_register` leaves. -/
theorem ids_registerList [DecidableEq H] (l : List (Listed H)) (rq : Request H) (fresh : CalloutId) (granted : Bool) :
    (registerList l rq fresh granted).2.map Prod.fst =
      if (l.find? (hasKey rq.prog rq.vers)).isSome = true then l.map Prod.fst else fresh :: l.map Prod.fst := by
  unfold registerList
  cases l.find? (hasKey rq.prog rq.vers) with
  | none =>
      dsimp only
      repeat' split
      all_goals first
        | rfl
        | exact map_fst_markMapped fresh _
        | contradiction
  | some x =>
      dsimp only
      repeat' split
      all_goals first
        | rfl
        | exact map_fst_markMapped x.1 _
        | contradiction

theorem Owns.register [DecidableEq H] (h : tab.Owns l) (binder : Binder) (rq : Request H) {fresh : CalloutId}
    (hfresh : tab.callouts fresh = none) (granted : Bool) :
    ∃ tab', tab.svcRegister binder rq fresh granted =
        .ok ((registerList l rq fresh granted).1, tab', registerBinder binder l rq granted) ∧
      tab'.Owns (registerList l rq fresh granted).2 := by
  obtain ⟨tab', hrun, hlists⟩ := svcRegister_spec h.lists binder rq hfresh granted
  refine ⟨tab', hrun, hlists, fun p hp => ?_⟩
  rw [ids_registerList]
  unfold svcRegister at hrun
  obtain ⟨⟨prev, found⟩, hfind, hrun⟩ := bind_ok hrun
  obtain hno | ⟨l₁, s, e, l₂, rfl, hno, hkey⟩ := key_cases l rq.prog rq.vers
  · obtain ⟨prev', hfind'⟩ := svcFind_absent h.lists hno
    cases hfind'.symm.trans hfind
    rw [find_none_of_absent hno]
    rw [pmapIt_live hrun] at hp
    by_cases hpf : p = fresh
    · rw [hpf]
      exact List.mem_cons_self
    · have hother : (tab.push fresh rq.prog rq.vers rq.dispatch).callouts p = tab.callouts p :=
        Function.update_of_ne hpf _ _
      rw [hother] at hp
      exact List.mem_cons_of_mem _ (h.only p hp)
  · cases (svcFind_present h.lists hno hkey).symm.trans hfind
    rw [find_present hno hkey]
    obtain ⟨c, _, hrun⟩ := bind_ok hrun
    split at hrun
    · rw [pmapIt_live hrun] at hp
      exact h.only p hp
    · obtain rfl : tab = tab' := congrArg (fun r => r.2.1) (Except.ok.inj hrun)
      exact h.only p hp

theorem bypass_live {prev next : Option CalloutId} (h : tab.bypass prev next = .ok tab') (p : CalloutId) :
    tab'.callouts p ≠ none ↔ tab.callouts p ≠ none := by
  unfold bypass at h
  cases prev with
  | none =>
      cases h
      rfl
  | some q =>
      obtain ⟨c, hc, h⟩ := bind_ok h
      cases h
      exact write_live (callout_live hc) p

theorem Owns.unregister (h : tab.Owns l) (binder : Binder) (prog vers : RpcUlong) :
    ∃ tab', tab.svcUnregister binder prog vers = .ok (tab', unregisterBinder binder l prog vers) ∧
      tab'.Owns (unregisterList l prog vers) := by
  obtain ⟨tab', hrun, hlists⟩ := svcUnregister_spec h.lists binder prog vers
  refine ⟨tab', hrun, hlists, fun p hp => ?_⟩
  unfold svcUnregister at hrun
  obtain ⟨⟨prev, found⟩, hfind, hrun⟩ := bind_ok hrun
  obtain hno | ⟨l₁, s, e, l₂, rfl, hno, hkey⟩ := key_cases l prog vers
  · obtain ⟨prev', hfind'⟩ := svcFind_absent h.lists hno
    cases hfind'.symm.trans hfind
    obtain rfl : tab = tab' := congrArg Prod.fst (Except.ok.inj hrun)
    have hsame : unregisterList l prog vers = l :=
      List.eraseP_of_forall_not fun x hx => by simpa [hasKey] using hno x hx
    rw [hsame]
    exact h.only p hp
  · cases (svcFind_present h.lists hno hkey).symm.trans hfind
    obtain ⟨c, _, hrun⟩ := bind_ok hrun
    obtain ⟨linked, hlinked, hrun⟩ := bind_ok hrun
    obtain ⟨mapped, _, hrun⟩ := bind_ok hrun
    have htab : tab' = linked.free s := by
      split at hrun
      · exact (congrArg Prod.fst (Except.ok.inj hrun)).symm
      · exact (congrArg Prod.fst (Except.ok.inj hrun)).symm
    have hps : p ≠ s := by
      rintro rfl
      rw [htab, free] at hp
      exact hp (Function.update_self ..)
    have hother : (linked.free s).callouts p = linked.callouts p := Function.update_of_ne hps _ _
    rw [htab, hother] at hp
    have hmem := h.only p ((bypass_live hlinked p).mp hp)
    rw [unregisterList, eraseP_present hno hkey]
    simp only [List.map_append, List.map_cons, List.mem_append, List.mem_cons] at hmem ⊢
    tauto

end SvcTable

/-! ### The cleanup -/

namespace CalloutOwnership

/-- The loop of `svc_l1_cleanup` over the entries of `l1_vec`. -/
def freeEntries : List (Option CalloutId) → SvcTable H → Res (SvcTable H)
  | [], tab => .ok tab
  | none :: entries, tab => freeEntries entries tab
  | some p :: entries, tab =>
      if (tab.callouts p).isSome then freeEntries entries (tab.free p) else .error .badPointer

/-- The callout list, the local binder, and `l1_vec`. -/
structure World (H : Type) where
  tab : SvcTable H
  binder : Binder
  l1 : TopLevel CalloutId

namespace World

def start (binder : Binder) : World H := ⟨.empty, binder, .start⟩

/-- `svc_register`, which calls `svc_l1_alloc` if `svc_find` finds nothing. What it does to the list and
the binder is `SvcTable.svcRegister`. -/
def svcRegister [DecidableEq H] (w : World H) (rq : SvcTable.Request H) (fresh : CalloutId) (granted : Bool) :
    Res (World H) := do
  let (_, found) ← w.tab.svcFind rq.prog rq.vers
  let l1 ← match found with
    | some _ => pure w.l1
    | none => w.l1.svcL1Alloc fresh
  let (_, tab, binder) ← w.tab.svcRegister w.binder rq fresh granted
  pure ⟨tab, binder, l1⟩

def svcUnregister (w : World H) (prog vers : RpcUlong) : Res (World H) := do
  let (tab, binder) ← w.tab.svcUnregister w.binder prog vers
  pure { w with tab := tab, binder := binder }

/-- `svc_l1_cleanup`, which is what `svc_shutdown` does with the callouts. The pointer `l1_vec` is kept. -/
def svcL1Cleanup (w : World H) : Res (World H) :=
  match w.l1.l1Vec with
  | .null => .ok w
  | .freed => .error .badPointer
  | .live block => do
      let tab ← freeEntries (block.take w.l1.l1Len) w.tab
      pure { w with tab := tab, l1 := { w.l1 with l1Vec := .freed } }

end World

inductive Event (H : Type) where
  | register (rq : SvcTable.Request H) (fresh : CalloutId) (granted : Bool)
  | unregister (prog vers : RpcUlong)
  | shutdown

/-- A call, after a run that has had no fault. The memory that `svc_l1_alloc` hands out is not in use. -/
def step [DecidableEq H] : Res (World H) → Event H → Option (Res (World H))
  | .error e, _ => some (.error e)
  | .ok w, .register rq fresh granted =>
      if (w.tab.callouts fresh).isSome then none else some (w.svcRegister rq fresh granted)
  | .ok w, .unregister prog vers => some (w.svcUnregister prog vers)
  | .ok w, .shutdown => some w.svcL1Cleanup

/-- Nothing is called after a cleanup that has freed `l1_vec`; there is room in it for a new callout; and
`svc_unregister` finds no callout to free. -/
def Admitted : Res (World H) → Event H → Prop
  | .error _, _ => True
  | .ok w, .register rq _ _ => w.l1.l1Vec ≠ .freed ∧
      ((w.tab.svcFind rq.prog rq.vers).toOption.bind Prod.snd = none → w.l1.l1Len < 102)
  | .ok w, .unregister prog vers => w.l1.l1Vec ≠ .freed ∧ (w.tab.svcFind prog vers).toOption.bind Prod.snd = none
  | .ok w, .shutdown => w.l1.l1Vec ≠ .freed

instance (s : Res (World H)) (e : Event H) : Decidable (Admitted s e) := by
  cases s with
  | error => exact inferInstanceAs (Decidable True)
  | ok w =>
      cases e with
      | register rq fresh granted => exact inferInstanceAs (Decidable (_ ∧ (_ → _)))
      | unregister prog vers => exact inferInstanceAs (Decidable (_ ∧ _))
      | shutdown => exact inferInstanceAs (Decidable (_ ≠ _))

/-- Every callout that was allocated has been freed, and nothing was freed twice or used after it was freed. -/
def Owned (s : Res (World H)) : Prop := ∃ w, s = .ok w ∧ ∀ p, w.tab.callouts p = none

/-! ### Freeing what is recorded -/

theorem freeEntries_ok {ps : List CalloutId} {tab : SvcTable H} (hnodup : ps.Nodup)
    (hlive : ∀ p ∈ ps, tab.callouts p ≠ none) :
    ∃ tab', freeEntries (ps.map some) tab = .ok tab' ∧ tab'.svcHead = tab.svcHead ∧
      ∀ p, tab'.callouts p ≠ none → tab.callouts p ≠ none ∧ p ∉ ps := by
  induction ps generalizing tab with
  | nil => exact ⟨tab, rfl, rfl, fun p hp => ⟨hp, List.not_mem_nil⟩⟩
  | cons q ps ih =>
      obtain ⟨hq, hps⟩ := List.nodup_cons.mp hnodup
      obtain ⟨hqlive, hpslive⟩ := List.forall_mem_cons.mp hlive
      have hother : ∀ p, p ≠ q → (tab.free q).callouts p = tab.callouts p :=
        fun p hp => Function.update_of_ne hp _ _
      have hlive' : ∀ p ∈ ps, (tab.free q).callouts p ≠ none := by
        intro p hp
        rw [hother p fun heq => hq (heq ▸ hp)]
        exact hpslive p hp
      obtain ⟨tab', hrun, hhead, hleft⟩ := ih hps hlive'
      refine ⟨tab', ?_, hhead, fun p hp => ?_⟩
      · rw [List.map_cons, freeEntries, if_pos (Option.isSome_iff_ne_none.mpr hqlive)]
        exact hrun
      · obtain ⟨hp', hnot⟩ := hleft p hp
        have hpq : p ≠ q := by
          rintro rfl
          exact hp' (Function.update_self ..)
        rw [hother p hpq] at hp'
        exact ⟨hp', List.not_mem_cons_of_ne_of_not_mem hpq hnot⟩

/-- The loop has no fault only if what is recorded is in use, and nothing is recorded twice. -/
theorem freeEntries_inv {ps : List CalloutId} {tab tab' : SvcTable H} (h : freeEntries (ps.map some) tab = .ok tab') :
    ps.Nodup ∧ ∀ p ∈ ps, tab.callouts p ≠ none := by
  induction ps generalizing tab with
  | nil => exact ⟨List.nodup_nil, nofun⟩
  | cons q ps ih =>
      rw [List.map_cons, freeEntries] at h
      split at h
      · rename_i hq
        obtain ⟨hnodup, hlive⟩ := ih h
        have hne : ∀ p ∈ ps, p ≠ q := by
          rintro p hp rfl
          exact hlive p hp (Function.update_self ..)
        refine ⟨List.nodup_cons.mpr ⟨fun hmem => hne q hmem rfl, hnodup⟩, ?_⟩
        refine List.forall_mem_cons.mpr ⟨Option.isSome_iff_ne_none.mp hq, fun p hp => ?_⟩
        have hother : (tab.free q).callouts p = tab.callouts p := Function.update_of_ne (hne p hp) _ _
        rw [← hother]
        exact hlive p hp
      · cases h

/-! ### What holds along a run -/

/-- The callouts in memory are those of the list, `recorded` is what `l1_vec` holds. -/
structure Holding (w : World H) (l : List (Listed H)) (recorded : List CalloutId) : Prop where
  owns : w.tab.Owns l
  records : TopLevel.Records recorded w.l1

/-- After a cleanup that has freed `l1_vec`: the head of the callout list is left as it was. -/
structure Done (w : World H) : Prop where
  freed : w.l1.l1Vec = .freed
  nothing : ∀ p, w.tab.callouts p = none
  dangling : ∃ p, w.tab.svcHead = some p

/-- What `l1_vec` holds are the callouts of the list, the newest last; or everything is freed. -/
def Clean : Res (World H) → Prop
  | .error _ => False
  | .ok w => (∃ l, Holding w l (l.map Prod.fst).reverse) ∨ Done w

/-- There has been a fault, or `l1_vec` holds more than there is on the list. -/
def Spoiled : Res (World H) → Prop
  | .error _ => True
  | .ok w => ∃ l recorded, Holding w l recorded ∧ l.length < recorded.length

section Steps

variable {w : World H} {l : List (Listed H)} {recorded : List CalloutId} {prog vers : RpcUlong}

theorem Holding.eq_nil (h : Holding w l recorded) (hnothing : ∀ p, w.tab.callouts p = none) : l = [] := by
  cases l with
  | nil => rfl
  | cons x l =>
      have hstored := h.owns.lists.segment.stored x List.mem_cons_self
      rw [SvcTable.entryAt, hnothing] at hstored
      cases hstored

/-- What `svc_find` finds on the list. -/
theorem svcFind_isNone (h : w.tab.Owns l) :
    (w.tab.svcFind prog vers).toOption.bind Prod.snd = none ↔ l.find? (hasKey prog vers) = none := by
  obtain hno | ⟨l₁, s, e, l₂, rfl, hno, hkey⟩ := SvcTable.key_cases l prog vers
  · obtain ⟨prev, hfind⟩ := SvcTable.svcFind_absent h.lists hno
    rw [hfind]
    exact iff_of_true rfl (SvcTable.find_none_of_absent hno)
  · rw [SvcTable.svcFind_present h.lists hno hkey, SvcTable.find_present hno hkey]
    exact iff_of_false nofun nofun

/-- A walk from a head that dangles. -/
theorem Done.svcFind (h : Done w) (prog vers : RpcUlong) : ∃ e, w.tab.svcFind prog vers = .error e := by
  obtain ⟨p, hp⟩ := h.dangling
  unfold SvcTable.svcFind
  rw [hp]
  cases w.tab.allocated with
  | zero => exact ⟨_, rfl⟩
  | succ fuel =>
      have hcallout : w.tab.callout p = .error .badPointer := by
        unfold SvcTable.callout
        rw [h.nothing p]
      refine ⟨.badPointer, ?_⟩
      rw [SvcTable.svcFindLoop, hcallout]
      rfl

theorem Holding.register_new [DecidableEq H] (h : Holding w l recorded) {rq : SvcTable.Request H} {fresh : CalloutId}
    (hfresh : w.tab.callouts fresh = none) (granted : Bool) (hnew : l.find? (hasKey rq.prog rq.vers) = none)
    (hroom : recorded.length < 102) :
    ∃ w', w.svcRegister rq fresh granted = .ok w' ∧
      (registerList l rq fresh granted).2.map Prod.fst = fresh :: l.map Prod.fst ∧
      Holding w' (registerList l rq fresh granted).2 (recorded ++ [fresh]) := by
  obtain ⟨tab', hrun, howns⟩ := h.owns.register w.binder rq hfresh granted
  obtain ⟨l1, halloc, hrecords⟩ := h.records.alloc fresh hroom
  have hids := SvcTable.ids_registerList l rq fresh granted
  rw [hnew] at hids
  obtain hno | ⟨_, _, _, _, rfl, hno, hkey⟩ := SvcTable.key_cases l rq.prog rq.vers
  · obtain ⟨prev, hfind⟩ := SvcTable.svcFind_absent h.owns.lists hno
    refine ⟨⟨tab', SvcTable.registerBinder w.binder l rq granted, l1⟩, ?_, hids, howns, hrecords⟩
    unfold World.svcRegister
    rw [hfind]
    show (w.l1.svcL1Alloc fresh >>= _) = _
    rw [halloc]
    show (w.tab.svcRegister w.binder rq fresh granted >>= _) = _
    rw [hrun]
    rfl
  · rw [SvcTable.find_present hno hkey] at hnew
    cases hnew

theorem Holding.register_full [DecidableEq H] (h : Holding w l recorded) {rq : SvcTable.Request H} (fresh : CalloutId)
    (granted : Bool) (hnew : l.find? (hasKey rq.prog rq.vers) = none) (hfull : ¬ recorded.length < 102) :
    ∃ e, w.svcRegister rq fresh granted = .error e := by
  have hlen : recorded.length = 102 := Nat.le_antisymm h.records.length_le (Nat.not_lt.mp hfull)
  obtain hno | ⟨_, _, _, _, rfl, hno, hkey⟩ := SvcTable.key_cases l rq.prog rq.vers
  · obtain ⟨prev, hfind⟩ := SvcTable.svcFind_absent h.owns.lists hno
    refine ⟨.slotOutOfBounds, ?_⟩
    unfold World.svcRegister
    rw [hfind]
    show (w.l1.svcL1Alloc fresh >>= _) = _
    rw [h.records.full fresh hlen]
    rfl
  · rw [SvcTable.find_present hno hkey] at hnew
    cases hnew

theorem Holding.register_again [DecidableEq H] (h : Holding w l recorded) {rq : SvcTable.Request H} {fresh : CalloutId}
    (hfresh : w.tab.callouts fresh = none) (granted : Bool) (hold : l.find? (hasKey rq.prog rq.vers) ≠ none) :
    ∃ w', w.svcRegister rq fresh granted = .ok w' ∧
      (registerList l rq fresh granted).2.map Prod.fst = l.map Prod.fst ∧
      Holding w' (registerList l rq fresh granted).2 recorded := by
  obtain ⟨tab', hrun, howns⟩ := h.owns.register w.binder rq hfresh granted
  have hids := SvcTable.ids_registerList l rq fresh granted
  rw [if_pos (Option.isSome_iff_ne_none.mpr hold)] at hids
  obtain hno | ⟨l₁, n, e, l₂, rfl, hno, hkey⟩ := SvcTable.key_cases l rq.prog rq.vers
  · exact absurd (SvcTable.find_none_of_absent hno) hold
  · have hfind := SvcTable.svcFind_present h.owns.lists hno hkey
    refine ⟨⟨tab', SvcTable.registerBinder w.binder (l₁ ++ (n, e) :: l₂) rq granted, w.l1⟩, ?_, hids, howns, h.records⟩
    unfold World.svcRegister
    rw [hfind]
    show (w.tab.svcRegister w.binder rq fresh granted >>= _) = _
    rw [hrun]
    rfl

theorem Holding.unregister (h : Holding w l recorded) (prog vers : RpcUlong) :
    ∃ w', w.svcUnregister prog vers = .ok w' ∧ Holding w' (unregisterList l prog vers) recorded := by
  obtain ⟨tab', hrun, howns⟩ := h.owns.unregister w.binder prog vers
  refine ⟨⟨tab', SvcTable.unregisterBinder w.binder l prog vers, w.l1⟩, ?_, howns, h.records⟩
  unfold World.svcUnregister
  rw [hrun]
  rfl

/-- The cleanup frees what is recorded. -/
theorem Holding.cleanup_cases (h : Holding w l recorded) :
    (recorded = [] ∧ w.svcL1Cleanup = .ok w) ∨
      (recorded ≠ [] ∧ w.svcL1Cleanup = do
        let tab ← freeEntries (recorded.map some) w.tab
        pure ⟨tab, w.binder, { w.l1 with l1Vec := .freed }⟩) := by
  obtain ⟨tab, binder, l1⟩ := w
  obtain ⟨_, hrecords⟩ := h
  dsimp only at hrecords
  cases hrecords with
  | null => exact Or.inl ⟨rfl, rfl⟩
  | live hne _ _ hps =>
      refine Or.inr ⟨hne, ?_⟩
      rw [← hps]
      rfl

theorem Holding.cleanup (h : Holding w l (l.map Prod.fst).reverse) :
    ∃ w', w.svcL1Cleanup = .ok w' ∧ Clean (.ok w') ∧ ∀ p, w'.tab.callouts p = none := by
  have hnodup : (l.map Prod.fst).reverse.Nodup := List.nodup_reverse.mpr h.owns.lists.nodup
  have hlive : ∀ p ∈ (l.map Prod.fst).reverse, w.tab.callouts p ≠ none := by
    intro p hp hnone
    obtain ⟨x, hx, rfl⟩ := List.mem_map.mp (List.mem_reverse.mp hp)
    have hstored := h.owns.lists.segment.stored x hx
    rw [SvcTable.entryAt, hnone] at hstored
    cases hstored
  obtain ⟨hnil, hrun⟩ | ⟨hne, hrun⟩ := h.cleanup_cases
  · refine ⟨w, hrun, Or.inl ⟨l, h⟩, fun p => ?_⟩
    by_contra hp
    have hmem := List.mem_reverse.mpr (h.owns.only p hp)
    rw [hnil] at hmem
    cases hmem
  · obtain ⟨tab', hfree, hhead, hleft⟩ := freeEntries_ok hnodup hlive
    have hnothing : ∀ p, tab'.callouts p = none := by
      intro p
      by_contra hp
      obtain ⟨hp', hnot⟩ := hleft p hp
      exact hnot (List.mem_reverse.mpr (h.owns.only p hp'))
    have hdangling : ∃ p, tab'.svcHead = some p := by
      rw [hhead]
      have hpath := h.owns.lists.segment.path
      cases l with
      | nil => exact absurd rfl hne
      | cons x l => exact ⟨x.1, hpath.1⟩
    refine ⟨⟨tab', w.binder, { w.l1 with l1Vec := .freed }⟩, ?_, Or.inr ⟨rfl, hnothing, hdangling⟩, hnothing⟩
    rw [hrun, hfree]
    rfl

/-- What was freed by `svc_unregister` would be freed once more. -/
theorem Holding.cleanup_fault (h : Holding w l recorded) (hlt : l.length < recorded.length) :
    ∃ e, w.svcL1Cleanup = .error e := by
  obtain ⟨rfl, _⟩ | ⟨_, hrun⟩ := h.cleanup_cases
  · cases hlt
  · cases hfree : freeEntries (recorded.map some) w.tab with
    | error e =>
        refine ⟨e, ?_⟩
        rw [hrun, hfree]
        rfl
    | ok tab' =>
        exfalso
        obtain ⟨hnodup, hlive⟩ := freeEntries_inv hfree
        have hsub : recorded ⊆ l.map Prod.fst := fun p hp => h.owns.only p (hlive p hp)
        have hle := (hnodup.subperm hsub).length_le
        rw [List.length_map] at hle
        exact absurd hlt (Nat.not_lt.mpr hle)

/-! ### Steps -/

variable [DecidableEq H] {s t : Res (World H)} {e : Event H}

/-- A service is registered with a callout that was not allocated. -/
theorem step_register {rq : SvcTable.Request H} {fresh : CalloutId} {granted : Bool}
    (hst : step (.ok w) (.register rq fresh granted) = some t) :
    w.tab.callouts fresh = none ∧ w.svcRegister rq fresh granted = t := by
  rw [step] at hst
  split at hst
  · cases hst
  · rename_i hfresh
    rw [Bool.not_eq_true, Option.isSome_eq_false_iff, Option.isNone_iff_eq_none] at hfresh
    exact ⟨hfresh, Option.some.inj hst⟩

theorem Clean.admitted (hs : Clean s) (hadmitted : Admitted s e) (hst : step s e = some t) : Clean t := by
  cases s with
  | error f => cases hs
  | ok w =>
      obtain ⟨l, h⟩ | hdone := hs
      · cases e with
        | register rq fresh granted =>
            obtain ⟨hfresh, rfl⟩ := step_register hst
            cases hnew : l.find? (hasKey rq.prog rq.vers) with
            | none =>
                have hroom := hadmitted.2 ((svcFind_isNone h.owns).mpr hnew)
                rw [h.records.l1Len] at hroom
                obtain ⟨w', hrun, hids, h'⟩ := h.register_new hfresh granted hnew hroom
                rw [hrun]
                refine Or.inl ⟨(registerList l rq fresh granted).2, ?_⟩
                rw [hids, List.reverse_cons]
                exact h'
            | some x =>
                have hlisted : l.find? (hasKey rq.prog rq.vers) ≠ none := by
                  rw [hnew]
                  exact Option.some_ne_none x
                obtain ⟨w', hrun, hids, h'⟩ := h.register_again hfresh granted hlisted
                rw [hrun]
                refine Or.inl ⟨(registerList l rq fresh granted).2, ?_⟩
                rw [hids]
                exact h'
        | unregister prog vers =>
            cases hst
            obtain ⟨w', hrun, h'⟩ := h.unregister prog vers
            have hnone := (svcFind_isNone h.owns).mp hadmitted.2
            have hsame : unregisterList l prog vers = l :=
              List.eraseP_of_forall_not fun x hx => by simpa using List.find?_eq_none.mp hnone x hx
            rw [hsame] at h'
            rw [hrun]
            exact Or.inl ⟨l, h'⟩
        | shutdown =>
            cases hst
            obtain ⟨w', hrun, hclean, _⟩ := h.cleanup
            rw [hrun]
            exact hclean
      · exfalso
        cases e with
        | register rq fresh granted => exact hadmitted.1 hdone.freed
        | unregister prog vers => exact hadmitted.1 hdone.freed
        | shutdown => exact hadmitted hdone.freed

/-- After a cleanup that has freed `l1_vec`, every call is a fault. -/
theorem Done.step (h : Done w) (hst : step (.ok w) e = some t) : ∃ f, t = .error f := by
  cases e with
  | register rq fresh granted =>
      obtain ⟨_, rfl⟩ := step_register hst
      obtain ⟨f, hf⟩ := h.svcFind rq.prog rq.vers
      refine ⟨f, ?_⟩
      unfold World.svcRegister
      rw [hf]
      rfl
  | unregister prog vers =>
      cases hst
      obtain ⟨f, hf⟩ := h.svcFind prog vers
      refine ⟨f, ?_⟩
      unfold World.svcUnregister SvcTable.svcUnregister
      rw [hf]
      rfl
  | shutdown =>
      cases hst
      refine ⟨.badPointer, ?_⟩
      unfold World.svcL1Cleanup
      rw [h.freed]

omit [DecidableEq H] in
theorem length_unregisterList (l : List (Listed H)) (prog vers : RpcUlong) :
    (unregisterList l prog vers).length ≤ l.length := List.length_eraseP_le

theorem Clean.refused (hs : Clean s) (hadmitted : ¬ Admitted s e) (hst : CalloutOwnership.step s e = some t) :
    Spoiled t := by
  cases s with
  | error f => cases hs
  | ok w =>
      obtain ⟨l, h⟩ | hdone := hs
      · have hlive := h.records.not_freed
        cases e with
        | register rq fresh granted =>
            obtain ⟨_, rfl⟩ := step_register hst
            have hboth : l.find? (hasKey rq.prog rq.vers) = none ∧
                ¬ (l.map Prod.fst).reverse.length < 102 := by
              by_contra hno
              refine hadmitted ⟨hlive, fun hnone => ?_⟩
              rw [h.records.l1Len]
              by_contra hfull
              exact hno ⟨(svcFind_isNone h.owns).mp hnone, hfull⟩
            obtain ⟨f, hf⟩ := h.register_full fresh granted hboth.1 hboth.2
            rw [hf]
            trivial
        | unregister prog vers =>
            cases hst
            obtain ⟨w', hrun, h'⟩ := h.unregister prog vers
            rw [hrun]
            refine ⟨_, _, h', ?_⟩
            obtain hno | ⟨l₁, n, e, l₂, rfl, hno, hkey⟩ := SvcTable.key_cases l prog vers
            · refine absurd ⟨hlive, ?_⟩ hadmitted
              exact (svcFind_isNone h.owns).mpr (SvcTable.find_none_of_absent hno)
            · rw [unregisterList, SvcTable.eraseP_present hno hkey]
              simp only [List.length_append, List.length_reverse, List.length_map, List.length_cons]
              omega
        | shutdown => exact absurd hlive hadmitted
      · obtain ⟨f, rfl⟩ := hdone.step hst
        trivial

theorem Spoiled.step (hs : Spoiled s) (hst : CalloutOwnership.step s e = some t) : Spoiled t := by
  cases s with
  | error f =>
      cases hst
      trivial
  | ok w =>
      obtain ⟨l, recorded, h, hlt⟩ := hs
      cases e with
      | register rq fresh granted =>
          obtain ⟨hfresh, rfl⟩ := step_register hst
          by_cases hnew : l.find? (hasKey rq.prog rq.vers) = none
          · by_cases hroom : recorded.length < 102
            · obtain ⟨w', hrun, hids, h'⟩ := h.register_new hfresh granted hnew hroom
              have hlen := congrArg List.length hids
              rw [List.length_map, List.length_cons, List.length_map] at hlen
              rw [hrun]
              refine ⟨_, _, h', ?_⟩
              rw [hlen, List.length_append, List.length_singleton]
              exact Nat.succ_lt_succ hlt
            · obtain ⟨f, hf⟩ := h.register_full fresh granted hnew hroom
              rw [hf]
              trivial
          · obtain ⟨w', hrun, hids, h'⟩ := h.register_again hfresh granted hnew
            have hlen := congrArg List.length hids
            rw [List.length_map, List.length_map] at hlen
            rw [hrun]
            exact ⟨_, _, h', hlen ▸ hlt⟩
      | unregister prog vers =>
          cases hst
          obtain ⟨w', hrun, h'⟩ := h.unregister prog vers
          rw [hrun]
          exact ⟨_, _, h', Nat.lt_of_le_of_lt (length_unregisterList l prog vers) hlt⟩
      | shutdown =>
          cases hst
          obtain ⟨f, hf⟩ := h.cleanup_fault hlt
          rw [hf]
          trivial

/-- A shutdown leaves nothing, or has a fault. -/
theorem shutdown_cases (hs : Clean s ∨ Spoiled s) (hst : CalloutOwnership.step s .shutdown = some t) :
    Clean t ∧ Owned t ∨ ∃ f, t = .error f := by
  cases s with
  | error f =>
      cases hst
      exact Or.inr ⟨f, rfl⟩
  | ok w =>
      obtain (⟨l, h⟩ | hdone) | ⟨l, recorded, h, hlt⟩ := hs
      · cases hst
        obtain ⟨w', hrun, hclean, hnothing⟩ := h.cleanup
        rw [hrun]
        exact Or.inl ⟨hclean, w', rfl, hnothing⟩
      · exact Or.inr (hdone.step hst)
      · cases hst
        exact Or.inr (h.cleanup_fault hlt)

end Steps

/-! ### Histories -/

section Histories

variable [DecidableEq H] {binder : Binder} {es : List (Event H)} {s : Res (World H)}

theorem clean_or_spoiled (h : exec CalloutOwnership.step anyStep (.ok (.start binder)) es = some s) :
    (Clean s ∧ exec step (fun s e => anyStep s e ∧ Admitted s e) (.ok (.start binder)) es = some s) ∨
      (Spoiled s ∧ exec step (fun s e => anyStep s e ∧ Admitted s e) (.ok (.start binder)) es = none) := by
  have hstart : Clean (.ok (World.start binder) : Res (World H)) :=
    Or.inl ⟨[], SvcTable.owns_empty, .null⟩
  refine exec_clean_or_spoiled step anyStep Admitted ?_ ?_ ?_ hstart es h
  · exact fun s e t hs _ hadmitted hst => hs.admitted hadmitted hst
  · exact fun s e t hs _ hadmitted hst => hs.refused hadmitted hst
  · exact fun s e t hs _ hst => hs.step hst

/-- A history that ends with a shutdown frees each callout once exactly if each of its calls is admitted. After
it a call of `svc_register` goes well exactly if no callout was ever allocated. -/
theorem shutdown_owned_iff (h : exec step anyStep (.ok (.start binder)) (es ++ [.shutdown]) = some s) :
    (Owned s ↔ exec step (fun s e => anyStep s e ∧ Admitted s e) (.ok (.start binder)) (es ++ [.shutdown]) = some s) ∧
      ∀ w, s = .ok w → ∀ rq fresh granted t, step s (.register rq fresh granted) = some t →
        ((∃ w', t = .ok w') ↔ w.l1.l1Vec = .null) := by
  obtain ⟨u, hu, _, hlast⟩ := exec_snoc step anyStep h
  have hcases := shutdown_cases ((clean_or_spoiled hu).imp And.left And.left) hlast
  constructor
  · obtain ⟨hclean, hexec⟩ | ⟨hspoiled, hexec⟩ := clean_or_spoiled h
    · obtain ⟨_, howned⟩ | ⟨f, rfl⟩ := hcases
      · exact iff_of_true howned hexec
      · cases hclean
    · rw [hexec]
      refine iff_of_false ?_ nofun
      rintro ⟨w, rfl, hnothing⟩
      obtain ⟨l, recorded, hl, hlt⟩ := hspoiled
      obtain ⟨(⟨l', hl'⟩ | hdone), _⟩ | ⟨f, hf⟩ := hcases
      · have hlen := hl.records.l1Len.symm.trans hl'.records.l1Len
        rw [hl'.eq_nil hnothing] at hlen
        rw [hlen] at hlt
        exact absurd hlt (Nat.not_lt_zero _)
      · exact hl.records.not_freed hdone.freed
      · cases hf
  · rintro w rfl rq fresh granted t hst
    obtain ⟨hclean, w', hw', hnothing⟩ | ⟨f, hf⟩ := hcases
    · cases hw'
      obtain ⟨l, hl⟩ | hdone := hclean
      · obtain rfl := hl.eq_nil hnothing
        have hnull : w.l1.l1Vec = .null := congrArg TopLevel.l1Vec hl.records.eq_start
        obtain ⟨w', hrun, _⟩ := hl.register_new (hnothing fresh) granted rfl (by decide : 0 < 102)
        rw [step, hnothing fresh] at hst
        obtain rfl := Option.some.inj hst
        exact iff_of_true ⟨w', hrun⟩ hnull
      · obtain ⟨f, rfl⟩ := hdone.step hst
        refine iff_of_false ?_ ?_
        · rintro ⟨w', hw'⟩
          cases hw'
        · rw [hdone.freed]
          exact nofun
    · cases hf

end Histories

/-- A service without a mapping in the local binder. -/
def service : SvcTable.Request Nat := ⟨100, 1, 7, 0, 0⟩

theorem shutdown_owned_iff_service :
    ∃ s, exec step anyStep (.ok (.start [])) [.register service 1 true, .shutdown] = some s ∧ Owned s := by
  have hrun : exec step anyStep (.ok (.start [])) ([.register service 1 true] ++ [.shutdown]) = some _ := rfl
  exact ⟨_, hrun, (shutdown_owned_iff hrun).1.mpr rfl⟩

/-- A service that is unregistered before the shutdown. -/
theorem shutdown_owned_counterexample :
    ¬ ∀ (binder : Binder) (es : List (Event Nat)) (s : Res (World Nat)),
      exec step anyStep (.ok (.start binder)) (es ++ [.shutdown]) = some s → Owned s := by
  intro hall
  obtain ⟨w, hw, _⟩ := hall [] [.register service 1 true, .unregister 100 1] (.error .badPointer) rfl
  cases hw

end CalloutOwnership

end RpcMt
