import RpcMt.CalloutSpecs
import RpcMt.Runs
import Mathlib.Order.Bounds.Basic

/-! Histories of `svc_register` and `svc_unregister` calls, with the local binder beside the callout
list. The list implements a map from programs and versions to handlers, and a request is answered from
that map. The entries of `l1_vec` are left out, as if there were room for every callout: a history in
which there is (`Matching.registrations_agree`) does the same with them. -/

namespace RpcMt

open Runs

variable {H : Type}

/-! ### The list as a map -/

abbrev Services (H : Type) := RpcUlong × RpcUlong → Option H

def keys (l : List (Listed H)) : List (RpcUlong × RpcUlong) := l.map fun x => x.2.key

def serviceOf (l : List (Listed H)) : Services H :=
  fun k => (l.find? (hasKey k.1 k.2)).map fun x => x.2.scDispatch

/-- The versions of a program that have a handler. -/
def versionsOf (m : Services H) (prog : RpcUlong) : Set Nat :=
  {v | ∃ vers : RpcUlong, (m (prog, vers)).isSome = true ∧ vers.val = v}

/-- What a request for `prog` and `vers` is answered when the handlers are those of `m`. -/
def IsAnswer (m : Services H) (prog vers : RpcUlong) : Lookup H → Prop
  | .dispatch h => m (prog, vers) = some h
  | .progVers lowVers highVers => m (prog, vers) = none ∧ IsLeast (versionsOf m prog) lowVers ∧
      IsGreatest (versionsOf m prog) highVers
  | .noProg => ∀ v, m (prog, v) = none
  | .authError => False

section Answers

variable {l : List (Listed H)} {prog vers : RpcUlong} {s : CalloutId} {rq : SvcTable.Request H}

theorem hasKey_markMapped (s : CalloutId) : hasKey prog vers ∘ markMapped (H := H) s = hasKey prog vers := by
  funext x
  unfold Function.comp hasKey markMapped SvcEntry.key
  split <;> rfl

theorem scDispatch_markMapped (s : CalloutId) (x : Listed H) :
    (markMapped s x).2.scDispatch = x.2.scDispatch := by
  unfold markMapped
  split <;> rfl

theorem serviceOf_mark (s : CalloutId) (l : List (Listed H)) : serviceOf (l.map (markMapped s)) = serviceOf l := by
  funext k
  unfold serviceOf
  rw [List.find?_map, hasKey_markMapped, Option.map_map]
  congr 1
  funext x
  exact scDispatch_markMapped s x

theorem serviceOf_cons (x : Listed H) (l : List (Listed H)) :
    serviceOf (x :: l) = Function.update (serviceOf l) x.2.key (some x.2.scDispatch) := by
  funext k
  by_cases hk : k = x.2.key
  · subst hk
    simp [serviceOf, hasKey]
  · rw [Function.update_of_ne hk]
    simp [serviceOf, hasKey, Ne.symm hk]

theorem keys_mark (s : CalloutId) (l : List (Listed H)) : keys (l.map (markMapped s)) = keys l := by
  unfold keys
  rw [List.map_map]
  apply List.map_congr_left
  intro x _
  unfold Function.comp markMapped
  split <;> rfl

theorem serviceOf_eq_none : serviceOf l (prog, vers) = none ↔ (prog, vers) ∉ keys l := by
  unfold serviceOf keys
  rw [Option.map_eq_none_iff, List.find?_eq_none]
  simp [hasKey]

theorem serviceOf_unregister (hkeys : (keys l).Nodup) (prog vers : RpcUlong) :
    serviceOf (unregisterList l prog vers) = Function.update (serviceOf l) (prog, vers) none := by
  induction l with
  | nil =>
      funext k
      by_cases hk : k = (prog, vers) <;> simp [hk, serviceOf, unregisterList]
  | cons x l ih =>
      obtain ⟨hx, hl⟩ := List.nodup_cons.mp hkeys
      by_cases hkey : x.2.key = (prog, vers)
      · have hnone : serviceOf l (prog, vers) = none := serviceOf_eq_none.mpr (hkey ▸ hx)
        rw [serviceOf_cons, hkey, Function.update_idem, ← hnone, Function.update_eq_self]
        simp [unregisterList, hasKey, hkey]
      · have herase : unregisterList (x :: l) prog vers = x :: unregisterList l prog vers := by
          simp [unregisterList, hasKey, hkey]
        rw [herase, serviceOf_cons, serviceOf_cons, ih hl, Function.update_comm hkey]

/-- The versions listed for a program, in the order of the list. -/
def versions (prog : Nat) (svcs : List (Callout H)) : List Nat :=
  (svcs.filter fun s => s.scProg = prog).map fun s => s.scVers

/-- Without a callout for the request, the walk takes the extremes of the versions it passes. -/
theorem matchProgVersion_absent {prog vers : Nat} {svcs : List (Callout H)}
    (hno : ∀ s ∈ svcs, ¬(s.scProg = prog ∧ s.scVers = vers)) (lowVers highVers : Nat) (progFound : Bool) :
    matchProgVersion prog vers svcs lowVers highVers progFound =
      if progFound = true ∨ versions prog svcs ≠ [] then
        .progVers ((versions prog svcs).foldl min lowVers) ((versions prog svcs).foldl max highVers)
      else .noProg := by
  induction svcs generalizing lowVers highVers progFound with
  | nil => cases progFound <;> rfl
  | cons s svcs ih =>
      obtain ⟨hs, hsvcs⟩ := List.forall_mem_cons.mp hno
      rw [matchProgVersion]
      by_cases hprog : s.scProg = prog
      · have hvers : s.scVers ≠ vers := fun heq => hs ⟨hprog, heq⟩
        have hcons : versions prog (s :: svcs) = s.scVers :: versions prog svcs := by simp [versions, hprog]
        have hlow : (if s.scVers < lowVers then s.scVers else lowVers) = min lowVers s.scVers := by
          split <;> omega
        have hhigh : (if highVers < s.scVers then s.scVers else highVers) = max highVers s.scVers := by
          split <;> omega
        rw [if_pos hprog, if_neg hvers, ih hsvcs, hcons, hlow, hhigh]
        simp
      · have hcons : versions prog (s :: svcs) = versions prog svcs := by simp [versions, hprog]
        rw [if_neg hprog, ih hsvcs, hcons]

theorem matchProgVersion_present {prog vers : Nat} {svcs : List (Callout H)} {c : Callout H}
    (hfind : svcs.find? (fun s => s.scProg = prog ∧ s.scVers = vers) = some c)
    (lowVers highVers : Nat) (progFound : Bool) :
    matchProgVersion prog vers svcs lowVers highVers progFound = .dispatch c.scDispatch := by
  induction svcs generalizing lowVers highVers progFound with
  | nil => cases hfind
  | cons s svcs ih =>
      rw [matchProgVersion]
      by_cases hprog : s.scProg = prog
      · by_cases hvers : s.scVers = vers
        · rw [if_pos hprog, if_pos hvers]
          simp only [List.find?_cons, hprog, hvers, and_self, decide_true, Option.some.injEq] at hfind
          rw [hfind]
        · rw [if_pos hprog, if_neg hvers]
          simp only [List.find?_cons, hvers, and_false, decide_false] at hfind
          exact ih hfind _ _ _
      · rw [if_neg hprog]
        simp only [List.find?_cons, hprog, false_and, decide_false] at hfind
        exact ih hfind _ _ _

theorem isLeast_foldl_min (vs : List Nat) (low : Nat) : IsLeast {v | v = low ∨ v ∈ vs} (vs.foldl min low) := by
  induction vs generalizing low with
  | nil => simp [IsLeast, lowerBounds]
  | cons v vs ih =>
      obtain ⟨hmem, hle⟩ := ih (min low v)
      refine ⟨?_, ?_⟩
      · rcases hmem with heq | hmem
        · rcases Nat.le_total low v |>.imp Nat.min_eq_left Nat.min_eq_right with hmin | hmin
          · exact Or.inl (heq.trans hmin)
          · exact Or.inr (List.mem_cons.mpr (Or.inl (heq.trans hmin)))
        · exact Or.inr (List.mem_cons_of_mem _ hmem)
      · rintro w (rfl | hw)
        · exact (hle (Or.inl rfl)).trans (min_le_left _ _)
        · rcases List.mem_cons.mp hw with rfl | hw
          · exact (hle (Or.inl rfl)).trans (min_le_right _ _)
          · exact hle (Or.inr hw)

theorem isGreatest_foldl_max (vs : List Nat) (high : Nat) :
    IsGreatest {v | v = high ∨ v ∈ vs} (vs.foldl max high) := by
  induction vs generalizing high with
  | nil => simp [IsGreatest, upperBounds]
  | cons v vs ih =>
      obtain ⟨hmem, hle⟩ := ih (max high v)
      refine ⟨?_, ?_⟩
      · rcases hmem with heq | hmem
        · rcases Nat.le_total v high |>.imp Nat.max_eq_left Nat.max_eq_right with hmax | hmax
          · exact Or.inl (heq.trans hmax)
          · exact Or.inr (List.mem_cons.mpr (Or.inl (heq.trans hmax)))
        · exact Or.inr (List.mem_cons_of_mem _ hmem)
      · rintro w (rfl | hw)
        · exact (le_max_left _ _).trans (hle (Or.inl rfl))
        · rcases List.mem_cons.mp hw with rfl | hw
          · exact (le_max_right _ _).trans (hle (Or.inl rfl))
          · exact hle (Or.inr hw)

theorem mem_versions (v : Nat) :
    v ∈ versions prog.val (l.map fun x => x.2.toCallout) ↔ v ∈ versionsOf (serviceOf l) prog := by
  have hsome (u : RpcUlong) : (serviceOf l (prog, u)).isSome = true ↔ ∃ x ∈ l, x.2.key = (prog, u) := by
    rw [← not_iff_not, Bool.not_eq_true, Option.isSome_eq_false_iff, Option.isNone_iff_eq_none,
      serviceOf_eq_none, keys, List.mem_map]
  unfold versions versionsOf
  simp only [List.mem_map, List.mem_filter, decide_eq_true_eq, Set.mem_ofPred_eq, hsome]
  constructor
  · rintro ⟨c, ⟨⟨x, hx, rfl⟩, hprog⟩, hv⟩
    exact ⟨x.2.scVers, ⟨x, hx, x.2.key_eq.mpr ⟨Fin.ext hprog, rfl⟩⟩, hv⟩
  · rintro ⟨u, ⟨x, hx, hkey⟩, hv⟩
    obtain ⟨hprog, hvers⟩ := x.2.key_eq.mp hkey
    exact ⟨x.2.toCallout, ⟨⟨x, hx, rfl⟩, congrArg Fin.val hprog⟩, (congrArg Fin.val hvers).trans hv⟩

theorem versionsOf_le {m : Services H} {v : Nat} (hv : v ∈ versionsOf m prog) : v ≤ sizeMax := by
  obtain ⟨u, _, rfl⟩ := hv
  exact Nat.le_sub_one_of_lt u.isLt

/-- The walk answers a request from the handlers of the list. -/
theorem isAnswer_matchProgVersion (l : List (Listed H)) (prog vers : RpcUlong) :
    IsAnswer (serviceOf l) prog vers
      (matchProgVersion prog.val vers.val (l.map fun x => x.2.toCallout) sizeMax 0 false) := by
  have hkey (x : Listed H) : (x.2.toCallout.scProg = prog.val ∧ x.2.toCallout.scVers = vers.val) ↔
      x.2.key = (prog, vers) := by
    rw [SvcEntry.key_eq, ← Fin.val_inj, ← Fin.val_inj]
    rfl
  rcases hfind : l.find? (hasKey prog vers) with _ | x
  · have hnone : serviceOf l (prog, vers) = none := by simp [serviceOf, hfind]
    have hno : ∀ c ∈ l.map fun x => x.2.toCallout, ¬(c.scProg = prog.val ∧ c.scVers = vers.val) := by
      intro c hc
      obtain ⟨x, hx, rfl⟩ := List.mem_map.mp hc
      rw [hkey]
      simpa [hasKey] using List.find?_eq_none.mp hfind x hx
    rw [matchProgVersion_absent hno]
    set vs := versions prog.val (l.map fun x => x.2.toCallout) with hvs
    have hmem (v : Nat) : v ∈ vs ↔ v ∈ versionsOf (serviceOf l) prog := by
      rw [hvs]
      exact mem_versions v
    by_cases hne : vs = []
    · rw [if_neg (by simp [hne])]
      intro u
      by_contra hu
      have hin : u.val ∈ vs := (hmem _).mpr ⟨u, Option.isSome_iff_ne_none.mpr hu, rfl⟩
      rw [hne] at hin
      cases hin
    · rw [if_pos (Or.inr hne)]
      obtain ⟨v, hv⟩ := List.exists_mem_of_ne_nil _ hne
      obtain ⟨hlow, hlowest⟩ := isLeast_foldl_min vs sizeMax
      obtain ⟨hhigh, hhighest⟩ := isGreatest_foldl_max vs 0
      -- the starting values are never below, or above, a version that is listed
      have hlow' : vs.foldl min sizeMax ∈ vs := by
        rcases hlow with heq | hmem'
        · have hle := hlowest (Or.inr hv)
          rw [heq] at hle ⊢
          rwa [← Nat.le_antisymm (versionsOf_le ((hmem v).mp hv)) hle]
        · exact hmem'
      have hhigh' : vs.foldl max 0 ∈ vs := by
        rcases hhigh with heq | hmem'
        · have hle := hhighest (Or.inr hv)
          rw [heq] at hle ⊢
          rwa [← Nat.eq_zero_of_le_zero hle]
        · exact hmem'
      exact ⟨hnone, ⟨(hmem _).mp hlow', fun w hw => hlowest (Or.inr ((hmem w).mpr hw))⟩,
        ⟨(hmem _).mp hhigh', fun w hw => hhighest (Or.inr ((hmem w).mpr hw))⟩⟩
  · have hpres : (l.map fun x => x.2.toCallout).find?
        (fun c => c.scProg = prog.val ∧ c.scVers = vers.val) = some x.2.toCallout := by
      have hcomp : ((fun c : Callout H => decide (c.scProg = prog.val ∧ c.scVers = vers.val)) ∘
          fun x : Listed H => x.2.toCallout) = hasKey prog vers := by
        funext y
        exact decide_eq_decide.mpr (hkey y)
      rw [List.find?_map, hcomp, hfind]
      rfl
    rw [matchProgVersion_present hpres]
    show serviceOf l (prog, vers) = some x.2.scDispatch
    simp [serviceOf, hfind]

end Answers

/-! ### Histories -/

/-- The binder maps a program and version no longer. -/
def Binder.lost (before after : Binder) (prog vers : RpcUlong) : Bool :=
  decide (before.Maps prog vers) && !decide (after.Maps prog vers)

/-- A call by the application, with what `svc_l1_alloc` and `pmap_set` answer if they are called. -/
inductive RegCall (H : Type) where
  | register (rq : SvcTable.Request H) (fresh : CalloutId) (granted : Bool)
  | unregister (prog vers : RpcUlong)

/-- What a call did. For `svc_unregister` it says whether the callout it removed was marked as mapped,
and whether the binder lost its mapping. -/
inductive Report (H : Type) where
  | registered (rq : SvcTable.Request H) (ok : Bool)
  | unregistered (prog vers : RpcUlong) (scMapped touched : Bool)
  deriving DecidableEq

/-- The callout list, the binder, and the calls made so far, newest first. -/
structure Registrations (H : Type) where
  tab : SvcTable H
  binder : Binder
  reports : List (Report H)

namespace Registrations

variable [DecidableEq H]

/-- No service is registered. The binder holds what other processes have left in it. -/
def start (binder : Binder) : Registrations H := ⟨.empty, binder, []⟩

def step (s : Registrations H) : RegCall H → Option (Registrations H)
  | .register rq fresh granted =>
      if (s.tab.callouts fresh).isSome then none
      else match s.tab.svcRegister s.binder rq fresh granted with
        | .error _ => none
        | .ok (ok, tab, binder) => some ⟨tab, binder, .registered rq ok :: s.reports⟩
  | .unregister prog vers =>
      match s.tab.svcIsMapped prog vers, s.tab.svcUnregister s.binder prog vers with
      | .ok scMapped, .ok (tab, binder) =>
          some ⟨tab, binder,
            .unregistered prog vers scMapped (s.binder.lost binder prog vers) :: s.reports⟩
      | _, _ => none

/-- The memory that a call is given is not in use. -/
def Fits (s : Registrations H) : RegCall H → Prop
  | .register _ fresh _ => s.tab.callouts fresh = none
  | .unregister _ _ => True

variable {s t : Registrations H} {l : List (Listed H)}

theorem step_register (h : s.tab.Lists l) (rq : SvcTable.Request H) {fresh : CalloutId}
    (hfresh : s.tab.callouts fresh = none) (granted : Bool) :
    ∃ t, step s (.register rq fresh granted) = some t ∧ t.tab.Lists (registerList l rq fresh granted).2 ∧
      t.binder = SvcTable.registerBinder s.binder l rq granted ∧
      t.reports = .registered rq (registerList l rq fresh granted).1 :: s.reports := by
  obtain ⟨tab', hrun, hlists⟩ := SvcTable.svcRegister_spec h s.binder rq hfresh granted
  refine ⟨⟨tab', SvcTable.registerBinder s.binder l rq granted, _⟩, ?_, hlists, rfl, rfl⟩
  simp [step, hfresh, hrun]

theorem step_unregister (h : s.tab.Lists l) (prog vers : RpcUlong) :
    ∃ t, step s (.unregister prog vers) = some t ∧ t.tab.Lists (unregisterList l prog vers) ∧
      t.binder = SvcTable.unregisterBinder s.binder l prog vers ∧
      t.reports = .unregistered prog vers (isMapped l prog vers) (s.binder.lost t.binder prog vers) ::
        s.reports := by
  obtain ⟨tab', hrun, hlists⟩ := SvcTable.svcUnregister_spec h s.binder prog vers
  have hstep : step s (.unregister prog vers) =
      some ⟨tab', SvcTable.unregisterBinder s.binder l prog vers,
        .unregistered prog vers (isMapped l prog vers)
          (s.binder.lost (SvcTable.unregisterBinder s.binder l prog vers) prog vers) :: s.reports⟩ := by
    simp [step, hrun, SvcTable.svcIsMapped_spec h]
  exact ⟨_, hstep, hlists, rfl, rfl⟩

theorem fits_of_step {rq : SvcTable.Request H} {fresh : CalloutId} {granted : Bool}
    (hst : step s (.register rq fresh granted) = some t) : s.tab.callouts fresh = none := by
  by_contra hused
  simp [step, Option.isSome_iff_ne_none.mpr hused] at hst

end Registrations

end RpcMt
