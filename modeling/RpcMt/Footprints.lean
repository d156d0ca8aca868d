import Mathlib.Logic.Function.Basic

/-! Memory that is split among owners. Each live cell is one owner's. An owner that works in its own cells, takes
cells that were free and gives back cells of its own leaves the others' cells as they are, and memory split. -/

namespace RpcMt.Footprints

variable {ι A B : Type} {mem mem₁ mem₂ : A → Option B} {old mid new : A → Prop}

structure Split (mem : A → Option B) (own : ι → A → Prop) : Prop where
  live : ∀ a, mem a ≠ none ↔ ∃ i, own i a
  apart : ∀ i j a, own i a → own j a → i = j

/-- Work of an owner whose cells were `old` and then are `new`. -/
structure Work (mem mem' : A → Option B) (old new : A → Prop) : Prop where
  outside : ∀ a, ¬old a → ¬new a → mem' a = mem a
  gone : ∀ a, old a → ¬new a → mem' a = none
  there : ∀ a, new a → mem' a ≠ none
  fresh : ∀ a, new a → old a ∨ mem a = none

theorem Work.refl (h : ∀ a, old a → mem a ≠ none) : Work mem mem old old :=
  ⟨fun _ _ _ => rfl, fun _ ha hna => absurd ha hna, h, fun _ ha => Or.inl ha⟩

theorem Work.trans (h₁ : Work mem mem₁ old mid) (h₂ : Work mem₁ mem₂ mid new) : Work mem mem₂ old new where
  outside a ha hna := by
    by_cases hm : mid a
    · have hfree := (h₁.fresh a hm).resolve_left ha
      rw [hfree, h₂.gone a hm hna]
    · rw [h₂.outside a hm hna, h₁.outside a ha hm]
  gone a ha hna := by
    by_cases hm : mid a
    · exact h₂.gone a hm hna
    · rw [h₂.outside a hm hna, h₁.gone a ha hm]
  there := h₂.there
  fresh a ha := by
    rcases h₂.fresh a ha with hm | hfree
    · exact h₁.fresh a hm
    · by_cases ho : old a
      · exact Or.inl ho
      · by_cases hm : mid a
        · exact absurd hfree (h₁.there a hm)
        · right
          rw [← h₁.outside a ho hm]
          exact hfree

theorem Work.congr {old' new' : A → Prop} (h : Work mem mem₁ old new) (hold : ∀ a, old a ↔ old' a)
    (hnew : ∀ a, new a ↔ new' a) : Work mem mem₁ old' new' := by
  obtain rfl : old = old' := funext fun a => propext (hold a)
  obtain rfl : new = new' := funext fun a => propext (hnew a)
  exact h

section Update

variable [DecidableEq A] (hlive : ∀ a, old a → mem a ≠ none) {p : A}

include hlive

/-- Taking a free cell. -/
theorem Work.take (hfree : mem p = none) (b : B) :
    Work mem (Function.update mem p (some b)) old (fun a => a = p ∨ old a) where
  outside a _ hna := Function.update_of_ne (fun h => hna (Or.inl h)) _ _
  gone a ha hna := absurd (Or.inr ha) hna
  there a ha := by
    by_cases hap : a = p
    · rw [hap, Function.update_self]
      exact Option.some_ne_none b
    · rw [Function.update_of_ne hap]
      exact hlive a (ha.resolve_left hap)
  fresh a ha := by
    rcases ha with rfl | ha
    · exact Or.inr hfree
    · exact Or.inl ha

/-- Writing to a cell of one's own. -/
theorem Work.write (hp : old p) (b : B) : Work mem (Function.update mem p (some b)) old old where
  outside a ha _ := Function.update_of_ne (by rintro rfl; exact ha hp) _ _
  gone a ha hna := absurd ha hna
  there a ha := by
    by_cases hap : a = p
    · rw [hap, Function.update_self]
      exact Option.some_ne_none b
    · rw [Function.update_of_ne hap]
      exact hlive a ha
  fresh a ha := Or.inl ha

/-- Giving back a cell. -/
theorem Work.give (hp : old p) : Work mem (Function.update mem p none) old (fun a => old a ∧ a ≠ p) where
  outside a ha _ := Function.update_of_ne (by rintro rfl; exact ha hp) _ _
  gone a ha hna := by
    have hap : a = p := by
      by_contra hne
      exact hna ⟨ha, hne⟩
    rw [hap, Function.update_self]
  there a ha := by
    rw [Function.update_of_ne ha.2]
    exact hlive a ha.1
  fresh a ha := Or.inl ha.1

end Update

section Split

variable {own : ι → A → Prop}

theorem Split.owned (h : Split mem own) {i : ι} {a : A} (ha : own i a) : mem a ≠ none := (h.live a).mpr ⟨i, ha⟩

/-- The others' cells are as they were. -/
theorem Split.kept (h : Split mem own) {i j : ι} (hij : j ≠ i) (hw : Work mem mem₁ (own i) new) {a : A}
    (ha : own j a) : mem₁ a = mem a := by
  have hnot : ¬own i a := fun hi => hij (h.apart j i a ha hi)
  refine hw.outside a hnot fun hn => ?_
  exact absurd ((hw.fresh a hn).resolve_left hnot) (h.owned ha)

theorem Split.work [DecidableEq ι] (h : Split mem own) {i : ι} (hw : Work mem mem₁ (own i) new) :
    Split mem₁ (Function.update own i new) where
  live a := by
    constructor
    · intro ha
      by_cases hn : new a
      · exact ⟨i, by rw [Function.update_self]; exact hn⟩
      · have hnot : ¬own i a := fun hi => ha (hw.gone a hi hn)
        rw [hw.outside a hnot hn] at ha
        obtain ⟨j, hj⟩ := (h.live a).mp ha
        have hji : j ≠ i := by
          rintro rfl
          exact hnot hj
        exact ⟨j, by rw [Function.update_of_ne hji]; exact hj⟩
    · rintro ⟨j, hj⟩
      by_cases hji : j = i
      · rw [hji, Function.update_self] at hj
        exact hw.there a hj
      · rw [Function.update_of_ne hji] at hj
        rw [h.kept hji hw hj]
        exact h.owned hj
  apart j k a hj hk := by
    have hmine : ∀ l, l ≠ i → own l a → ¬new a := by
      intro l hl hla hn
      rcases hw.fresh a hn with hi | hfree
      · exact hl (h.apart l i a hla hi)
      · exact absurd hfree (h.owned hla)
    by_cases hji : j = i
    · by_cases hki : k = i
      · rw [hji, hki]
      · rw [hji, Function.update_self] at hj
        rw [Function.update_of_ne hki] at hk
        exact absurd hj (hmine k hki hk)
    · rw [Function.update_of_ne hji] at hj
      by_cases hki : k = i
      · rw [hki, Function.update_self] at hk
        exact absurd hk (hmine j hji hj)
      · rw [Function.update_of_ne hki] at hk
        exact h.apart j k a hj hk

end Split

section Frame

variable {S : Type} {cells : S → A → Prop} {inv : (A → Option B) → S → Prop}

/-- What is known of the cells of an owner depends on these cells alone. -/
def Local (cells : S → A → Prop) (inv : (A → Option B) → S → Prop) : Prop :=
  ∀ s mem mem', (∀ a, cells s a → mem' a = mem a) → inv mem s → inv mem' s

/-- Memory that is split among owners, each with what it knows of its cells. -/
structure Shares (cells : S → A → Prop) (inv : (A → Option B) → S → Prop) (mem : A → Option B) (st : ι → S) : Prop where
  split : Split mem fun i => cells (st i)
  each : ∀ i, inv mem (st i)

/-- The frame rule: of the work of one owner the others see nothing. -/
theorem Shares.work [DecidableEq ι] {st : ι → S} (hlocal : Local cells inv) (h : Shares cells inv mem st) (i : ι) {s : S}
    (hw : Work mem mem₁ (cells (st i)) (cells s)) (hs : inv mem₁ s) :
    Shares cells inv mem₁ (Function.update st i s) where
  split := by
    have hcells : (fun j => cells (Function.update st i s j)) =
        Function.update (fun j => cells (st j)) i (cells s) := by
      funext j
      exact Function.apply_update (fun _ s => cells s) st i s j
    rw [hcells]
    exact h.split.work hw
  each j := by
    by_cases hji : j = i
    · rw [hji, Function.update_self]
      exact hs
    · rw [Function.update_of_ne hji]
      refine hlocal (st j) mem mem₁ (fun a ha => ?_) (h.each j)
      exact h.split.kept hji hw ha

end Frame

end RpcMt.Footprints
