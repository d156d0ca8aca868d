import RpcMt.Bitvec

/-! Loops over a `size_t` and what their outcome says about the arrays they read. A loop is run with a
number of turns; where these run out it has not returned. The counter wraps, so a loop whose bound is
the largest `size_t` has no last turn. The rules below are for a loop that stays inside an array,
for one that comes to its end, for one that is seen in part, and for one that walks out of its array. -/

namespace RpcMt

variable {α β σ : Type}

/-- The computation returns without reading outside an array: a result meets `P`, and the program may
only have ended for some other reason. -/
def Within (P : α → Prop) : Res α → Prop
  | .ok v => P v
  | .error e => e ≠ .slotOutOfBounds ∧ e ≠ .noReturn

/-- The computation reads outside an array, unless it is cut short. -/
def WalksOut (r : Res α) : Prop := r = .error .noReturn ∨ r = .error .slotOutOfBounds

theorem Within.pure {P : α → Prop} {v : α} (h : P v) : Within P (pure v) := h

theorem Within.error {P : α → Prop} {e : Fault} (hslot : e ≠ .slotOutOfBounds)
    (hret : e ≠ .noReturn) : Within P (.error e) := ⟨hslot, hret⟩

theorem Within.bind {P : α → Prop} {Q : β → Prop} {r : Res α} {f : α → Res β} (h : Within P r)
    (hf : ∀ v, r = .ok v → P v → Within Q (f v)) : Within Q (r >>= f) := by
  cases r with
  | error e => exact h
  | ok v => exact hf v rfl h

theorem Within.mono {P Q : α → Prop} {r : Res α} (h : Within P r) (hle : ∀ v, r = .ok v → P v → Q v) :
    Within Q r := by
  cases r with
  | error e => exact h
  | ok v => exact hle v rfl h

theorem Within.not_walksOut {P : α → Prop} {r : Res α} (h : Within P r) : ¬WalksOut r := by
  rintro (rfl | rfl)
  · exact h.2 rfl
  · exact h.1 rfl

theorem WalksOut.bind {r : Res α} {f : α → Res β} (h : WalksOut r) : WalksOut (r >>= f) := by
  rcases h with rfl | rfl
  · exact Or.inl rfl
  · exact Or.inr rfl

theorem WalksOut.bind_ok {r : Res α} {f : α → Res β} {v : α} (hr : r = .ok v) (h : WalksOut (f v)) :
    WalksOut (r >>= f) := by
  subst hr
  exact h

/-- `for (; guard; ++id) body` over a `size_t`, with so many turns. -/
def forIds (guard : Nat → σ → Bool) (body : Nat → σ → Res σ) : Nat → Nat → σ → Res σ
  | 0, _, _ => .error .noReturn
  | turns + 1, id, st =>
      if guard id st then do
        let st' ← body id st
        forIds guard body turns ((id + 1) % sizeRange) st'
      else .ok st

section Rules

variable {guard : Nat → σ → Bool} {body : Nat → σ → Res σ}

/-- A loop whose guard fails past `last` returns after that many turns, if every turn does. -/
theorem forIds_within {inv : σ → Prop} {last : Nat} (hlast : last < sizeMax)
    (hguard : ∀ id st, inv st → guard id st = true → id ≤ last)
    (hbody : ∀ id st, inv st → guard id st = true → Within inv (body id st)) {turns id : Nat} {st : σ}
    (hid : id ≤ last + 1) (hturns : last + 1 < id + turns) (hst : inv st) :
    Within inv (forIds guard body turns id st) := by
  induction turns generalizing id st with
  | zero => omega
  | succ turns ih =>
      rw [forIds]
      by_cases h : guard id st = true
      · rw [if_pos h]
        have hle := hguard id st hst h
        refine (hbody id st hst h).bind fun st' _ hst' => ?_
        have hwrap : (id + 1) % sizeRange = id + 1 := by
          apply Nat.mod_eq_of_lt
          simp only [sizeMax] at hlast
          omega
        rw [hwrap]
        exact ih (by omega) (by omega) hst'
      · rw [if_neg h]
        exact hst

/-- A loop up to `last` whose every turn succeeds comes to its end. -/
theorem forIds_ok {inv : Nat → σ → Prop} {last : Nat} (hlast : last < sizeMax)
    (hguard : ∀ id st, inv id st → (guard id st = true ↔ id ≤ last))
    (hbody : ∀ id st, inv id st → id ≤ last → ∃ st', body id st = .ok st' ∧ inv (id + 1) st')
    {turns id : Nat} {st : σ} (hid : id ≤ last + 1) (hturns : last + 1 < id + turns) (hst : inv id st) :
    ∃ st', forIds guard body turns id st = .ok st' ∧ inv (last + 1) st' := by
  induction turns generalizing id st with
  | zero => omega
  | succ turns ih =>
      rw [forIds]
      by_cases hle : id ≤ last
      · obtain ⟨st', hok, hst'⟩ := hbody id st hst hle
        have hwrap : (id + 1) % sizeRange = id + 1 := by
          apply Nat.mod_eq_of_lt
          simp only [sizeMax] at hlast
          omega
        rw [if_pos ((hguard id st hst).mpr hle), hok]
        show ∃ st'', forIds guard body turns ((id + 1) % sizeRange) st' = .ok st'' ∧ _
        rw [hwrap]
        exact ih (by omega) (by omega) hst'
      · have heq : id = last + 1 := by omega
        rw [if_neg (mt (hguard id st hst).mp hle)]
        exact ⟨st, rfl, heq ▸ hst⟩

/-- Loops whose turns agree wherever the guard holds. -/
theorem forIds_congr {body' : Nat → σ → Res σ} (hbody : ∀ id st, guard id st = true → body id st = body' id st)
    (turns id : Nat) (st : σ) : forIds guard body turns id st = forIds guard body' turns id st := by
  induction turns generalizing id st with
  | zero => rfl
  | succ turns ih =>
      rw [forIds, forIds]
      by_cases h : guard id st = true
      · rw [if_pos h, if_pos h, hbody id st h]
        apply bind_congr
        intro st'
        exact ih ((id + 1) % sizeRange) st'
      · rw [if_neg h, if_neg h]

/-- A loop over a richer state computes the loop over what is seen of it. -/
theorem forIds_map {τ : Type} {f : σ → τ} {guard' : Nat → τ → Bool} {body' : Nat → τ → Res τ}
    (hguard : ∀ id st, guard id st = guard' id (f st))
    (hbody : ∀ id st, (body id st).map f = body' id (f st)) (turns id : Nat) (st : σ) :
    (forIds guard body turns id st).map f = forIds guard' body' turns id (f st) := by
  induction turns generalizing id st with
  | zero => rfl
  | succ turns ih =>
      rw [forIds, forIds, ← hguard, ← hbody]
      by_cases h : guard id st = true
      · rw [if_pos h, if_pos h]
        cases body id st with
        | error e => rfl
        | ok st' => exact ih ((id + 1) % sizeRange) st'
      · rw [if_neg h, if_neg h]
        rfl

/-- A loop that goes on up to the end of an array and reads there leaves it. -/
theorem forIds_walksOut (inv : σ → Prop) {size : Nat} (hsize : size < sizeMax)
    (hin : ∀ id st, id < size → inv st → guard id st = true ∧
      (WalksOut (body id st) ∨ ∃ st', body id st = .ok st' ∧ inv st'))
    (hout : ∀ st, inv st → guard size st = true ∧ WalksOut (body size st)) {turns id : Nat} {st : σ}
    (hid : id ≤ size) (hst : inv st) : WalksOut (forIds guard body turns id st) := by
  induction turns generalizing id st with
  | zero => exact Or.inl rfl
  | succ turns ih =>
      rw [forIds]
      rcases Nat.lt_or_eq_of_le hid with hlt | rfl
      · obtain ⟨hgo, hturn⟩ := hin id st hlt hst
        rw [if_pos hgo]
        rcases hturn with hl | ⟨st', hok, hst'⟩
        · exact hl.bind
        · apply WalksOut.bind_ok hok
          have hwrap : (id + 1) % sizeRange = id + 1 := by
            apply Nat.mod_eq_of_lt
            simp only [sizeMax] at hsize
            omega
          rw [hwrap]
          exact ih hlt hst'
      · obtain ⟨hgo, hl⟩ := hout st hst
        rw [if_pos hgo]
        exact hl.bind

end Rules

end RpcMt
