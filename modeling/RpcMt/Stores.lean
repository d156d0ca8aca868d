import Mathlib.Logic.Function.Basic
import Mathlib.Data.List.Basic

/-! Memory that is stored to one cell at a time, with the addresses of all the stores. Storing a list of values at
consecutive addresses is one operation: what is there afterwards, what is left as it was, and where the stores
went. -/

namespace RpcMt.Stores

structure Cells (α : Type) where
  cell : Nat → α
  stored : List Nat

namespace Cells

variable {α : Type}

/-- Memory before any store. -/
def fresh (cell : Nat → α) : Cells α := ⟨cell, []⟩

def store (m : Cells α) (p : Nat) (a : α) : Cells α := ⟨Function.update m.cell p a, p :: m.stored⟩

/-- The values at `p` and behind it. -/
def storeAll (m : Cells α) (p : Nat) : List α → Cells α
  | [] => m
  | a :: as => (m.store p a).storeAll (p + 1) as

/-- The values are at `p` and behind it. -/
def Holds (m : Cells α) (p : Nat) : List α → Prop
  | [] => True
  | a :: as => m.cell p = a ∧ m.Holds (p + 1) as

@[simp] theorem store_cell (m : Cells α) (p : Nat) (a : α) : (m.store p a).cell p = a := Function.update_self ..

theorem store_other (m : Cells α) {p q : Nat} (a : α) (hne : q ≠ p) : (m.store p a).cell q = m.cell q :=
  Function.update_of_ne hne ..

theorem storeAll_append (m : Cells α) (p : Nat) (as bs : List α) :
    m.storeAll p (as ++ bs) = (m.storeAll p as).storeAll (p + as.length) bs := by
  induction as generalizing m p with
  | nil => rfl
  | cons a as ih =>
      rw [List.cons_append, storeAll, storeAll, ih, List.length_cons, Nat.add_assoc, Nat.add_comm 1]

/-- Nothing before the values and nothing behind them is touched. -/
theorem storeAll_outside (m : Cells α) {p q : Nat} (as : List α) (hq : q < p ∨ p + as.length ≤ q) :
    (m.storeAll p as).cell q = m.cell q := by
  induction as generalizing m p with
  | nil => rfl
  | cons a as ih =>
      rw [List.length_cons] at hq
      rw [storeAll, ih]
      · exact store_other m a (by omega)
      · omega

theorem mem_stored_storeAll (m : Cells α) (p q : Nat) (as : List α) :
    q ∈ (m.storeAll p as).stored ↔ q ∈ m.stored ∨ p ≤ q ∧ q < p + as.length := by
  induction as generalizing m p with
  | nil =>
      rw [storeAll, List.length_nil]
      constructor
      · exact Or.inl
      · rintro (hq | hq)
        · exact hq
        · omega
  | cons a as ih =>
      rw [storeAll, ih, store, List.mem_cons, List.length_cons]
      constructor
      · rintro ((hq | hq) | hq)
        · right
          omega
        · exact Or.inl hq
        · right
          omega
      · rintro (hq | hq)
        · exact Or.inl (Or.inr hq)
        · by_cases hp : q = p
          · exact Or.inl (Or.inl hp)
          · right
            omega

theorem holds_append (m : Cells α) (p : Nat) (as bs : List α) :
    m.Holds p (as ++ bs) ↔ m.Holds p as ∧ m.Holds (p + as.length) bs := by
  induction as generalizing p with
  | nil => exact (and_iff_right trivial).symm
  | cons a as ih =>
      rw [List.cons_append, Holds, Holds, ih, List.length_cons, and_assoc, Nat.add_assoc, Nat.add_comm 1]

/-- Memory that agrees where the values are holds them too. -/
theorem Holds.congr {m m' : Cells α} {p : Nat} {as : List α} (h : m.Holds p as)
    (hsame : ∀ q, p ≤ q → q < p + as.length → m'.cell q = m.cell q) : m'.Holds p as := by
  induction as generalizing p with
  | nil => exact trivial
  | cons a as ih =>
      rw [List.length_cons] at hsame
      refine ⟨(hsame p (Nat.le_refl p) (by omega)).trans h.1, ih h.2 fun q hp hq => ?_⟩
      exact hsame q (by omega) (by omega)

theorem holds_storeAll (m : Cells α) (p : Nat) (as : List α) : (m.storeAll p as).Holds p as := by
  induction as generalizing m p with
  | nil => exact trivial
  | cons a as ih =>
      refine ⟨?_, ih (m.store p a) (p + 1)⟩
      rw [storeAll, storeAll_outside _ as (Or.inl (Nat.lt_succ_self p)), store_cell]

/-- Values stored behind others complete them. -/
theorem Holds.storeAll {m : Cells α} {p : Nat} {as : List α} (h : m.Holds p as) (bs : List α) :
    (m.storeAll (p + as.length) bs).Holds p (as ++ bs) := by
  rw [holds_append]
  refine ⟨h.congr fun q _ hq => ?_, holds_storeAll m (p + as.length) bs⟩
  exact storeAll_outside m bs (Or.inl hq)

end Cells

end RpcMt.Stores
