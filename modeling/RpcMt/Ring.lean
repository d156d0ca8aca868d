import Mathlib.Data.List.Basic
import Mathlib.Data.Nat.ModEq
import Mathlib.Logic.Function.Basic

/-! A ring of slots that is written in turn. The slots hold the last values written, oldest first from
the slot that is written next, and the slots not written yet are empty; a write either fills an empty
slot or replaces the oldest value. -/

namespace RpcMt.Ring

variable {N : Type}

/-- The ring of `size` slots whose next slot to write is `v` holds `old`, oldest first. -/
structure Holds (slots : Nat → Option N) (size v : Nat) (old : List N) : Prop where
  length_le : old.length ≤ size
  next_lt : v < size
  get : ∀ i < size, slots ((v + (size - old.length) + i) % size) = old[i]?

theorem holds_empty {size : Nat} (h : 0 < size) :
    Holds (fun _ => (none : Option N)) size 0 [] := ⟨Nat.zero_le _, h, fun _ _ => rfl⟩

/-- Going round by `k` steps comes back to the same slot only for multiples of the size. -/
theorem mod_eq_self {size v k : Nat} (hv : v < size) (h : (v + k) % size = v) : size ∣ k := by
  have hmod : v + k ≡ v + 0 [MOD size] := by
    rw [Nat.ModEq, h, Nat.add_zero, Nat.mod_eq_of_lt hv]
  exact (Nat.modEq_zero_iff_dvd).mp (Nat.ModEq.add_left_cancel' v hmod)

namespace Holds

variable {slots : Nat → Option N} {size v : Nat} {old : List N}

/-- The slot to be written next: empty while there is room, else the oldest value. -/
theorem next_of_lt (h : Holds slots size v old) (hlt : old.length < size) : slots v = none := by
  have hget := h.get old.length hlt
  have hidx : (v + (size - old.length) + old.length) % size = v := by
    rw [show v + (size - old.length) + old.length = v + size by omega, Nat.add_mod_right,
      Nat.mod_eq_of_lt h.next_lt]
  rw [hidx] at hget
  rw [hget, List.getElem?_eq_none (le_refl _)]

theorem next_of_full {x : N} (h : Holds slots size v (x :: old)) (hfull : (x :: old).length = size) :
    slots v = some x := by
  have hget := h.get 0 (by have := h.next_lt; omega)
  have hidx : (v + (size - (x :: old).length) + 0) % size = v := by
    rw [hfull, Nat.sub_self, Nat.add_zero, Nat.mod_eq_of_lt h.next_lt]
  rw [hidx] at hget
  exact hget

/-- What stands in a slot is one of the values held. -/
theorem mem {x : N} {j : Nat} (h : Holds slots size v old) (hj : j < size) (hx : slots j = some x) :
    x ∈ old := by
  have hpos : 0 < size := Nat.zero_lt_of_lt hj
  have hbase := Nat.mod_lt (v + (size - old.length)) hpos
  have hround : (v + (size - old.length) + (j + (size - (v + (size - old.length)) % size)) % size) % size = j := by
    rw [Nat.add_mod_mod, ← Nat.mod_add_mod,
      show (v + (size - old.length)) % size + (j + (size - (v + (size - old.length)) % size)) = j + size by
        omega, Nat.add_mod_right, Nat.mod_eq_of_lt hj]
  have hget := h.get _ (Nat.mod_lt (j + (size - (v + (size - old.length)) % size)) hpos)
  rw [hround, hx] at hget
  exact List.mem_of_getElem? hget.symm

theorem push (h : Holds slots size v old) (hlt : old.length < size) (x : N) :
    Holds (Function.update slots v (some x)) size ((v + 1) % size) (old ++ [x]) := by
  have hv := h.next_lt
  refine ⟨by rw [List.length_append]; exact hlt, Nat.mod_lt _ (by omega), fun i hi => ?_⟩
  have hidx : ((v + 1) % size + (size - (old ++ [x]).length) + i) % size =
      (v + (size - old.length) + i) % size := by
    rw [Nat.add_assoc, Nat.mod_add_mod, List.length_append, List.length_singleton]
    congr 1
    omega
  rw [hidx]
  rcases Nat.lt_trichotomy i old.length with hlt' | rfl | hgt
  · have hne : (v + (size - old.length) + i) % size ≠ v := by
      intro heq
      rw [Nat.add_assoc] at heq
      have hdvd := Nat.le_of_dvd (by omega) (mod_eq_self hv heq)
      omega
    rw [Function.update_of_ne hne, h.get i hi, List.getElem?_append_left hlt']
  · have heq : (v + (size - old.length) + old.length) % size = v := by
      rw [show v + (size - old.length) + old.length = v + size by omega, Nat.add_mod_right,
        Nat.mod_eq_of_lt hv]
    rw [heq, Function.update_self, List.getElem?_concat_length]
  · have hne : (v + (size - old.length) + i) % size ≠ v := by
      intro heq
      rw [Nat.add_assoc] at heq
      -- The offset lies strictly between `size` and `2 * size`.
      have hdvd : size ∣ size - old.length + i - size := Nat.dvd_sub (mod_eq_self hv heq) (dvd_refl _)
      have hle := Nat.le_of_dvd (by omega) hdvd
      omega
    rw [Function.update_of_ne hne, h.get i hi, List.getElem?_eq_none (by omega),
      List.getElem?_eq_none (by rw [List.length_append, List.length_singleton]; omega)]

theorem replace {x : N} (h : Holds slots size v (x :: old)) (hfull : (x :: old).length = size) (y : N) :
    Holds (Function.update slots v (some y)) size ((v + 1) % size) (old ++ [y]) := by
  have hv := h.next_lt
  have hlen : old.length + 1 = size := hfull
  refine ⟨by rw [List.length_append]; exact hfull.le, Nat.mod_lt _ (by omega), fun i hi => ?_⟩
  have hidx : ((v + 1) % size + (size - (old ++ [y]).length) + i) % size = (v + (i + 1)) % size := by
    rw [Nat.add_assoc, Nat.mod_add_mod, List.length_append, List.length_singleton]
    congr 1
    omega
  rw [hidx]
  by_cases hlast : i = old.length
  · subst hlast
    rw [hlen, Nat.add_mod_right, Nat.mod_eq_of_lt hv, Function.update_self, List.getElem?_concat_length]
  · have hne : (v + (i + 1)) % size ≠ v := by
      intro heq
      have hdvd := Nat.le_of_dvd (by omega) (mod_eq_self hv heq)
      omega
    have hget := h.get (i + 1) (by omega)
    rw [hfull, Nat.sub_self, Nat.add_zero, List.getElem?_cons_succ] at hget
    rw [Function.update_of_ne hne, hget, List.getElem?_append_left (by omega)]

end Holds

end RpcMt.Ring
