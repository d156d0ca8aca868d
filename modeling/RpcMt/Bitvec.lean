import Mathlib.Data.Nat.Bitwise
import Mathlib.Data.List.Basic

/-! The bit vector of `bitvec.c`, word for word. A vector is the block of 64-bit words that
`bitvec_init` allocates together with its size in bits; index arithmetic is `size_t` arithmetic.
Two things the C text does are kept visible: the shift mask is `sizeof (bvword_t) - 1`, a number of
bytes, and the word index rounds up, so the last words of a vector can lie outside its block. -/

namespace RpcMt

/-- What ends the program, or keeps it from going on. `svcDie` is `svc_die()`: an orderly shutdown,
then `abort()`; `xdrAbort` is `xdr_abort()`; `noReturn` is a loop that does not end. The others are
what C leaves undefined: a word outside a bit vector's block, a slot outside an array, a pointer that
is null, bad or freed, a division by zero. -/
inductive Fault where
  | svcDie
  | xdrAbort
  | noReturn
  | wordOutOfBounds
  | slotOutOfBounds
  | badPointer
  | divideByZero
  deriving DecidableEq, Repr

abbrev Res := Except Fault

theorem bind_ok {α β : Type} {x : Res α} {f : α → Res β} {r : β} (h : x >>= f = .ok r) :
    ∃ a, x = .ok a ∧ f a = .ok r := by
  cases x with
  | error e => cases h
  | ok a => exact ⟨a, rfl, h⟩

theorem bind_error {α β : Type} {x : Res α} {f : α → Res β} {e : Fault} (h : x >>= f = .error e) :
    x = .error e ∨ ∃ a, x = .ok a ∧ f a = .error e := by
  cases x with
  | error e' =>
      cases h
      exact Or.inl rfl
  | ok a => exact Or.inr ⟨a, rfl, h⟩

theorem toOption_ok {α : Type} {r : Res α} {v : α} (h : r.toOption = some v) : r = .ok v := by
  cases r with
  | error => cases h
  | ok w =>
      cases h
      rfl

/-- The values of `size_t`. -/
def sizeRange : Nat := 2 ^ 64

/-- `(size_t)(-1)`. -/
def sizeMax : Nat := sizeRange - 1

abbrev BvWord := BitVec 64

/-- `BIT_SIZE(bvword_t)`. -/
def bitSize : Nat := 64

/-- `bvword_mask`: `sizeof (bvword_t) - 1`. -/
def bvwordMask : Nat := 8 - 1

structure Bitvec where
  vec : List BvWord
  sz : Nat
  deriving DecidableEq, Repr

namespace Bitvec

def wordCount (nbits : Nat) : Nat := (nbits + bitSize - 1) % sizeRange / bitSize

def wpos (idx : Nat) : Nat := (idx + bitSize - 1) % sizeRange / bitSize

def bpos (idx : Nat) : Nat := idx &&& bvwordMask

def bitvecInit (nbits : Nat) : Bitvec := ⟨List.replicate (wordCount nbits) 0, nbits⟩

/-- The word an index selects: `svc_die` past the size, undefined past the block. -/
def word (bv : Bitvec) (idx : Nat) : Res BvWord :=
  if bv.sz ≤ idx then .error .svcDie
  else match bv.vec[wpos idx]? with
    | none => .error .wordOutOfBounds
    | some w => .ok w

/-- `(bvword_t)1 << bpos`. -/
def mask (idx : Nat) : BvWord := 1#64 <<< bpos idx

def bitvecSetBit (bv : Bitvec) (idx : Nat) : Res Bitvec := do
  let w ← bv.word idx
  pure { bv with vec := bv.vec.set (wpos idx) (w ||| mask idx) }

def bitvecClrBit (bv : Bitvec) (idx : Nat) : Res Bitvec := do
  let w ← bv.word idx
  pure { bv with vec := bv.vec.set (wpos idx) (w &&& ~~~mask idx) }

def bitvecGetBit (bv : Bitvec) (idx : Nat) : Res Bool := do
  let w ← bv.word idx
  pure (w &&& mask idx != 0)

/-! ### Which indices share a bit -/

/-- Two indices that select the same bit of the same word. -/
def SameBit (i j : Nat) : Prop := wpos i = wpos j ∧ bpos i = bpos j

instance sameBitDecidable (i j : Nat) : Decidable (SameBit i j) :=
  inferInstanceAs (Decidable (_ ∧ _))

theorem SameBit.refl (i : Nat) : SameBit i i := ⟨rfl, rfl⟩

theorem SameBit.symm {i j : Nat} (h : SameBit i j) : SameBit j i := ⟨h.1.symm, h.2.symm⟩

theorem SameBit.trans {i j k : Nat} (h : SameBit i j) (h' : SameBit j k) : SameBit i k :=
  ⟨h.1.trans h'.1, h.2.trans h'.2⟩

theorem bpos_eq_mod (idx : Nat) : bpos idx = idx % 8 := Nat.and_two_pow_sub_one_eq_mod idx 3

theorem bpos_lt (idx : Nat) : bpos idx < 64 := by
  rw [bpos_eq_mod]
  omega

/-- The least index on the bit of `idx`: word `w > 0` serves the indices `64 (w - 1) + 1` to `64 w`,
eight to each of its eight low bits. -/
def leastSharing (idx : Nat) : Nat :=
  if idx = 0 then 0 else 64 * ((idx - 1) / 64) + (idx - 1) % 8 + 1

theorem wpos_of_lt {idx : Nat} (h : idx + 63 < sizeRange) : wpos idx = (idx + 63) / 64 := by
  rw [wpos, bitSize, show idx + 64 - 1 = idx + 63 by omega, Nat.mod_eq_of_lt h]

theorem leastSharing_le (idx : Nat) : leastSharing idx ≤ idx := by
  unfold leastSharing
  split <;> omega

theorem leastSharing_sameBit {idx : Nat} (h : idx + 63 < sizeRange) :
    SameBit (leastSharing idx) idx := by
  have hle := leastSharing_le idx
  refine ⟨?_, ?_⟩
  · rw [wpos_of_lt h, wpos_of_lt (by omega)]
    unfold leastSharing
    split <;> omega
  · rw [bpos_eq_mod, bpos_eq_mod]
    unfold leastSharing
    split <;> omega

theorem leastSharing_le_of_sameBit {i j : Nat} (hi : i + 63 < sizeRange) (hj : j + 63 < sizeRange)
    (h : SameBit i j) : leastSharing i ≤ j := by
  obtain ⟨hw, hb⟩ := h
  rw [wpos_of_lt hi, wpos_of_lt hj] at hw
  rw [bpos_eq_mod, bpos_eq_mod] at hb
  unfold leastSharing
  split <;> omega

/-- An index that is least on its bit is the least one for everything on that bit. -/
theorem eq_leastSharing {i j : Nat} (hi : i + 63 < sizeRange) (hj : j + 63 < sizeRange)
    (h : SameBit i j) (hleast : leastSharing j = j) : j = leastSharing i := by
  have hle := leastSharing_le_of_sameBit hi hj h
  have hback : SameBit j (leastSharing i) := h.symm.trans (leastSharing_sameBit hi).symm
  have hle' := leastSharing_le_of_sameBit hj (by have := leastSharing_le i; omega) hback
  omega

/-! ### The bits a vector holds -/

/-- The bit at an index, as the C expression `vec[wpos] & 1 << bpos` reads it. -/
def bit (bv : Bitvec) (idx : Nat) : Bool := (bv.vec[wpos idx]?.getD 0).getLsbD (bpos idx)

theorem bit_congr (bv : Bitvec) {i j : Nat} (h : SameBit i j) : bv.bit i = bv.bit j := by
  rw [bit, bit, h.1, h.2]

/-- An index whose accesses are defined: below the size, and its word inside the block. -/
def InBounds (bv : Bitvec) (idx : Nat) : Prop := idx < bv.sz ∧ wpos idx < bv.vec.length

instance inBoundsDecidable (bv : Bitvec) (idx : Nat) : Decidable (bv.InBounds idx) :=
  inferInstanceAs (Decidable (_ ∧ _))

theorem mask_getLsbD (idx k : Nat) : (mask idx).getLsbD k = decide (k = bpos idx) := by
  have h := bpos_lt idx
  rw [mask, BitVec.getLsbD_shiftLeft, BitVec.getLsbD_one]
  by_cases hk : k = bpos idx
  · subst hk
    simp [h]
  · by_cases hlt : k < bpos idx
    · simp [hlt, hk]
    · have hne : k - bpos idx ≠ 0 := by omega
      simp [hk, hne]

theorem and_mask_ne_zero (w : BvWord) (idx : Nat) :
    (w &&& mask idx != 0) = w.getLsbD (bpos idx) := by
  have hbit (k : Nat) :
      (w &&& mask idx).getLsbD k = (w.getLsbD k && decide (k = bpos idx)) := by
    rw [BitVec.getLsbD_and, mask_getLsbD]
  cases hw : w.getLsbD (bpos idx) with
  | true =>
      rw [bne_iff_ne]
      intro hzero
      have h := hbit (bpos idx)
      rw [hzero, hw] at h
      simp at h
  | false =>
      rw [bne_eq_false_iff_eq]
      apply BitVec.eq_of_getLsbD_eq
      intro k _
      rw [hbit]
      by_cases hk : k = bpos idx
      · subst hk
        simp [hw]
      · simp [hk]

theorem word_eq (bv : Bitvec) (idx : Nat) :
    bv.word idx = if bv.sz ≤ idx then .error .svcDie
      else if wpos idx < bv.vec.length then .ok (bv.vec[wpos idx]?.getD 0)
      else .error .wordOutOfBounds := by
  unfold word
  split
  · rfl
  · by_cases h : wpos idx < bv.vec.length
    · simp [h]
    · simp [h]

theorem word_ok {bv : Bitvec} {idx : Nat} {w : BvWord} (h : bv.word idx = .ok w) :
    bv.InBounds idx ∧ w = bv.vec[wpos idx]?.getD 0 := by
  rw [word_eq] at h
  split at h
  · cases h
  · split at h
    · cases h
      exact ⟨⟨by omega, by assumption⟩, rfl⟩
    · cases h

theorem word_of_inBounds {bv : Bitvec} {idx : Nat} (h : bv.InBounds idx) :
    bv.word idx = .ok (bv.vec[wpos idx]?.getD 0) := by
  rw [word_eq, if_neg (by have := h.1; omega), if_pos h.2]

theorem get_of_inBounds {bv : Bitvec} {idx : Nat} (h : bv.InBounds idx) :
    bv.bitvecGetBit idx = .ok (bv.bit idx) := by
  rw [bitvecGetBit, word_of_inBounds h]
  exact congrArg Except.ok (and_mask_ne_zero _ _)

theorem get_ok {bv : Bitvec} {idx : Nat} {b : Bool} (h : bv.bitvecGetBit idx = .ok b) :
    bv.InBounds idx ∧ bv.bit idx = b := by
  obtain ⟨w, hw, _⟩ := bind_ok h
  have hin := (word_ok hw).1
  rw [get_of_inBounds hin] at h
  exact ⟨hin, Except.ok.inj h⟩

/-- What one update of the selected word does to the bit of every index. -/
theorem bit_set_word (bv : Bitvec) (i j : Nat) (w : BvWord) (h : wpos i < bv.vec.length) :
    ({ bv with vec := bv.vec.set (wpos i) w } : Bitvec).bit j =
      if wpos i = wpos j then w.getLsbD (bpos j) else bv.bit j := by
  unfold bit
  by_cases hw : wpos i = wpos j
  · simp [← hw, h]
  · simp [hw, List.getElem?_set_ne hw]

theorem set_ok {bv bv' : Bitvec} {i : Nat} (h : bv.bitvecSetBit i = .ok bv') :
    bv.InBounds i ∧ bv'.sz = bv.sz ∧ bv'.vec.length = bv.vec.length ∧
      ∀ j, bv'.bit j = (decide (SameBit i j) || bv.bit j) := by
  obtain ⟨w, hw, hpure⟩ := bind_ok h
  obtain ⟨hin, rfl⟩ := word_ok hw
  cases hpure
  refine ⟨hin, rfl, List.length_set, fun j => ?_⟩
  rw [bit_set_word _ _ _ _ hin.2, BitVec.getLsbD_or, mask_getLsbD]
  by_cases hj : wpos i = wpos j
  · simp [bit, SameBit, hj, eq_comm, Bool.or_comm]
  · simp [SameBit, hj]

theorem clr_ok {bv bv' : Bitvec} {i : Nat} (h : bv.bitvecClrBit i = .ok bv') :
    bv.InBounds i ∧ bv'.sz = bv.sz ∧ bv'.vec.length = bv.vec.length ∧
      ∀ j, bv'.bit j = (!decide (SameBit i j) && bv.bit j) := by
  obtain ⟨w, hw, hpure⟩ := bind_ok h
  obtain ⟨hin, rfl⟩ := word_ok hw
  cases hpure
  refine ⟨hin, rfl, List.length_set, fun j => ?_⟩
  rw [bit_set_word _ _ _ _ hin.2, BitVec.getLsbD_and, BitVec.getLsbD_not, mask_getLsbD]
  have hlt := bpos_lt j
  by_cases hj : wpos i = wpos j
  · simp [bit, SameBit, hj, eq_comm, Bool.and_comm, hlt]
  · simp [SameBit, hj]

theorem set_of_inBounds {bv : Bitvec} {i : Nat} (h : bv.InBounds i) :
    ∃ bv', bv.bitvecSetBit i = .ok bv' := by
  rw [bitvecSetBit, word_of_inBounds h]
  exact ⟨_, rfl⟩

theorem clr_of_inBounds {bv : Bitvec} {i : Nat} (h : bv.InBounds i) :
    ∃ bv', bv.bitvecClrBit i = .ok bv' := by
  rw [bitvecClrBit, word_of_inBounds h]
  exact ⟨_, rfl⟩

theorem bit_init (nbits j : Nat) : (bitvecInit nbits).bit j = false := by
  unfold bit bitvecInit
  by_cases h : wpos j < wordCount nbits
  · simp [h]
  · simp

/-- Bit 1 of the second word belongs to the indices 1, 9, 17, ..., 57. -/
example : SameBit 1 9 ∧ ¬SameBit 1 2 ∧ ¬SameBit 1 65 := by decide

end Bitvec

end RpcMt
