import Mathlib.Data.List.Induction
import RpcMt.Bitvec

/-! What a bit vector answers after any sequence of `bitvec_set_bit` and `bitvec_clr_bit`. The
interface comments promise one bit to each index below `nbits`; this holds when the pairs (word, bit)
of the indices lie in the block and are distinct, and the rounding of `wpos` and the mask of `bpos`
give that to the vectors of at most one bit only. -/

namespace RpcMt

namespace Bitvec

inductive Call where
  | setBit (idx : Nat)
  | clrBit (idx : Nat)
  deriving DecidableEq, Repr

def Call.idx : Call → Nat
  | .setBit i => i
  | .clrBit i => i

/-- The answer a call leaves at its own index. -/
def Call.leaves : Call → Bool
  | .setBit _ => true
  | .clrBit _ => false

def call (bv : Bitvec) : Call → Res Bitvec
  | .setBit i => bv.bitvecSetBit i
  | .clrBit i => bv.bitvecClrBit i

def calls (bv : Bitvec) (cs : List Call) : Res Bitvec := cs.foldlM call bv

/-- The last operation on index `i` was a set. -/
def LastSet (i : Nat) (cs : List Call) : Prop :=
  (cs.reverse.find? fun c => c.idx = i) = some (.setBit i)

instance lastSetDecidable (i : Nat) (cs : List Call) : Decidable (LastSet i cs) :=
  inferInstanceAs (Decidable (_ = _))

/-- What the interface says of a vector of `nbits` bits: after every sequence of calls with indices
below `nbits` each index answers its last call, one more call changes the answer at its own index
only, and the words accessed are words of the block. -/
def OneBitEach (nbits : Nat) : Prop :=
  (∀ i < nbits, wpos i < (bitvecInit nbits).vec.length) ∧
  ∀ cs : List Call, (∀ c ∈ cs, c.idx < nbits) →
    ∃ bv, (bitvecInit nbits).calls cs = .ok bv ∧
      (∀ i < nbits, bv.bitvecGetBit i = .ok (decide (LastSet i cs))) ∧
      ∀ c : Call, c.idx < nbits → ∃ bv', bv.call c = .ok bv' ∧
        ∀ i < nbits, i ≠ c.idx → bv'.bitvecGetBit i = bv.bitvecGetBit i

/-! ### One call -/

theorem calls_nil (bv : Bitvec) : bv.calls [] = .ok bv := rfl

theorem calls_concat (bv : Bitvec) (cs : List Call) (c : Call) :
    bv.calls (cs ++ [c]) = bv.calls cs >>= fun bv' => bv'.call c := by
  rw [calls, List.foldlM_append]
  show (cs.foldlM call bv >>= fun bv' => bv'.call c >>= pure) = _
  simp only [bind_pure]
  rfl

/-- A call replaces the answers of the indices that share its bit and leaves the others. -/
theorem call_of_inBounds {bv : Bitvec} {c : Call} (h : bv.InBounds c.idx) :
    ∃ bv', bv.call c = .ok bv' ∧ bv'.sz = bv.sz ∧ bv'.vec.length = bv.vec.length ∧
      ∀ j, bv'.bit j = if SameBit c.idx j then c.leaves else bv.bit j := by
  cases c with
  | setBit i =>
      obtain ⟨bv', hset⟩ := set_of_inBounds h
      obtain ⟨_, hsz, hlen, hbit⟩ := set_ok hset
      refine ⟨bv', hset, hsz, hlen, fun j => ?_⟩
      rw [hbit j]
      by_cases hj : SameBit i j <;> simp [Call.idx, Call.leaves, hj]
  | clrBit i =>
      obtain ⟨bv', hclr⟩ := clr_of_inBounds h
      obtain ⟨_, hsz, hlen, hbit⟩ := clr_ok hclr
      refine ⟨bv', hclr, hsz, hlen, fun j => ?_⟩
      rw [hbit j]
      by_cases hj : SameBit i j <;> simp [Call.idx, Call.leaves, hj]

theorem lastSet_nil (i : Nat) : ¬LastSet i [] := by simp [LastSet]

theorem lastSet_concat (i : Nat) (cs : List Call) (c : Call) :
    LastSet i (cs ++ [c]) ↔ if c.idx = i then c.leaves = true else LastSet i cs := by
  rw [LastSet, List.reverse_append, List.reverse_singleton, List.singleton_append,
    List.find?_cons]
  by_cases h : c.idx = i
  · subst h
    cases c <;> simp [Call.idx, Call.leaves]
  · simp [h, LastSet]

/-! ### Sequences of calls -/

/-- The words of the indices below `nbits` lie in the block, and no two indices share a bit. -/
def Separates (nbits : Nat) : Prop :=
  (∀ i < nbits, wpos i < wordCount nbits) ∧
    ∀ i < nbits, ∀ j < nbits, SameBit i j → i = j

/-- The vector holds exactly the last call of every index, in a block of its first length. -/
structure Follows (nbits : Nat) (cs : List Call) (bv : Bitvec) : Prop where
  sz : bv.sz = nbits
  length : bv.vec.length = wordCount nbits
  bit : ∀ i < nbits, bv.bit i = decide (LastSet i cs)

theorem follows_init (nbits : Nat) : Follows nbits [] (bitvecInit nbits) where
  sz := rfl
  length := List.length_replicate
  bit i _ := by rw [bit_init, decide_eq_false (lastSet_nil i)]

section Separated

variable {nbits : Nat} {cs : List Call} {bv : Bitvec}

theorem Follows.inBounds (hf : Follows nbits cs bv) (hsep : Separates nbits) {i : Nat}
    (hi : i < nbits) : bv.InBounds i := by
  refine ⟨?_, ?_⟩
  · rw [hf.sz]
    exact hi
  · rw [hf.length]
    exact hsep.1 i hi

theorem Follows.get (hf : Follows nbits cs bv) (hsep : Separates nbits) {i : Nat}
    (hi : i < nbits) : bv.bitvecGetBit i = .ok (decide (LastSet i cs)) := by
  rw [get_of_inBounds (hf.inBounds hsep hi), hf.bit i hi]

theorem Follows.call (hf : Follows nbits cs bv) (hsep : Separates nbits) {c : Call}
    (hc : c.idx < nbits) : ∃ bv', bv.call c = .ok bv' ∧ Follows nbits (cs ++ [c]) bv' := by
  obtain ⟨bv', hcall, hsz, hlen, hbit⟩ := call_of_inBounds (hf.inBounds hsep hc)
  refine ⟨bv', hcall, hsz.trans hf.sz, hlen.trans hf.length, fun i hi => ?_⟩
  have hlast := lastSet_concat i cs c
  rw [hbit i]
  by_cases h : c.idx = i
  · have hsame : SameBit c.idx i := h ▸ SameBit.refl _
    rw [if_pos h] at hlast
    rw [if_pos hsame]
    cases hc' : c.leaves <;> simp [hlast, hc']
  · have hother : ¬SameBit c.idx i := fun hs => h (hsep.2 _ hc _ hi hs)
    rw [if_neg h] at hlast
    rw [if_neg hother, hf.bit i hi, decide_eq_decide.mpr hlast]

theorem follows_calls (hsep : Separates nbits) (hcs : ∀ c ∈ cs, c.idx < nbits) :
    ∃ bv, (bitvecInit nbits).calls cs = .ok bv ∧ Follows nbits cs bv := by
  induction cs using List.reverseRecOn with
  | nil => exact ⟨_, calls_nil _, follows_init nbits⟩
  | append_singleton cs c ih =>
      obtain ⟨bv, hrun, hf⟩ := ih fun c' hc' => hcs c' (List.mem_append_left _ hc')
      have hc : c.idx < nbits := hcs c (List.mem_append_right _ (List.mem_singleton.mpr rfl))
      obtain ⟨bv', hcall, hf'⟩ := hf.call hsep hc
      refine ⟨bv', ?_, hf'⟩
      rw [calls_concat, hrun]
      exact hcall

theorem Separates.oneBitEach (hsep : Separates nbits) : OneBitEach nbits := by
  refine ⟨fun i hi => ?_, fun cs hcs => ?_⟩
  · rw [(follows_init nbits).length]
    exact hsep.1 i hi
  · obtain ⟨bv, hrun, hf⟩ := follows_calls hsep hcs
    refine ⟨bv, hrun, fun i hi => hf.get hsep hi, fun c hc => ?_⟩
    obtain ⟨bv', hcall, hf'⟩ := hf.call hsep hc
    refine ⟨bv', hcall, fun i hi hne => ?_⟩
    have hlast : LastSet i (cs ++ [c]) ↔ LastSet i cs := by
      rw [lastSet_concat, if_neg (Ne.symm hne)]
    rw [hf'.get hsep hi, hf.get hsep hi, decide_eq_decide.mpr hlast]

end Separated

/-- Two indices on one bit answer alike after the first of them is set. -/
theorem OneBitEach.separates {nbits : Nat} (h : OneBitEach nbits) : Separates nbits := by
  refine ⟨fun i hi => ?_, fun i hi j hj hsame => ?_⟩
  · have hlt := h.1 i hi
    rwa [(follows_init nbits).length] at hlt
  · by_contra hne
    obtain ⟨bv, hrun, hget, -⟩ := h.2 [.setBit i] (by simpa [Call.idx] using hi)
    have hi' := (get_ok (hget i hi)).2
    have hj' := (get_ok (hget j hj)).2
    rw [bit_congr bv hsame, hj'] at hi'
    have hset : LastSet i [.setBit i] := by simp [LastSet, Call.idx]
    have hclear : ¬LastSet j [.setBit i] := by simp [LastSet, Call.idx, hne]
    simp [hset, hclear] at hi'

theorem oneBitEach_iff_separates (nbits : Nat) : OneBitEach nbits ↔ Separates nbits :=
  ⟨OneBitEach.separates, Separates.oneBitEach⟩

/-! ### The vectors that separate their indices -/

theorem wordCount_of_le_sixtyFour {nbits : Nat} (h : nbits ≤ 64) (hpos : 0 < nbits) :
    wordCount nbits = 1 := by
  rw [wordCount, bitSize, sizeRange]
  omega

/-- Index 1 lies past the one word of a short vector, and shares its bit with index 9 in a longer
one. -/
theorem not_separates_of_two_le {nbits : Nat} (h : 2 ≤ nbits) : ¬Separates nbits := by
  rintro ⟨hword, hinj⟩
  by_cases hshort : nbits ≤ 64
  · have hlt := hword 1 (by omega)
    rw [wordCount_of_le_sixtyFour hshort (by omega)] at hlt
    exact absurd hlt (by decide)
  · have heq := hinj 1 (by omega) 9 (by omega) (by decide)
    omega

theorem separates_of_le_one {nbits : Nat} (h : nbits ≤ 1) : Separates nbits := by
  refine ⟨fun i hi => ?_, fun i hi j hj _ => by omega⟩
  have hzero : i = 0 := by omega
  rw [wordCount_of_le_sixtyFour (by omega) (by omega), hzero]
  decide

/-- The interface is met by the vectors of at most one bit and by no others. -/
theorem oneBitEach_iff (nbits : Nat) : OneBitEach nbits ↔ nbits ≤ 1 := by
  rw [oneBitEach_iff_separates]
  refine ⟨fun h => ?_, separates_of_le_one⟩
  by_contra hlt
  exact not_separates_of_two_le (by omega) h

/-- In a vector of 128 bits a set of index 1 answers for index 9 too, and a vector of 2 bits has no
word for its index 1. -/
theorem oneBitEach_fails :
    ¬OneBitEach 128 ∧ ¬OneBitEach 2 ∧
      ((bitvecInit 128).calls [.setBit 1] >>= fun bv => bv.bitvecGetBit 9) = .ok true ∧
      (bitvecInit 2).calls [.setBit 1] = .error .wordOutOfBounds := by
  refine ⟨?_, ?_, by decide +kernel, by decide +kernel⟩
  · intro h
    exact not_separates_of_two_le (by decide) h.separates
  · intro h
    exact not_separates_of_two_le (by decide) h.separates

end Bitvec

end RpcMt
