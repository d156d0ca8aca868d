import Mathlib.Data.List.Induction
import RpcMt.Bitvec

/-! The list of top-level allocations of `svc_debug.c`. `svc_l1_alloc` enters each pointer into `l1_vec`, which
it makes longer when `l1_len` has come to `l1_size`; but it does not write down the new size, and so it makes
the array anew, to the same length, at every call from then on. -/

namespace RpcMt

/-- `l1_vec`: a null pointer, a pointer to a block with its entries, or one to a block that was freed. -/
inductive L1Vec (P : Type) where
  | null
  | live (block : List (Option P))
  | freed
  deriving DecidableEq

structure TopLevel (P : Type) where
  l1Vec : L1Vec P
  l1Size : Nat
  l1Len : Nat
  deriving DecidableEq

namespace TopLevel

variable {P : Type}

def start : TopLevel P := ⟨.null, 0, 0⟩

def l1InitSize : Nat := 64

/-- `guard_malloc`, for a block of entries that hold nothing yet. -/
def guardMalloc (n : Nat) : List (Option P) := List.replicate n none

def guardRealloc (block : List (Option P)) (n : Nat) : List (Option P) :=
  block.take n ++ List.replicate (n - block.length) none

/-- `svc_l1_alloc`, with the pointer that `guard_malloc` gives it. -/
def svcL1Alloc (p : P) (s : TopLevel P) : Res (TopLevel P) :=
  let s : TopLevel P := match s.l1Vec with
    | .null => ⟨.live (guardMalloc l1InitSize), l1InitSize, 0⟩
    | _ => s
  match s.l1Vec with
  | .live block =>
      let block := if s.l1Size ≤ s.l1Len then guardRealloc block (s.l1Size * 16 / 10) else block
      if s.l1Len < block.length then
        .ok { s with l1Vec := .live (block.set s.l1Len (some p)), l1Len := s.l1Len + 1 }
      else .error .slotOutOfBounds
  | _ => .error .badPointer

/-- The calls that record the pointers `ps`. -/
def allocAll : List P → TopLevel P → Res (TopLevel P)
  | [], s => .ok s
  | p :: ps, s => do
      let s ← s.svcL1Alloc p
      allocAll ps s

/-- The entries that a block has when `n` pointers are recorded. -/
def capacity (n : Nat) : Nat := if n ≤ l1InitSize then l1InitSize else l1InitSize * 16 / 10

/-- The pointers are in their places, in a block that has room for them. -/
inductive Records : List P → TopLevel P → Prop
  | null : Records [] start
  | live {ps : List P} {block : List (Option P)} (hne : ps ≠ []) (hlen : block.length = capacity ps.length)
      (hle : ps.length ≤ block.length) (hps : block.take ps.length = ps.map some) :
      Records ps ⟨.live block, l1InitSize, ps.length⟩

theorem capacity_le (n : Nat) : capacity n ≤ l1InitSize * 16 / 10 := by
  unfold capacity
  split
  · decide
  · exact Nat.le_refl _

/-- A block that has room at `l1_len` takes the pointer, and keeps what it holds. -/
theorem set_records {ps : List P} {block : List (Option P)} (p : P) (hlen : block.length = capacity (ps.length + 1))
    (hlt : ps.length < block.length) (hps : block.take ps.length = ps.map some) :
    Records (ps ++ [p]) ⟨.live (block.set ps.length (some p)), l1InitSize, ps.length + 1⟩ := by
  have hsnoc : (ps ++ [p]).length = ps.length + 1 := by rw [List.length_append, List.length_singleton]
  rw [← hsnoc]
  refine .live (by simp) ?_ ?_ ?_
  · rw [List.length_set, hsnoc]
    exact hlen
  · rw [List.length_set, hsnoc]
    exact hlt
  · have htake : (block.set ps.length (some p)).take (ps.length + 1) =
        (block.set ps.length (some p)).take ps.length ++ [some p] := by
      rw [List.take_add_one, List.getElem?_set_self hlt]
      rfl
    rw [hsnoc, htake, List.take_set_of_le (Nat.le_refl _), hps, List.map_append]
    rfl

theorem Records.alloc {ps : List P} {s : TopLevel P} (h : Records ps s) (p : P)
    (hroom : ps.length < l1InitSize * 16 / 10) : ∃ t, s.svcL1Alloc p = .ok t ∧ Records (ps ++ [p]) t := by
  cases h with
  | null =>
      have hblock : (guardMalloc l1InitSize : List (Option P)).length = l1InitSize := List.length_replicate
      have hroom' : ([] : List P).length < (guardMalloc l1InitSize : List (Option P)).length := by
        rw [hblock, List.length_nil]
        decide
      refine ⟨_, ?_, set_records p hblock hroom' rfl⟩
      have hlong : ¬ l1InitSize ≤ 0 := by decide
      unfold svcL1Alloc start
      dsimp only
      rw [if_neg hlong]
      exact if_pos hroom'
  | @live _ block hne hlen hle hps =>
      by_cases hfull : l1InitSize ≤ ps.length
      · have hcap : capacity (ps.length + 1) = l1InitSize * 16 / 10 := if_neg (by omega)
        have hblock : block.length ≤ l1InitSize * 16 / 10 := by
          rw [hlen]
          exact capacity_le _
        have hgrown : (guardRealloc block (l1InitSize * 16 / 10)).length = capacity (ps.length + 1) := by
          unfold guardRealloc
          rw [List.length_append, List.length_take, List.length_replicate, hcap]
          omega
        have hroom' : ps.length < (guardRealloc block (l1InitSize * 16 / 10)).length := by
          rw [hgrown, hcap]
          exact hroom
        have hkept : (guardRealloc block (l1InitSize * 16 / 10)).take ps.length = ps.map some := by
          unfold guardRealloc
          rw [List.take_of_length_le hblock, List.take_append_of_le_length hle, hps]
        refine ⟨_, ?_, set_records p hgrown hroom' hkept⟩
        unfold svcL1Alloc
        dsimp only
        rw [if_pos hfull, if_pos hroom']
      · have hcap : capacity (ps.length + 1) = l1InitSize := if_pos (by omega)
        have hsame : capacity ps.length = l1InitSize := if_pos (by omega)
        have hroom' : ps.length < block.length := by
          rw [hlen, hsame]
          omega
        refine ⟨_, ?_, set_records p (by rw [hlen, hsame, hcap]) hroom' hps⟩
        unfold svcL1Alloc
        dsimp only
        rw [if_neg hfull, if_pos hroom']

theorem Records.length_le {ps : List P} {s : TopLevel P} (h : Records ps s) : ps.length ≤ l1InitSize * 16 / 10 := by
  cases h with
  | null => exact Nat.zero_le _
  | live _ hlen hle _ =>
      rw [hlen] at hle
      exact Nat.le_trans hle (capacity_le _)

theorem Records.not_freed {ps : List P} {s : TopLevel P} (h : Records ps s) : s.l1Vec ≠ .freed := by
  cases h <;> exact nofun

theorem Records.l1Len {ps : List P} {s : TopLevel P} (h : Records ps s) : s.l1Len = ps.length := by
  cases h <;> rfl

theorem Records.eq_start {s : TopLevel P} (h : Records [] s) : s = start := by
  cases h with
  | null => rfl
  | live hne => exact absurd rfl hne

/-- The call after the last one that there is room for writes behind the block. -/
theorem Records.full {ps : List P} {s : TopLevel P} (h : Records ps s) (p : P)
    (hfull : ps.length = l1InitSize * 16 / 10) : s.svcL1Alloc p = .error .slotOutOfBounds := by
  cases h with
  | null => cases hfull
  | @live _ block hne hlen hle hps =>
      have hsize : l1InitSize ≤ ps.length := by
        rw [hfull]
        decide
      have hgrown : ¬ ps.length < (guardRealloc block (l1InitSize * 16 / 10)).length := by
        have hblock := capacity_le ps.length
        unfold guardRealloc
        rw [List.length_append, List.length_take, List.length_replicate, hlen, hfull]
        omega
      unfold svcL1Alloc
      dsimp only
      rw [if_pos hsize, if_neg hgrown]

theorem allocAll_append (ps qs : List P) (s : TopLevel P) : allocAll (ps ++ qs) s = allocAll ps s >>= allocAll qs := by
  induction ps generalizing s with
  | nil => rfl
  | cons p ps ih =>
      rw [List.cons_append, allocAll, allocAll]
      cases s.svcL1Alloc p with
      | error e => rfl
      | ok t => exact ih t

theorem allocAll_records {ps : List P} (h : ps.length ≤ l1InitSize * 16 / 10) :
    ∃ s, allocAll ps start = .ok s ∧ Records ps s := by
  induction ps using List.reverseRecOn with
  | nil => exact ⟨start, rfl, .null⟩
  | append_singleton ps p ih =>
      rw [List.length_append, List.length_singleton] at h
      obtain ⟨s, hrun, hs⟩ := ih (by omega)
      obtain ⟨t, halloc, ht⟩ := hs.alloc p (by omega)
      refine ⟨t, ?_, ht⟩
      rw [allocAll_append, hrun]
      show (s.svcL1Alloc p >>= fun s => .ok s) = _
      rw [halloc]
      rfl

theorem allocAll_overflow {ps : List P} (h : l1InitSize * 16 / 10 < ps.length) :
    allocAll ps start = .error .slotOutOfBounds := by
  have hsplit : ps.take (l1InitSize * 16 / 10) ++ ps.drop (l1InitSize * 16 / 10) = ps := List.take_append_drop ..
  have hlen : (ps.take (l1InitSize * 16 / 10)).length = l1InitSize * 16 / 10 := List.length_take_of_le (Nat.le_of_lt h)
  obtain ⟨s, hrun, hs⟩ := allocAll_records (Nat.le_of_eq hlen)
  cases hrest : ps.drop (l1InitSize * 16 / 10) with
  | nil =>
      have hzero := congrArg List.length hrest
      rw [List.length_drop, List.length_nil] at hzero
      omega
  | cons p rest =>
      rw [hrest] at hsplit
      rw [← hsplit, allocAll_append, hrun]
      show (s.svcL1Alloc p >>= allocAll rest) = _
      rw [hs.full p hlen]
      rfl

/-- Every store is in the block that is allocated for `l1_vec`, and every pointer that was recorded is still in
its place. -/
def InPlace (ps : List P) : Prop :=
  ∃ s, allocAll ps start = .ok s ∧ s.l1Len = ps.length ∧
    (ps ≠ [] → ∃ block, s.l1Vec = .live block ∧ ps.length ≤ block.length ∧ block.take ps.length = ps.map some)

theorem svcL1Alloc_inPlace_iff (ps : List P) : InPlace ps ↔ ps.length ≤ 102 := by
  constructor
  · rintro ⟨s, hrun, _⟩
    by_contra hlong
    rw [allocAll_overflow (Nat.not_le.mp hlong)] at hrun
    cases hrun
  · intro hle
    obtain ⟨s, hrun, hs⟩ := allocAll_records hle
    refine ⟨s, hrun, ?_, ?_⟩
    · exact hs.l1Len
    · intro hne
      cases hs with
      | null => exact absurd rfl hne
      | @live _ block _ _ hle hps => exact ⟨block, rfl, hle, hps⟩

theorem svcL1Alloc_inPlace_counterexample : ¬ ∀ ps : List Nat, InPlace ps := by
  intro hall
  obtain ⟨s, hrun, _⟩ := hall (List.replicate 103 0)
  rw [allocAll_overflow (by rw [List.length_replicate]; decide)] at hrun
  cases hrun

end TopLevel

end RpcMt
