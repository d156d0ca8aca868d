import Mathlib.Data.List.Nodup
import Mathlib.Logic.Function.Basic

/-! Singly linked lists on a heap. The heap is seen through its link function alone: where a node's
link field points, `none` being the null pointer. A list of nodes is represented when the links pass
through exactly its members; removing a member re-points one link, adding one puts it in front. -/

namespace RpcMt.Links

variable {N : Type}

/-- Following the links from `p` passes through exactly the nodes of `l`, in this order. -/
def Path (next : N → Option N) : Option N → List N → Prop
  | p, [] => p = none
  | p, n :: l => p = some n ∧ Path next (next n) l

variable {next next' : N → Option N} {p : Option N} {n u v : N} {l l₁ l₂ : List N}

/-- Only the links of the members matter. -/
theorem Path.congr (h : Path next p l) (heq : ∀ m ∈ l, next' m = next m) : Path next' p l := by
  induction l generalizing p with
  | nil => exact h
  | cons m l ih =>
      obtain ⟨hp, hl⟩ := h
      refine ⟨hp, ?_⟩
      rw [heq m List.mem_cons_self]
      exact ih hl fun k hk => heq k (List.mem_cons_of_mem _ hk)

theorem Path.unique {l' : List N} (h : Path next p l) (h' : Path next p l') : l = l' := by
  induction l generalizing p l' with
  | nil =>
      cases l' with
      | nil => rfl
      | cons m l' => exact absurd (h.symm.trans h'.1) (by simp)
  | cons n l ih =>
      cases l' with
      | nil => exact absurd (h'.symm.trans h.1) (by simp)
      | cons m l' =>
          obtain rfl : n = m := Option.some.inj (h.1.symm.trans h'.1)
          rw [ih h.2 h'.2]

/-- What is left of a path after some of its nodes. -/
theorem Path.drop (h : Path next p (l₁ ++ v :: l₂)) : Path next (next v) l₂ := by
  induction l₁ generalizing p with
  | nil => exact h.2
  | cons m l₁ ih => exact ih h.2

/-- Re-pointing the link before `v` past it removes `v`. -/
theorem Path.unlink [DecidableEq N] (h : Path next p (l₁ ++ u :: v :: l₂))
    (hnodup : (l₁ ++ u :: v :: l₂).Nodup) :
    Path (Function.update next u (next v)) p (l₁ ++ u :: l₂) := by
  induction l₁ generalizing p with
  | nil =>
      obtain ⟨hp, _, hl⟩ := h
      have hu : u ∉ v :: l₂ := (List.nodup_cons.mp hnodup).1
      refine ⟨hp, ?_⟩
      rw [Function.update_self]
      apply hl.congr
      intro m hm
      have hmu : m ≠ u := fun heq => hu (heq ▸ List.mem_cons_of_mem _ hm)
      rw [Function.update_of_ne hmu]
  | cons m l₁ ih =>
      obtain ⟨hp, hl⟩ := h
      obtain ⟨hm, hrest⟩ := List.nodup_cons.mp hnodup
      have hmu : m ≠ u := by
        intro heq
        apply hm
        rw [heq]
        simp
      refine ⟨hp, ?_⟩
      rw [Function.update_of_ne hmu]
      exact ih hl hrest

/-- A new node in front of a path. -/
theorem Path.push (h : Path next p l) (hn : next' n = p) (heq : ∀ m ∈ l, next' m = next m) :
    Path next' (some n) (n :: l) := ⟨rfl, hn ▸ h.congr heq⟩

end RpcMt.Links
