import Mathlib.Data.List.Basic
import Mathlib.Logic.Function.Basic

/-! Arrays that a program allocates and frees, and the named variables that point to them. A pointer
is the number of the allocation it came from. Freeing an array leaves the variable as it was, so a
variable may dangle; no two variables hold one pointer, and no allocation uses a number twice. -/

namespace RpcMt.Arrays

/-- `ptr` is what each variable holds, where `none` is NULL, and `size` the length of each array that
has been allocated and not freed. -/
structure Heap (G : Type) where
  ptr : G → Option Nat
  size : Nat → Option Nat
  next : Nat
  ptr_lt : ∀ g b, ptr g = some b → b < next
  ptr_inj : ∀ g g' b, ptr g = some b → ptr g' = some b → g = g'

namespace Heap

variable {G : Type}

def empty : Heap G :=
  { ptr := fun _ => none
    size := fun _ => none
    next := 0
    ptr_lt := fun _ _ h => nomatch h
    ptr_inj := fun _ _ _ h => nomatch h }

/-- The length of the array at a pointer, if there is one. -/
def find (h : Heap G) (p : Option Nat) : Option Nat := p.bind h.size

def arr (h : Heap G) (g : G) : Option Nat := h.find (h.ptr g)

/-- `free(p)`: nothing for NULL, and a fault for an array that is not there. -/
def free (h : Heap G) : Option Nat → Option (Heap G)
  | none => some h
  | some b =>
      if (h.size b).isSome then some { h with size := Function.update h.size b none } else none

/-- Freeing what a variable points to is no fault. -/
def Freeable (h : Heap G) (g : G) : Prop := h.ptr g = none ∨ (h.arr g).isSome

/-- A variable and its array are as they were. -/
def Same (h h' : Heap G) (g : G) : Prop := h'.ptr g = h.ptr g ∧ h'.arr g = h.arr g

theorem Same.refl (h : Heap G) (g : G) : Same h h g := ⟨rfl, rfl⟩

theorem Same.trans {h₁ h₂ h₃ : Heap G} {g : G} (h12 : Same h₁ h₂ g) (h23 : Same h₂ h₃ g) :
    Same h₁ h₃ g :=
  ⟨h23.1.trans h12.1, h23.2.trans h12.2⟩

theorem Same.freeable {h h' : Heap G} {g : G} (hs : Same h h' g) (hf : h.Freeable g) :
    h'.Freeable g := by
  unfold Freeable
  rw [hs.1, hs.2]
  exact hf

theorem ptr_of_arr {h : Heap G} {g : G} (harr : (h.arr g).isSome) : (h.ptr g).isSome := by
  unfold arr find at harr
  cases hp : h.ptr g with
  | none => simp [hp] at harr
  | some b => rfl

variable [DecidableEq G]

/-- `g = malloc(n)`. -/
def malloc (h : Heap G) (g : G) (n : Nat) : Heap G :=
  { ptr := Function.update h.ptr g (some h.next)
    size := Function.update h.size h.next (some n)
    next := h.next + 1
    ptr_lt := by
      intro g' b hp
      by_cases hg : g' = g
      · subst hg
        simp only [Function.update_self, Option.some.injEq] at hp
        omega
      · rw [Function.update_of_ne hg] at hp
        exact Nat.lt_succ_of_lt (h.ptr_lt g' b hp)
    ptr_inj := by
      intro g₁ g₂ b h₁ h₂
      by_cases hg₁ : g₁ = g
      · by_cases hg₂ : g₂ = g
        · rw [hg₁, hg₂]
        · subst hg₁
          simp only [Function.update_self, Option.some.injEq] at h₁
          rw [Function.update_of_ne hg₂] at h₂
          have hlt := h.ptr_lt g₂ b h₂
          omega
      · rw [Function.update_of_ne hg₁] at h₁
        by_cases hg₂ : g₂ = g
        · subst hg₂
          simp only [Function.update_self, Option.some.injEq] at h₂
          have hlt := h.ptr_lt g₁ b h₁
          omega
        · rw [Function.update_of_ne hg₂] at h₂
          exact h.ptr_inj g₁ g₂ b h₁ h₂ }

/-- `g = NULL`. -/
def clear (h : Heap G) (g : G) : Heap G :=
  { h with
    ptr := Function.update h.ptr g none
    ptr_lt := by
      intro g' b hp
      by_cases hg : g' = g
      · subst hg
        simp at hp
      · rw [Function.update_of_ne hg] at hp
        exact h.ptr_lt g' b hp
    ptr_inj := by
      intro g₁ g₂ b h₁ h₂
      by_cases hg₁ : g₁ = g
      · subst hg₁
        simp at h₁
      · by_cases hg₂ : g₂ = g
        · subst hg₂
          simp at h₂
        · rw [Function.update_of_ne hg₁] at h₁
          rw [Function.update_of_ne hg₂] at h₂
          exact h.ptr_inj g₁ g₂ b h₁ h₂ }

/-- `g = realloc(g, n)`. -/
def realloc (h : Heap G) (g : G) (n : Nat) : Option (Heap G) :=
  (h.free (h.ptr g)).map fun h => h.malloc g n

def mallocAll (h : Heap G) (gs : List G) (n : Nat) : Heap G := gs.foldl (fun h g => h.malloc g n) h

def freeAll (h : Heap G) : List G → Option (Heap G)
  | [] => some h
  | g :: gs => (h.free (h.ptr g)).bind fun h => h.freeAll gs

/-- `free(g); g = NULL` for each of them. -/
def dropAll (h : Heap G) : List G → Option (Heap G)
  | [] => some h
  | g :: gs => (h.free (h.ptr g)).bind fun h => (h.clear g).dropAll gs

/-! ### What each operation does to the variables and their arrays -/

@[simp] theorem arr_malloc_self (h : Heap G) (g : G) (n : Nat) : (h.malloc g n).arr g = some n := by
  simp [arr, find, malloc]

theorem same_malloc (h : Heap G) {g g' : G} (n : Nat) (hne : g' ≠ g) : Same h (h.malloc g n) g' := by
  have hptr : (h.malloc g n).ptr g' = h.ptr g' := Function.update_of_ne hne _ _
  refine ⟨hptr, ?_⟩
  unfold arr
  rw [hptr]
  cases hp : h.ptr g' with
  | none => rfl
  | some b =>
      have hb : b ≠ h.next := Nat.ne_of_lt (h.ptr_lt g' b hp)
      simp [find, malloc, Function.update_of_ne hb]

@[simp] theorem ptr_clear_self (h : Heap G) (g : G) : (h.clear g).ptr g = none := by
  simp [clear]

theorem same_clear (h : Heap G) {g g' : G} (hne : g' ≠ g) : Same h (h.clear g) g' := by
  have hptr : (h.clear g).ptr g' = h.ptr g' := Function.update_of_ne hne _ _
  refine ⟨hptr, ?_⟩
  unfold arr
  rw [hptr]
  rfl

omit [DecidableEq G] in
theorem free_null {h : Heap G} {g : G} (hp : h.ptr g = none) : h.free (h.ptr g) = some h := by
  rw [hp]
  rfl

omit [DecidableEq G] in
/-- Only the variable whose array is freed sees it go. -/
theorem free_freeable {h : Heap G} {g : G} (hf : h.Freeable g) :
    ∃ h', h.free (h.ptr g) = some h' ∧ h'.ptr = h.ptr ∧ ∀ g', g' ≠ g → Same h h' g' := by
  rcases hf with hnull | hlive
  · exact ⟨h, free_null hnull, rfl, fun g' _ => Same.refl h g'⟩
  · cases hp : h.ptr g with
    | none => exact ⟨h, rfl, rfl, fun g' _ => Same.refl h g'⟩
    | some b =>
        have hb : (h.size b).isSome := by
          unfold arr find at hlive
          rwa [hp] at hlive
        refine ⟨{ h with size := Function.update h.size b none }, if_pos hb, rfl, ?_⟩
        intro g' hne
        refine ⟨rfl, ?_⟩
        show (h.ptr g').bind _ = (h.ptr g').bind h.size
        cases hp' : h.ptr g' with
        | none => rfl
        | some b' =>
            have hbb : b' ≠ b := fun heq => hne (h.ptr_inj g' g b (heq ▸ hp') hp)
            exact Function.update_of_ne hbb _ _

theorem realloc_freeable {h : Heap G} {g : G} (n : Nat) (hf : h.Freeable g) :
    ∃ h', h.realloc g n = some h' ∧ h'.arr g = some n ∧ ∀ g', g' ≠ g → Same h h' g' := by
  obtain ⟨h₁, hfree, _, hsame⟩ := free_freeable hf
  refine ⟨h₁.malloc g n, ?_, arr_malloc_self h₁ g n, ?_⟩
  · unfold realloc
    rw [hfree]
    rfl
  · intro g' hne
    exact (hsame g' hne).trans (same_malloc h₁ n hne)

theorem same_mallocAll (h : Heap G) {gs : List G} {g : G} (n : Nat) (hg : g ∉ gs) :
    Same h (h.mallocAll gs n) g := by
  induction gs generalizing h with
  | nil => exact Same.refl h g
  | cons g' gs ih =>
      rw [List.mem_cons, not_or] at hg
      exact (same_malloc h n hg.1).trans (ih (h.malloc g' n) hg.2)

theorem arr_mallocAll (h : Heap G) {gs : List G} {g : G} (n : Nat) (hg : g ∈ gs) :
    (h.mallocAll gs n).arr g = some n := by
  induction gs generalizing h with
  | nil => cases hg
  | cons g' gs ih =>
      by_cases hmem : g ∈ gs
      · exact ih (h.malloc g' n) hmem
      · have heq : g = g' := (List.mem_cons.mp hg).resolve_right hmem
        have hsame := same_mallocAll (h.malloc g' n) n hmem
        calc ((h.malloc g' n).mallocAll gs n).arr g
            = (h.malloc g' n).arr g := hsame.2
          _ = some n := by rw [heq, arr_malloc_self]

omit [DecidableEq G] in
/-- Arrays of different variables are all freed, and no other is. -/
theorem freeAll_freeable {h : Heap G} {gs : List G} (hnd : gs.Nodup) (hf : ∀ g ∈ gs, h.Freeable g) :
    ∃ h', h.freeAll gs = some h' ∧ h'.ptr = h.ptr ∧ ∀ g, g ∉ gs → Same h h' g := by
  induction gs generalizing h with
  | nil => exact ⟨h, rfl, rfl, fun g _ => Same.refl h g⟩
  | cons g gs ih =>
      obtain ⟨hg, hnd⟩ := List.nodup_cons.mp hnd
      obtain ⟨h₁, hfree, hptr₁, hsame₁⟩ := free_freeable (hf g List.mem_cons_self)
      have hrest : ∀ g' ∈ gs, h₁.Freeable g' := by
        intro g' hmem
        have hne : g' ≠ g := fun heq => hg (heq ▸ hmem)
        exact (hsame₁ g' hne).freeable (hf g' (List.mem_cons_of_mem g hmem))
      obtain ⟨h₂, hall, hptr₂, hsame₂⟩ := ih hnd hrest
      refine ⟨h₂, ?_, hptr₂.trans hptr₁, ?_⟩
      · rw [freeAll, hfree]
        exact hall
      · intro g' hmem
        rw [List.mem_cons, not_or] at hmem
        exact (hsame₁ g' hmem.1).trans (hsame₂ g' hmem.2)

theorem dropAll_freeable {h : Heap G} {gs : List G} (hnd : gs.Nodup)
    (hf : ∀ g ∈ gs, h.Freeable g) :
    ∃ h', h.dropAll gs = some h' ∧ (∀ g ∈ gs, h'.ptr g = none) ∧ ∀ g, g ∉ gs → Same h h' g := by
  induction gs generalizing h with
  | nil => exact ⟨h, rfl, fun g hmem => absurd hmem List.not_mem_nil, fun g _ => Same.refl h g⟩
  | cons g gs ih =>
      obtain ⟨hg, hnd⟩ := List.nodup_cons.mp hnd
      obtain ⟨h₁, hfree, _, hsame₁⟩ := free_freeable (hf g List.mem_cons_self)
      have hclear : ∀ g', g' ≠ g → Same h (h₁.clear g) g' :=
        fun g' hne => (hsame₁ g' hne).trans (same_clear h₁ hne)
      have hrest : ∀ g' ∈ gs, (h₁.clear g).Freeable g' := by
        intro g' hmem
        have hne : g' ≠ g := fun heq => hg (heq ▸ hmem)
        exact (hclear g' hne).freeable (hf g' (List.mem_cons_of_mem g hmem))
      obtain ⟨h₂, hall, hnull, hsame₂⟩ := ih hnd hrest
      refine ⟨h₂, ?_, ?_, ?_⟩
      · rw [dropAll, hfree]
        exact hall
      · intro g' hmem
        rcases List.mem_cons.mp hmem with heq | htail
        · rw [heq, (hsame₂ g hg).1, ptr_clear_self]
        · exact hnull g' htail
      · intro g' hmem
        rw [List.mem_cons, not_or] at hmem
        exact (hclear g' hmem.1).trans (hsame₂ g' hmem.2)

end Heap

end RpcMt.Arrays
