import Mathlib.Logic.Function.Basic
import RpcMt.Bitvec
import RpcMt.Footprints

/-! The decode buffers of `dbuf-thread.c`. A thread has a `dbuf_t` of its own, which it finds under a key, and in it
an array of the buffers that it was given since it last let them all go. The heap is strict: what is not live is
not read, written or freed without a fault. Threads take turns call by call. -/

namespace RpcMt.DbufThread

open Footprints

/-- An entry of `dbufv`; one that was never written holds nothing. -/
inductive Slot where
  | unset
  | null
  | to (buf : Nat)
  deriving DecidableEq

structure Dbuf where
  dbufv : Option Nat
  sz : Nat
  len : Nat
  deriving DecidableEq

/-- A live block: a buffer, an array, a `dbuf_t`. -/
inductive Block where
  | chars (bufsz : Nat)
  | slots (dbufv : List Slot)
  | dbuf (d : Dbuf)
  deriving DecidableEq

abbrev Mem := Nat → Option Block

/-- `malloc` and `realloc`: what a call answers, of how many there were before it and what is live. A block is free
memory, or the old block where it is made longer or shorter in its place, and no block has `PTRDIFF_MAX` bytes. -/
structure Heap where
  malloc : Nat → Mem → Nat → Option Nat
  realloc : Nat → Mem → Nat → Nat → Option Nat
  malloc_free : ∀ {calls mem size p}, malloc calls mem size = some p → mem p = none
  malloc_size : ∀ {calls mem size p}, malloc calls mem size = some p → size < 2 ^ 63
  realloc_free : ∀ {calls mem old size p}, realloc calls mem old size = some p → p = old ∨ mem p = none
  realloc_size : ∀ {calls mem old size p}, realloc calls mem old size = some p → size < 2 ^ 63

/-- Memory, the calls of the allocator so far, and what each thread has under `dbuf_key`. -/
structure World (T : Type) where
  mem : Mem
  calls : Nat
  specific : T → Option Nat

variable {T : Type}

namespace World

def start : World T := ⟨fun _ => none, 0, fun _ => none⟩

def put (w : World T) (p : Nat) (b : Block) : World T := { w with mem := Function.update w.mem p (some b) }

def dbufAt (w : World T) (p : Nat) : Res Dbuf :=
  match w.mem p with
  | some (.dbuf d) => .ok d
  | _ => .error .badPointer

def slotsAt (w : World T) (dbufv : Option Nat) : Res (Nat × List Slot) :=
  match dbufv with
  | none => .error .badPointer
  | some a => match w.mem a with
    | some (.slots entries) => .ok (a, entries)
    | _ => .error .badPointer

/-- `dbufv[i] = x`. -/
def setSlot (w : World T) (dbufv : Option Nat) (i : Nat) (x : Slot) : Res (World T) := do
  let (a, entries) ← w.slotsAt dbufv
  if i < entries.length then .ok (w.put a (.slots (entries.set i x))) else .error .slotOutOfBounds

/-- `dbufv[i]`. -/
def slot (w : World T) (dbufv : Option Nat) (i : Nat) : Res Slot := do
  let (_, entries) ← w.slotsAt dbufv
  match entries[i]? with
  | some x => .ok x
  | none => .error .slotOutOfBounds

def free (w : World T) (p : Nat) : Res (World T) :=
  match w.mem p with
  | some _ => .ok { w with mem := Function.update w.mem p none }
  | none => .error .badPointer

end World

def dbufInitSize : Nat := 16

/-- `guard_malloc`, of a block that its caller makes into `b`. -/
def guardMalloc (heap : Heap) (size : Nat) (b : Block) (w : World T) : Res (Nat × World T) :=
  match heap.malloc w.calls w.mem size with
  | none => .error .svcDie
  | some p => .ok (p, { w.put p b with calls := w.calls + 1 })

/-- `guard_realloc` of an array. -/
def guardRealloc (heap : Heap) (old : Option Nat) (size : Nat) (w : World T) : Res (Nat × World T) := do
  let (a, entries) ← w.slotsAt old
  match heap.realloc w.calls w.mem a size with
  | none => .error .svcDie
  | some p =>
      let entries := entries.take (size / 8) ++ List.replicate (size / 8 - entries.length) .unset
      .ok (p, { { w with mem := Function.update w.mem a none }.put p (.slots entries) with calls := w.calls + 1 })

/-- `dbuf_new`, with `dbuf_init`. -/
def dbufNew (heap : Heap) (w : World T) : Res (Nat × World T) := guardMalloc heap 24 (.dbuf ⟨none, 0, 0⟩) w

/-- `dbuf_grow`; the sizes are of type `size_t`. -/
def dbufGrow (heap : Heap) (dbuf : Nat) (w : World T) : Res (World T) := do
  let d ← w.dbufAt dbuf
  let (newDbufv, newDbufSz, w) ←
    if d.sz = 0 then do
      let szBytes := dbufInitSize * 8 % sizeRange
      let (p, w) ← guardMalloc heap szBytes (.slots (List.replicate (szBytes / 8) .unset)) w
      pure (p, dbufInitSize, w)
    else do
      let newDbufSz := d.sz * 16 % sizeRange / 10
      let (p, w) ← guardRealloc heap d.dbufv (newDbufSz * 8 % sizeRange) w
      pure (p, newDbufSz, w)
  .ok (w.put dbuf (.dbuf { d with dbufv := some newDbufv, sz := newDbufSz }))

variable [DecidableEq T]

/-- The calling thread's `dbuf_t`, made at its first call. -/
def dbufOf (heap : Heap) (t : T) (w : World T) : Res (Nat × World T) :=
  match w.specific t with
  | some dbuf => .ok (dbuf, w)
  | none => do
      let (dbuf, w) ← dbufNew heap w
      .ok (dbuf, { w with specific := Function.update w.specific t (some dbuf) })

def dbufThreadAlloc (heap : Heap) (t : T) (bufsz : Nat) (w : World T) : Res (Nat × World T) := do
  let (dbuf, w) ← dbufOf heap t w
  let d ← w.dbufAt dbuf
  let w ← (if d.sz ≤ d.len then dbufGrow heap dbuf w else .ok w)
  let (newBuf, w) ← guardMalloc heap bufsz (.chars bufsz) w
  let d ← w.dbufAt dbuf
  let w ← w.setSlot d.dbufv d.len (.to newBuf)
  .ok (newBuf, w.put dbuf (.dbuf { d with len := d.len + 1 }))

/-- The loop of `dbuf_thread_free_all`, from `bnr` on. -/
def freeAllLoop (dbuf : Nat) : Nat → Nat → World T → Res (World T)
  | 0, _, w => .ok w
  | left + 1, bnr, w => do
      let d ← w.dbufAt dbuf
      let w ← match ← w.slot d.dbufv bnr with
        | .unset => .error .badPointer
        | .null => .ok w
        | .to buf => do
            let w ← w.free buf
            w.setSlot d.dbufv bnr .null
      freeAllLoop dbuf left (bnr + 1) w

def dbufThreadFreeAll (dbuf : Nat) (w : World T) : Res (World T) := do
  let d ← w.dbufAt dbuf
  let w ← freeAllLoop dbuf d.len 0 w
  let d ← w.dbufAt dbuf
  .ok (w.put dbuf (.dbuf { d with len := 0 }))

def dbufThreadReset (t : T) (w : World T) : Res (World T) :=
  match w.specific t with
  | none => .ok w
  | some dbuf => dbufThreadFreeAll dbuf w

/-- The end of `dbuf_thread_cleanup`. -/
def freeDbufv (dbuf : Nat) (w : World T) : Res (World T) := do
  let d ← w.dbufAt dbuf
  match d.dbufv with
  | none => .ok w
  | some a => do
      let w ← w.free a
      .ok (w.put dbuf (.dbuf { d with dbufv := none, sz := 0 }))

def dbufThreadCleanup (t : T) (w : World T) : Res (World T) := do
  let w ← dbufThreadReset t w
  match w.specific t with
  | none => .ok w
  | some dbuf => freeDbufv dbuf w

/-! ### What a thread holds -/

/-- A thread's `dbuf_t`, its array, and the buffers in it, each with its size. -/
structure Pool where
  dbuf : Option Nat
  dbufv : Option Nat
  given : List (Nat × Nat)

namespace Pool

def Cell (s : Pool) (p : Nat) : Prop := s.dbuf = some p ∨ s.dbufv = some p ∨ p ∈ s.given.map Prod.fst

def unused : Pool := ⟨none, none, []⟩

/-- A pool with an array. -/
structure Full (mem : Mem) (dbuf a : Nat) (entries : List Slot) (given : List (Nat × Nat)) : Prop where
  dbuf : mem dbuf = some (.dbuf ⟨some a, entries.length, given.length⟩)
  slots : mem a = some (.slots entries)
  least : dbufInitSize ≤ entries.length
  most : entries.length < 2 ^ 60
  room : given.length ≤ entries.length
  first : entries.take given.length = given.map fun g => .to g.1
  chars : ∀ g ∈ given, mem g.1 = some (.chars g.2)
  nodup : (given.map Prod.fst).Nodup

inductive Kept (mem : Mem) : Pool → Prop
  | unused : Kept mem unused
  | bare {p : Nat} (h : mem p = some (.dbuf ⟨none, 0, 0⟩)) : Kept mem ⟨some p, none, []⟩
  | full {p a : Nat} {entries : List Slot} {given : List (Nat × Nat)} (h : Full mem p a entries given) :
      Kept mem ⟨some p, some a, given⟩

variable {mem mem' : Mem} {s : Pool}

theorem Full.mono {dbuf a : Nat} {entries : List Slot} {given : List (Nat × Nat)} (h : Full mem dbuf a entries given)
    (hsame : ∀ p, Cell ⟨some dbuf, some a, given⟩ p → mem' p = mem p) : Full mem' dbuf a entries given where
  dbuf := by rw [hsame dbuf (Or.inl rfl), h.dbuf]
  slots := by rw [hsame a (Or.inr (Or.inl rfl)), h.slots]
  least := h.least
  most := h.most
  room := h.room
  first := h.first
  chars g hg := by rw [hsame g.1 (Or.inr (Or.inr (List.mem_map_of_mem hg))), h.chars g hg]
  nodup := h.nodup

theorem kept_local : Local Cell Kept := by
  intro s mem mem' hsame h
  cases h with
  | unused => exact .unused
  | @bare p h =>
      refine .bare ?_
      rw [hsame p (Or.inl rfl)]
      exact h
  | full h => exact .full (h.mono hsame)

/-- What a thread holds is live. -/
theorem Kept.live (h : s.Kept mem) (p : Nat) (hp : s.Cell p) : mem p ≠ none := by
  intro hnone
  cases h with
  | unused =>
      rcases hp with hp | hp | hp
      · cases hp
      · cases hp
      · exact absurd hp List.not_mem_nil
  | bare h =>
      rcases hp with hp | hp | hp
      · cases hp
        exact absurd (h.symm.trans hnone) (Option.some_ne_none _)
      · cases hp
      · exact absurd hp List.not_mem_nil
  | full h =>
      rcases hp with hp | hp | hp
      · cases hp
        exact absurd (h.dbuf.symm.trans hnone) (Option.some_ne_none _)
      · cases hp
        exact absurd (h.slots.symm.trans hnone) (Option.some_ne_none _)
      · obtain ⟨g, hg, rfl⟩ := List.mem_map.mp hp
        exact absurd ((h.chars g hg).symm.trans hnone) (Option.some_ne_none _)

theorem Kept.chars (h : s.Kept mem) (g : Nat × Nat) (hg : g ∈ s.given) : mem g.1 = some (.chars g.2) := by
  cases h with
  | unused => exact absurd hg List.not_mem_nil
  | bare => exact absurd hg List.not_mem_nil
  | full h => exact h.chars g hg

theorem Kept.nodup (h : s.Kept mem) : (s.given.map Prod.fst).Nodup := by
  cases h with
  | unused => exact List.nodup_nil
  | bare => exact List.nodup_nil
  | full h => exact h.nodup

/-- What a block is for: a buffer that the thread was given, the `dbuf_t` under its key, the array of this one. -/
def Holds (mem : Mem) (key : Option Nat) (given : List (Nat × Nat)) (p : Nat) : Block → Prop
  | .chars bufsz => (p, bufsz) ∈ given
  | .dbuf _ => key = some p
  | .slots _ => ∃ dbuf d, key = some dbuf ∧ mem dbuf = some (.dbuf d) ∧ d.dbufv = some p

theorem Kept.holds (h : s.Kept mem) {p : Nat} {b : Block} (hp : s.Cell p) (hb : mem p = some b) :
    Holds mem s.dbuf s.given p b := by
  cases h with
  | unused =>
      rcases hp with hp | hp | hp
      · cases hp
      · cases hp
      · exact absurd hp List.not_mem_nil
  | bare h =>
      rcases hp with hp | hp | hp
      · cases hp
        cases h.symm.trans hb
        exact rfl
      · cases hp
      · exact absurd hp List.not_mem_nil
  | full h =>
      rcases hp with hp | hp | hp
      · cases hp
        cases h.dbuf.symm.trans hb
        exact rfl
      · cases hp
        cases h.slots.symm.trans hb
        exact ⟨_, _, rfl, h.dbuf, rfl⟩
      · obtain ⟨g, hg, rfl⟩ := List.mem_map.mp hp
        cases (h.chars g hg).symm.trans hb
        exact hg

end Pool

/-! ### What a thread does with it -/

/-- A result that meets `Q`, or the end of the program for want of memory. -/
def UnlessDies {α : Type} (Q : α → Prop) : Res α → Prop
  | .ok v => Q v
  | .error e => e = .svcDie

theorem UnlessDies.bind {α β : Type} {Q : α → Prop} {R : β → Prop} {r : Res α} {f : α → Res β} (h : UnlessDies Q r)
    (hf : ∀ v, Q v → UnlessDies R (f v)) : UnlessDies R (r >>= f) := by
  cases r with
  | error e => exact h
  | ok v => exact hf v h

theorem UnlessDies.imp {α : Type} {Q R : α → Prop} {r : Res α} (h : UnlessDies Q r) (himp : ∀ v, Q v → R v) :
    UnlessDies R r := by
  cases r with
  | error e => exact h
  | ok v => exact himp v h

/-- Work of a thread, in its own cells and on its own key. -/
structure Works (t : T) (w w' : World T) (s s' : Pool) : Prop where
  before : w.specific t = s.dbuf
  specific : w'.specific = Function.update w.specific t s'.dbuf
  work : Work w.mem w'.mem s.Cell s'.Cell
  kept : s'.Kept w'.mem

variable {heap : Heap} {t : T} {w w₁ w' : World T} {s s₁ s' : Pool}

theorem Works.after (h : Works t w w' s s') : w'.specific t = s'.dbuf := by rw [h.specific, Function.update_self]

theorem Works.refl (hs : s.Kept w.mem) (ht : w.specific t = s.dbuf) : Works t w w s s where
  before := ht
  specific := by rw [← ht, Function.update_eq_self]
  work := Work.refl hs.live
  kept := hs

theorem Works.trans (h₁ : Works t w w₁ s s₁) (h₂ : Works t w₁ w' s₁ s') : Works t w w' s s' where
  before := h₁.before
  specific := by rw [h₂.specific, h₁.specific, Function.update_idem]
  work := h₁.work.trans h₂.work
  kept := h₂.kept

/-- Work that leaves the key as it is. -/
theorem Works.within (hs : w.specific t = s.dbuf) (hs' : s'.dbuf = s.dbuf) (hkey : w'.specific = w.specific)
    (hw : Work w.mem w'.mem s.Cell s'.Cell) (hkept : s'.Kept w'.mem) : Works t w w' s s' where
  before := hs
  specific := by rw [hkey, hs', ← hs, Function.update_eq_self]
  work := hw
  kept := hkept

/-! ### Memory that is asked for -/

omit [DecidableEq T] in
/-- A block from `guard_malloc` was free. -/
theorem guardMalloc_spec (heap : Heap) (size : Nat) (b : Block) (w : World T) :
    UnlessDies (fun r => w.mem r.1 = none ∧ size < 2 ^ 63 ∧ r.2.mem = Function.update w.mem r.1 (some b) ∧
      r.2.specific = w.specific) (guardMalloc heap size b w) := by
  unfold guardMalloc
  split
  · exact rfl
  · rename_i p hp
    exact ⟨heap.malloc_free hp, heap.malloc_size hp, rfl, rfl⟩

omit [DecidableEq T] in
theorem dbufAt_eq {p : Nat} {d : Dbuf} (h : w.mem p = some (.dbuf d)) : w.dbufAt p = .ok d := by
  unfold World.dbufAt
  rw [h]

omit [DecidableEq T] in
theorem slotsAt_eq {a : Nat} {entries : List Slot} (h : w.mem a = some (.slots entries)) :
    w.slotsAt (some a) = .ok (a, entries) := by
  unfold World.slotsAt
  dsimp only
  rw [h]

omit [DecidableEq T] in
theorem setSlot_eq {a i : Nat} {entries : List Slot} (h : w.mem a = some (.slots entries)) (hi : i < entries.length)
    (x : Slot) : w.setSlot (some a) i x = .ok (w.put a (.slots (entries.set i x))) := by
  unfold World.setSlot
  rw [slotsAt_eq h]
  exact if_pos hi

omit [DecidableEq T] in
theorem slot_eq {a i : Nat} {x : Slot} {entries : List Slot} (h : w.mem a = some (.slots entries))
    (hx : entries[i]? = some x) : w.slot (some a) i = .ok x := by
  unfold World.slot
  rw [slotsAt_eq h]
  show (match entries[i]? with | some x => Except.ok x | none => Except.error Fault.slotOutOfBounds) = _
  rw [hx]

theorem dbufOf_spec (heap : Heap) (hs : s.Kept w.mem) (ht : w.specific t = s.dbuf) :
    UnlessDies (fun r => ∃ s', s'.dbuf = some r.1 ∧ s'.given = s.given ∧ Works t w r.2 s s') (dbufOf heap t w) := by
  unfold dbufOf
  cases hs with
  | unused =>
      rw [ht]
      refine (guardMalloc_spec heap 24 _ w).bind ?_
      rintro ⟨p, w₁⟩ ⟨hfree, -, hmem, hkey⟩
      refine ⟨⟨some p, none, []⟩, rfl, rfl, ht, ?_, ?_, ?_⟩
      · rw [← hkey]
      · have hwork := Work.take (@Pool.Kept.unused w.mem).live hfree (.dbuf ⟨none, 0, 0⟩)
        rw [← hmem] at hwork
        refine hwork.congr (fun a => Iff.rfl) fun a => ?_
        simp only [Pool.Cell, Pool.unused, reduceCtorEq, List.map_nil, List.not_mem_nil, or_false, Option.some.injEq,
          eq_comm]
      · refine .bare ?_
        rw [hmem, Function.update_self]
  | bare h =>
      rw [ht]
      exact ⟨_, rfl, rfl, .refl (.bare h) ht⟩
  | full h =>
      rw [ht]
      exact ⟨_, rfl, rfl, .refl (.full h) ht⟩

/-! ### The array made longer -/

theorem dbufGrow_bare {p : Nat} (h : w.mem p = some (.dbuf ⟨none, 0, 0⟩)) (ht : w.specific t = some p) :
    UnlessDies (fun w' => ∃ a entries, 0 < entries.length ∧ Pool.Full w'.mem p a entries [] ∧
      Works t w w' ⟨some p, none, []⟩ ⟨some p, some a, []⟩) (dbufGrow heap p w) := by
  unfold dbufGrow
  rw [dbufAt_eq h]
  refine (guardMalloc_spec heap 128 (.slots (List.replicate 16 .unset)) w).bind ?_
  rintro ⟨a, w₁⟩ ⟨hfree, -, hmem, hkey⟩
  have hpa : p ≠ a := by
    rintro rfl
    exact absurd (h.symm.trans hfree) (Option.some_ne_none _)
  have hold := (Pool.Kept.bare h).live
  have htaken := Work.take hold hfree (.slots (List.replicate 16 .unset))
  rw [← hmem] at htaken
  have hwritten := Work.write htaken.there (Or.inr (Or.inl rfl)) (.dbuf ⟨some a, 16, 0⟩)
  have hfull : Pool.Full (Function.update w₁.mem p (some (.dbuf ⟨some a, 16, 0⟩))) p a (List.replicate 16 .unset) [] :=
    { dbuf := Function.update_self _ _ _
      slots := by rw [Function.update_of_ne hpa.symm, hmem, Function.update_self]
      least := Nat.le_refl 16
      most := by decide
      room := Nat.zero_le _
      first := rfl
      chars := fun _ hg => absurd hg List.not_mem_nil
      nodup := List.nodup_nil }
  refine ⟨a, _, by decide, hfull, .within ht rfl hkey ?_ (.full hfull)⟩
  refine (htaken.trans hwritten).congr (fun b => Iff.rfl) fun b => ?_
  simp only [Pool.Cell, reduceCtorEq, List.map_nil, List.not_mem_nil, or_false, Option.some.injEq]
  rw [or_comm, @eq_comm _ b a]

omit [DecidableEq T] in
/-- The array's address after `guard_realloc` was its own or free. -/
theorem guardRealloc_spec (heap : Heap) {a size : Nat} {entries : List Slot} (h : w.mem a = some (.slots entries)) :
    UnlessDies (fun r => Function.update w.mem a none r.1 = none ∧ size < 2 ^ 63 ∧
      r.2.mem = Function.update (Function.update w.mem a none) r.1
        (some (.slots (entries.take (size / 8) ++ List.replicate (size / 8 - entries.length) .unset))) ∧
      r.2.specific = w.specific) (guardRealloc heap (some a) size w) := by
  unfold guardRealloc
  rw [slotsAt_eq h]
  show UnlessDies _ (match heap.realloc w.calls w.mem a size with | none => _ | some p => _)
  split
  · exact rfl
  · rename_i p hp
    refine ⟨?_, heap.realloc_size hp, rfl, rfl⟩
    by_cases hpa : p = a
    · rw [hpa, Function.update_self]
    · rw [Function.update_of_ne hpa]
      exact (heap.realloc_free hp).resolve_left hpa

/-- The address of a full pool's array is none of its others. -/
theorem Pool.Full.apart {mem : Mem} {p a b : Nat} {entries : List Slot} {given : List (Nat × Nat)}
    (h : Full mem p a entries given) (hb : some p = some b ∨ b ∈ given.map Prod.fst) : b ≠ a := by
  rintro rfl
  rcases hb with hb | hb
  · cases hb
    exact absurd (h.dbuf.symm.trans h.slots) (by simp)
  · obtain ⟨g, hg, rfl⟩ := List.mem_map.mp hb
    exact absurd ((h.chars g hg).symm.trans h.slots) (by simp)

theorem Pool.Full.cell_iff {mem : Mem} {p a a' b : Nat} {entries : List Slot} {given : List (Nat × Nat)}
    (h : Full mem p a entries given) :
    (b = a' ∨ Cell ⟨some p, some a, given⟩ b ∧ b ≠ a) ↔ Cell ⟨some p, some a', given⟩ b := by
  constructor
  · rintro (rfl | ⟨hb | hb | hb, hne⟩)
    · exact Or.inr (Or.inl rfl)
    · exact Or.inl hb
    · cases hb
      exact absurd rfl hne
    · exact Or.inr (Or.inr hb)
  · rintro (hb | hb | hb)
    · exact Or.inr ⟨Or.inl hb, h.apart (Or.inl hb)⟩
    · cases hb
      exact Or.inl rfl
    · exact Or.inr ⟨Or.inr (Or.inr hb), h.apart (Or.inr hb)⟩

/-- The sizes that `dbuf_grow` computes do not wrap around. -/
theorem grown_size {sz : Nat} (hleast : dbufInitSize ≤ sz) (hmost : sz < 2 ^ 60) :
    sz < sz * 16 % sizeRange / 10 ∧ sz * 16 % sizeRange / 10 * 8 % sizeRange = sz * 16 % sizeRange / 10 * 8 := by
  unfold dbufInitSize at hleast
  unfold sizeRange
  omega

theorem dbufGrow_full {p a : Nat} {entries : List Slot} {given : List (Nat × Nat)}
    (h : Pool.Full w.mem p a entries given) (ht : w.specific t = some p) :
    UnlessDies (fun w' => ∃ a' entries', entries.length < entries'.length ∧ Pool.Full w'.mem p a' entries' given ∧
      Works t w w' ⟨some p, some a, given⟩ ⟨some p, some a', given⟩) (dbufGrow heap p w) := by
  obtain ⟨sz, hsz⟩ : ∃ sz, sz = entries.length * 16 % sizeRange / 10 := ⟨_, rfl⟩
  obtain ⟨hgrows, hbytes⟩ := grown_size h.least h.most
  rw [← hsz] at hgrows hbytes
  have hleast := h.least
  have hinit : dbufInitSize = 16 := rfl
  unfold dbufGrow
  rw [dbufAt_eq h.dbuf]
  change UnlessDies _ (if entries.length = 0 then _ else _)
  rw [if_neg (by omega)]
  refine (guardRealloc_spec heap h.slots).bind ?_
  rintro ⟨a', w₁⟩ ⟨hfree, hmax, hmem, hkey⟩
  dsimp only at hfree hmax hmem hkey
  rw [← hsz, hbytes] at hmax hmem
  rw [Nat.mul_div_cancel _ (by decide)] at hmem
  obtain ⟨new, hnew⟩ : ∃ new, new = entries.take sz ++ List.replicate (sz - entries.length) .unset := ⟨_, rfl⟩
  have hlen : new.length = sz := by
    rw [hnew, List.length_append, List.length_take, List.length_replicate]
    omega
  rw [← hnew] at hmem
  have hgiven := Work.give (Pool.Kept.full h).live (Or.inr (Or.inl rfl) : Pool.Cell ⟨some p, some a, given⟩ a)
  have htaken := Work.take hgiven.there hfree (.slots new)
  rw [← hmem] at htaken
  have hwritten := Work.write htaken.there (p := p) (Or.inr ⟨Or.inl rfl, h.apart (Or.inl rfl)⟩)
    (.dbuf ⟨some a', sz, given.length⟩)
  have hkept : ∀ b, some p = some b ∨ b ∈ given.map Prod.fst → b ≠ a' ∧ w₁.mem b = w.mem b := by
    intro b hb
    have hba := h.apart hb
    have hlive := (Pool.Kept.full h).live b (hb.imp id Or.inr)
    have hba' : b ≠ a' := by
      rintro rfl
      rw [Function.update_of_ne hba] at hfree
      exact hlive hfree
    refine ⟨hba', ?_⟩
    rw [hmem, Function.update_of_ne hba', Function.update_of_ne hba]
  have hne : p ≠ a' := (hkept p (Or.inl rfl)).1
  have hfull : Pool.Full (Function.update w₁.mem p (some (.dbuf ⟨some a', sz, given.length⟩))) p a' new given :=
    { dbuf := by rw [Function.update_self, hlen]
      slots := by rw [Function.update_of_ne hne.symm, hmem, Function.update_self]
      least := by omega
      most := by omega
      room := by
        have hroom := h.room
        omega
      first := by
        have hroom := h.room
        rw [hnew, List.take_append_of_le_length, List.take_take, ← h.first, Nat.min_eq_left (by omega)]
        rw [List.length_take]
        omega
      chars := fun g hg => by
        have hmemg : g.1 ∈ given.map Prod.fst := List.mem_map_of_mem hg
        have hgp : g.1 ≠ p := by
          intro heq
          have hg' := h.chars g hg
          rw [heq] at hg'
          exact absurd (hg'.symm.trans h.dbuf) (by simp)
        rw [Function.update_of_ne hgp, (hkept g.1 (Or.inr hmemg)).2]
        exact h.chars g hg
      nodup := h.nodup }
  show UnlessDies _ (.ok (w₁.put p (.dbuf ⟨some a', entries.length * 16 % sizeRange / 10, given.length⟩)))
  rw [← hsz]
  refine ⟨a', new, by omega, hfull, .within ht rfl hkey ?_ (.full hfull)⟩
  exact ((hgiven.trans htaken).trans hwritten).congr (fun b => Iff.rfl) fun b => h.cell_iff

/-- Where the array is full, or there is none, `dbuf_grow` makes room. -/
theorem grown_spec (heap : Heap) {p : Nat} (hs : s.Kept w.mem) (ht : w.specific t = s.dbuf) (hp : s.dbuf = some p) :
    ∃ d, w.mem p = some (.dbuf d) ∧
      UnlessDies (fun w' => ∃ a entries, s.given.length < entries.length ∧ Pool.Full w'.mem p a entries s.given ∧
        Works t w w' s ⟨some p, some a, s.given⟩) (if d.sz ≤ d.len then dbufGrow heap p w else .ok w) := by
  cases hs with
  | unused => cases hp
  | bare h =>
      cases hp
      exact ⟨_, h, dbufGrow_bare h ht⟩
  | @full p a entries given h =>
      cases hp
      refine ⟨_, h.dbuf, ?_⟩
      by_cases hfull : entries.length ≤ given.length
      · rw [if_pos hfull]
        refine (dbufGrow_full h ht).imp fun w' hw' => ?_
        obtain ⟨a', entries', hlonger, hpool, hworks⟩ := hw'
        exact ⟨a', entries', Nat.lt_of_le_of_lt h.room hlonger, hpool, hworks⟩
      · rw [if_neg hfull]
        exact ⟨a, entries, Nat.lt_of_not_le hfull, h, .refl (.full h) ht⟩

/-! ### A buffer more -/

theorem give_spec (heap : Heap) {p a : Nat} {entries : List Slot} {given : List (Nat × Nat)}
    (h : Pool.Full w.mem p a entries given) (hroom : given.length < entries.length) (ht : w.specific t = some p)
    (bufsz : Nat) :
    UnlessDies (fun r => Works t w r.2 ⟨some p, some a, given⟩ ⟨some p, some a, given ++ [(r.1, bufsz)]⟩)
      (do let (newBuf, w) ← guardMalloc heap bufsz (.chars bufsz) w
          let d ← w.dbufAt p
          let w ← w.setSlot d.dbufv d.len (.to newBuf)
          .ok (newBuf, w.put p (.dbuf { d with len := d.len + 1 }))) := by
  refine (guardMalloc_spec heap bufsz (.chars bufsz) w).bind ?_
  rintro ⟨q, w₁⟩ ⟨hfree, -, hmem, hkey⟩
  dsimp only at hfree hmem hkey ⊢
  have hold := (Pool.Kept.full h).live
  have hnew : ∀ b, Pool.Cell ⟨some p, some a, given⟩ b → b ≠ q := by
    rintro b hb rfl
    exact hold b hb hfree
  have hfull : Pool.Full w₁.mem p a entries given := h.mono fun b hb => by
    rw [hmem, Function.update_of_ne (hnew b hb)]
  have hpa : p ≠ a := hfull.apart (Or.inl rfl)
  rw [dbufAt_eq hfull.dbuf]
  show UnlessDies _ (w₁.setSlot (some a) given.length (.to q) >>= _)
  rw [setSlot_eq hfull.slots hroom]
  have htaken := Work.take hold hfree (.chars bufsz)
  rw [← hmem] at htaken
  have hlisted := Work.write htaken.there (p := a) (Or.inr (Or.inr (Or.inl rfl)))
    (.slots (entries.set given.length (.to q)))
  have hcounted := Work.write hlisted.there (p := p) (Or.inr (Or.inl rfl))
    (.dbuf ⟨some a, entries.length, given.length + 1⟩)
  have hlonger : Pool.Full (Function.update (Function.update w₁.mem a (some (.slots (entries.set given.length (.to q))))) p
      (some (.dbuf ⟨some a, entries.length, given.length + 1⟩))) p a (entries.set given.length (.to q))
      (given ++ [(q, bufsz)]) :=
    { dbuf := by rw [Function.update_self, List.length_set, List.length_append, List.length_singleton]
      slots := by rw [Function.update_of_ne hpa.symm, Function.update_self]
      least := by
        rw [List.length_set]
        exact h.least
      most := by
        rw [List.length_set]
        exact h.most
      room := by
        rw [List.length_append, List.length_set]
        exact hroom
      first := by
        have hlen : given.length < (entries.set given.length (.to q)).length := by
          rw [List.length_set]
          exact hroom
        rw [List.length_append, List.length_singleton, List.take_succ_eq_append_getElem hlen,
          List.take_set_of_le (Nat.le_refl _), h.first, List.getElem_set_self, List.map_append]
        rfl
      chars := fun g hg => by
        have hlive : w₁.mem g.1 = some (.chars g.2) := by
          rcases List.mem_append.mp hg with hg | hg
          · exact hfull.chars g hg
          · rw [List.mem_singleton.mp hg, hmem, Function.update_self]
        have hga : g.1 ≠ a := by
          intro heq
          rw [heq] at hlive
          exact absurd (hlive.symm.trans hfull.slots) (by simp)
        have hgp : g.1 ≠ p := by
          intro heq
          rw [heq] at hlive
          exact absurd (hlive.symm.trans hfull.dbuf) (by simp)
        rw [Function.update_of_ne hgp, Function.update_of_ne hga]
        exact hlive
      nodup := by
        rw [List.map_append]
        refine List.nodup_append.mpr ⟨h.nodup,
          List.nodup_cons.mpr ⟨List.not_mem_nil, List.nodup_nil⟩, fun b hb c hc => ?_⟩
        rw [List.mem_singleton.mp hc]
        exact hnew b (Or.inr (Or.inr hb)) }
  refine .within ht rfl hkey ?_ (.full hlonger)
  refine ((htaken.trans hlisted).trans hcounted).congr (fun b => Iff.rfl) fun b => ?_
  simp only [Pool.Cell, List.map_append, List.map_cons, List.map_nil, List.mem_append, List.mem_singleton]
  tauto

/-- A thread that asks for a buffer has one more than it had. -/
theorem dbufThreadAlloc_spec (heap : Heap) (hs : s.Kept w.mem) (ht : w.specific t = s.dbuf) (bufsz : Nat) :
    UnlessDies (fun r => ∃ s', s'.given = s.given ++ [(r.1, bufsz)] ∧ Works t w r.2 s s')
      (dbufThreadAlloc heap t bufsz w) := by
  unfold dbufThreadAlloc
  refine (dbufOf_spec heap hs ht).bind ?_
  rintro ⟨p, w₁⟩ ⟨s₁, hp, hgiven, hfound⟩
  dsimp only at hp hfound ⊢
  obtain ⟨d, hd, hgrown⟩ := grown_spec heap hfound.kept hfound.after hp
  rw [dbufAt_eq hd]
  refine hgrown.bind fun w₂ hw₂ => ?_
  obtain ⟨a, entries, hroom, hfull, hroomy⟩ := hw₂
  have hkey : w₂.specific t = some p := hroomy.after
  refine (give_spec heap hfull hroom hkey bufsz).imp fun r hr => ?_
  refine ⟨⟨some p, some a, s₁.given ++ [(r.1, bufsz)]⟩, ?_, (hfound.trans hroomy).trans hr⟩
  rw [hgiven]

/-! ### All buffers let go -/

/-- A pool while `dbuf_thread_free_all` is at `bnr`, with the buffers `rest` to go. -/
structure Pool.Freeing (mem : Mem) (dbuf a len bnr : Nat) (entries : List Slot) (rest : List (Nat × Nat)) : Prop where
  dbuf : mem dbuf = some (.dbuf ⟨some a, entries.length, len⟩)
  slots : mem a = some (.slots entries)
  order : (entries.drop bnr).take rest.length = rest.map fun g => .to g.1
  chars : ∀ g ∈ rest, mem g.1 = some (.chars g.2)
  nodup : (rest.map Prod.fst).Nodup

namespace Pool.Freeing

variable {mem : Mem} {dbuf a len bnr : Nat} {entries : List Slot} {g : Nat × Nat} {rest : List (Nat × Nat)}

theorem ne (h : Freeing mem dbuf a len bnr entries rest) : dbuf ≠ a := by
  rintro rfl
  exact absurd (h.dbuf.symm.trans h.slots) (by simp)

theorem live (h : Freeing mem dbuf a len bnr entries rest) (p : Nat) (hp : Cell ⟨some dbuf, some a, rest⟩ p) :
    mem p ≠ none := by
  rcases hp with hp | hp | hp
  · cases hp
    rw [h.dbuf]
    exact Option.some_ne_none _
  · cases hp
    rw [h.slots]
    exact Option.some_ne_none _
  · obtain ⟨g, hg, rfl⟩ := List.mem_map.mp hp
    rw [h.chars g hg]
    exact Option.some_ne_none _

/-- The next buffer is neither the `dbuf_t`, nor the array, nor one that comes after it. -/
theorem next (h : Freeing mem dbuf a len bnr entries (g :: rest)) :
    g.1 ≠ dbuf ∧ g.1 ≠ a ∧ ∀ g' ∈ rest, g'.1 ≠ g.1 := by
  have hg := h.chars g List.mem_cons_self
  refine ⟨?_, ?_, fun g' hg' heq => ?_⟩
  · intro heq
    rw [heq] at hg
    exact absurd (hg.symm.trans h.dbuf) (by simp)
  · intro heq
    rw [heq] at hg
    exact absurd (hg.symm.trans h.slots) (by simp)
  · have hnodup := (List.nodup_cons.mp h.nodup).1
    rw [← heq] at hnodup
    exact hnodup (List.mem_map_of_mem hg')

theorem entry (h : Freeing mem dbuf a len bnr entries (g :: rest)) :
    entries[bnr]? = some (.to g.1) ∧ (entries.drop (bnr + 1)).take rest.length = rest.map fun g => .to g.1 := by
  have hrest := h.order
  rw [← List.drop_drop, ← List.head?_drop]
  cases hdrop : entries.drop bnr with
  | nil =>
      rw [hdrop] at hrest
      cases hrest
  | cons x xs =>
      rw [hdrop] at hrest
      injection hrest with hx hxs
      exact ⟨congrArg some hx, hxs⟩

end Pool.Freeing

section FreeAll

variable {p a len bnr : Nat} {entries : List Slot} {rest : List (Nat × Nat)}

omit [DecidableEq T] in
theorem freeAllLoop_spec (h : Pool.Freeing w.mem p a len bnr entries rest) :
    ∃ w' entries', freeAllLoop p rest.length bnr w = .ok w' ∧ w'.specific = w.specific ∧
      entries'.length = entries.length ∧ Pool.Freeing w'.mem p a len (bnr + rest.length) entries' [] ∧
      Work w.mem w'.mem (Pool.Cell ⟨some p, some a, rest⟩) (Pool.Cell ⟨some p, some a, []⟩) := by
  induction rest generalizing w bnr entries with
  | nil =>
      exact ⟨w, entries, rfl, rfl, rfl, h, Work.refl h.live⟩
  | cons g rest ih =>
      obtain ⟨hgp, hga, hlater⟩ := h.next
      obtain ⟨hentry, horder⟩ := h.entry
      have hbnr : bnr < entries.length := (List.getElem?_eq_some_iff.mp hentry).1
      obtain ⟨w₁, hw₁⟩ : ∃ w₁ : World T, w₁ = { w with mem := Function.update w.mem g.1 none } := ⟨_, rfl⟩
      have hslots₁ : w₁.mem a = some (.slots entries) := by
        rw [hw₁, ← h.slots]
        exact Function.update_of_ne hga.symm _ _
      have hfreed : w.free g.1 = .ok w₁ := by
        unfold World.free
        rw [h.chars g List.mem_cons_self, hw₁]
      have hturn : freeAllLoop p (g :: rest).length bnr w =
          freeAllLoop p rest.length (bnr + 1) (w₁.put a (.slots (entries.set bnr .null))) := by
        rw [List.length_cons, freeAllLoop, dbufAt_eq h.dbuf]
        show ((w.slot (some a) bnr >>= _) : Res (World T)) = _
        rw [slot_eq h.slots hentry]
        show ((w.free g.1 >>= fun w => w.setSlot (some a) bnr .null >>= fun w => freeAllLoop p rest.length (bnr + 1) w) :
          Res (World T)) = _
        rw [hfreed]
        show ((w₁.setSlot (some a) bnr .null >>= fun w => freeAllLoop p rest.length (bnr + 1) w) : Res (World T)) = _
        rw [setSlot_eq hslots₁ hbnr]
        rfl
      have hkept : ∀ b x, b ≠ g.1 → b ≠ a → w.mem b = some x → (w₁.put a (.slots (entries.set bnr .null))).mem b = some x := by
        intro b x hbg hba hb
        show Function.update w₁.mem a _ b = some x
        rw [Function.update_of_ne hba, hw₁, ← hb]
        exact Function.update_of_ne hbg _ _
      have hnext : Pool.Freeing (w₁.put a (.slots (entries.set bnr .null))).mem p a len (bnr + 1)
          (entries.set bnr .null) rest :=
        { dbuf := by
            rw [List.length_set]
            exact hkept p _ hgp.symm h.ne h.dbuf
          slots := Function.update_self _ _ _
          order := by
            rw [List.drop_set_of_lt (Nat.lt_succ_self bnr)]
            exact horder
          chars := fun g' hg' => by
            have hlive := h.chars g' (List.mem_cons_of_mem _ hg')
            refine hkept g'.1 _ (hlater g' hg') ?_ hlive
            intro heq
            rw [heq] at hlive
            exact absurd (hlive.symm.trans h.slots) (by simp)
          nodup := (List.nodup_cons.mp h.nodup).2 }
      obtain ⟨w', entries', hloop, hkey, hlen, hdone, hwork⟩ := ih hnext
      have hgone := Work.give h.live (p := g.1) (Or.inr (Or.inr (List.mem_map_of_mem List.mem_cons_self)))
      have hmem₁ : w₁.mem = Function.update w.mem g.1 none := by rw [hw₁]
      rw [← hmem₁] at hgone
      have hnulled := Work.write hgone.there (p := a) ⟨Or.inr (Or.inl rfl), hga.symm⟩
        (.slots (entries.set bnr .null))
      have hturnwork : Work w.mem (w₁.put a (.slots (entries.set bnr .null))).mem
          (Pool.Cell ⟨some p, some a, g :: rest⟩) (Pool.Cell ⟨some p, some a, rest⟩) := by
        refine (hgone.trans hnulled).congr (fun b => Iff.rfl) fun b => ?_
        constructor
        · rintro ⟨hb | hb | hb, hbg⟩
          · exact Or.inl hb
          · exact Or.inr (Or.inl hb)
          · exact Or.inr (Or.inr ((List.mem_cons.mp hb).resolve_left hbg))
        · rintro (hb | hb | hb)
          · cases hb
            exact ⟨Or.inl rfl, hgp.symm⟩
          · cases hb
            exact ⟨Or.inr (Or.inl rfl), hga.symm⟩
          · obtain ⟨g', hg', rfl⟩ := List.mem_map.mp hb
            exact ⟨Or.inr (Or.inr (List.mem_cons_of_mem _ hb)), hlater g' hg'⟩
      refine ⟨w', entries', hturn.trans hloop, ?_, ?_, ?_, hturnwork.trans hwork⟩
      · rw [hkey]
        show w₁.specific = _
        rw [hw₁]
      · rw [hlen, List.length_set]
      · rw [List.length_cons, Nat.add_comm rest.length 1, ← Nat.add_assoc]
        exact hdone

theorem freeAll_full {given : List (Nat × Nat)} (h : Pool.Full w.mem p a entries given) (ht : w.specific t = some p) :
    ∃ w' entries', dbufThreadFreeAll p w = .ok w' ∧ Pool.Full w'.mem p a entries' [] ∧
      Works t w w' ⟨some p, some a, given⟩ ⟨some p, some a, []⟩ := by
  have hfreeing : Pool.Freeing w.mem p a given.length 0 entries given :=
    ⟨h.dbuf, h.slots, h.first, h.chars, h.nodup⟩
  obtain ⟨w₁, entries', hloop, hkey, hlen, hdone, hwork⟩ := freeAllLoop_spec hfreeing
  have hrun : dbufThreadFreeAll p w = .ok (w₁.put p (.dbuf ⟨some a, entries'.length, 0⟩)) := by
    unfold dbufThreadFreeAll
    rw [dbufAt_eq h.dbuf]
    show freeAllLoop p given.length 0 w >>= _ = _
    rw [hloop]
    show w₁.dbufAt p >>= _ = _
    rw [dbufAt_eq hdone.dbuf]
    rfl
  have hfull : Pool.Full (w₁.put p (.dbuf ⟨some a, entries'.length, 0⟩)).mem p a entries' [] :=
    { dbuf := Function.update_self _ _ _
      slots := by
        rw [← hdone.slots]
        exact Function.update_of_ne hdone.ne.symm _ _
      least := by
        rw [hlen]
        exact h.least
      most := by
        rw [hlen]
        exact h.most
      room := Nat.zero_le _
      first := rfl
      chars := fun _ hg => absurd hg List.not_mem_nil
      nodup := List.nodup_nil }
  have hwritten := Work.write hwork.there (p := p) (Or.inl rfl) (.dbuf ⟨some a, entries'.length, 0⟩)
  exact ⟨_, entries', hrun, hfull, .within ht rfl hkey (hwork.trans hwritten) (.full hfull)⟩

end FreeAll

omit [DecidableEq T] in
theorem freeAll_bare {p : Nat} (h : w.mem p = some (.dbuf ⟨none, 0, 0⟩)) : dbufThreadFreeAll p w = .ok w := by
  unfold dbufThreadFreeAll
  rw [dbufAt_eq h]
  show w.dbufAt p >>= _ = _
  rw [dbufAt_eq h]
  show Except.ok { w with mem := Function.update w.mem p (some (.dbuf ⟨none, 0, 0⟩)) } = _
  rw [← h, Function.update_eq_self]

theorem dbufThreadReset_spec (hs : s.Kept w.mem) (ht : w.specific t = s.dbuf) :
    ∃ w', dbufThreadReset t w = .ok w' ∧ Works t w w' s { s with given := [] } := by
  unfold dbufThreadReset
  cases hs with
  | unused =>
      rw [ht]
      exact ⟨w, rfl, .refl .unused ht⟩
  | bare h =>
      rw [ht]
      exact ⟨w, freeAll_bare h, .refl (.bare h) ht⟩
  | full h =>
      rw [ht]
      obtain ⟨w', entries', hrun, -, hworks⟩ := freeAll_full h ht
      exact ⟨w', hrun, hworks⟩

theorem dbufThreadCleanup_spec (hs : s.Kept w.mem) (ht : w.specific t = s.dbuf) :
    ∃ w', dbufThreadCleanup t w = .ok w' ∧ Works t w w' s ⟨s.dbuf, none, []⟩ := by
  unfold dbufThreadCleanup
  obtain ⟨w₁, hreset, hworks⟩ := dbufThreadReset_spec hs ht
  rw [hreset]
  show ∃ w', (match w₁.specific t with | none => Except.ok w₁ | some dbuf => freeDbufv dbuf w₁) = .ok w' ∧ _
  rw [hworks.after]
  have hkept := hworks.kept
  have hkey := hworks.after
  cases hs with
  | unused => exact ⟨w₁, rfl, hworks⟩
  | bare h =>
      cases hkept with
      | bare h₁ =>
          refine ⟨w₁, ?_, hworks⟩
          unfold freeDbufv
          dsimp only
          rw [dbufAt_eq h₁]
          rfl
  | @full p a entries given h =>
      cases hkept with
      | @full _ _ entries' _ h₁ =>
          have hfreed : w₁.free a = .ok { w₁ with mem := Function.update w₁.mem a none } := by
            unfold World.free
            rw [h₁.slots]
          have hrun : freeDbufv p w₁ =
              .ok (World.put { w₁ with mem := Function.update w₁.mem a none } p (.dbuf ⟨none, 0, 0⟩)) := by
            unfold freeDbufv
            rw [dbufAt_eq h₁.dbuf]
            show w₁.free a >>= _ = _
            rw [hfreed]
            rfl
          have hgone := Work.give (Pool.Kept.full h₁).live (p := a) (Or.inr (Or.inl rfl))
          have hwritten := Work.write hgone.there (p := p) ⟨Or.inl rfl, h₁.apart (Or.inl rfl)⟩ (.dbuf ⟨none, 0, 0⟩)
          refine ⟨_, hrun, hworks.trans (.within hkey rfl rfl ?_ (.bare (Function.update_self _ _ _)))⟩
          refine (hgone.trans hwritten).congr (fun b => Iff.rfl) fun b => ?_
          constructor
          · rintro ⟨hb | hb | hb, hne⟩
            · exact Or.inl hb
            · cases hb
              exact absurd rfl hne
            · exact Or.inr (Or.inr hb)
          · rintro (hb | hb | hb)
            · exact ⟨Or.inl hb, h₁.apart (Or.inl hb)⟩
            · cases hb
            · exact absurd hb List.not_mem_nil

/-! ### Any calls of any threads -/

inductive Call where
  | alloc (bufsz : Nat)
  | reset
  | cleanup

/-- A call by the thread `t`, with the buffer that it returns. -/
def Call.run (heap : Heap) (t : T) (w : World T) : Call → Res (Option Nat × World T)
  | .alloc bufsz => do
      let (buf, w) ← dbufThreadAlloc heap t bufsz w
      .ok (some buf, w)
  | .reset => do
      let w ← dbufThreadReset t w
      .ok (none, w)
  | .cleanup => do
      let w ← dbufThreadCleanup t w
      .ok (none, w)

/-- The buffers that a thread was given and has not let go, after a call. -/
def Call.leaves (given : List (Nat × Nat)) : Call → Option Nat → List (Nat × Nat)
  | .alloc bufsz, buf => given ++ buf.toList.map fun p => (p, bufsz)
  | .reset, _ => []
  | .cleanup, _ => []

/-- The calls of the threads, in the order in which they are made, with what each thread was given. -/
def runCalls (heap : Heap) : List (T × Call) → World T → (T → List (Nat × Nat)) →
    Res (World T × (T → List (Nat × Nat)))
  | [], w, given => .ok (w, given)
  | (t, call) :: calls, w, given => do
      let (buf, w) ← call.run heap t w
      runCalls heap calls w (Function.update given t (call.leaves (given t) buf))

theorem call_spec (heap : Heap) (call : Call) (hs : s.Kept w.mem) (ht : w.specific t = s.dbuf) :
    UnlessDies (fun r => ∃ s', s'.given = call.leaves s.given r.1 ∧ Works t w r.2 s s') (call.run heap t w) := by
  cases call with
  | alloc bufsz => exact (dbufThreadAlloc_spec heap hs ht bufsz).bind fun r hr => hr
  | reset =>
      obtain ⟨w', hrun, hworks⟩ := dbufThreadReset_spec hs ht
      unfold Call.run
      rw [hrun]
      exact ⟨_, rfl, hworks⟩
  | cleanup =>
      obtain ⟨w', hrun, hworks⟩ := dbufThreadCleanup_spec hs ht
      unfold Call.run
      rw [hrun]
      exact ⟨_, rfl, hworks⟩

/-- The pools of all threads. -/
structure Pools (w : World T) (given : T → List (Nat × Nat)) (pools : T → Pool) : Prop where
  shares : Shares Pool.Cell Pool.Kept w.mem pools
  dbuf : ∀ t, w.specific t = (pools t).dbuf
  given : ∀ t, (pools t).given = given t

theorem Pools.work {given : T → List (Nat × Nat)} {pools : T → Pool} (h : Pools w given pools)
    (hw : Works t w w' (pools t) s') : Pools w' (Function.update given t s'.given) (Function.update pools t s') where
  shares := h.shares.work Pool.kept_local t hw.work hw.kept
  dbuf u := by
    rw [hw.specific]
    by_cases hut : u = t
    · rw [hut, Function.update_self, Function.update_self]
    · rw [Function.update_of_ne hut, Function.update_of_ne hut]
      exact h.dbuf u
  given u := by
    by_cases hut : u = t
    · rw [hut, Function.update_self, Function.update_self]
    · rw [Function.update_of_ne hut, Function.update_of_ne hut]
      exact h.given u

omit [DecidableEq T] in
theorem pools_start : Pools (.start : World T) (fun _ => []) fun _ => .unused where
  shares :=
    { split :=
        { live := fun a => by
            refine iff_of_false (fun h => h rfl) ?_
            rintro ⟨_, hb | hb | hb⟩
            · cases hb
            · cases hb
            · exact absurd hb List.not_mem_nil
          apart := fun _ _ a hb _ => by
            rcases hb with hb | hb | hb
            · cases hb
            · cases hb
            · exact absurd hb List.not_mem_nil }
      each := fun _ => .unused }
  dbuf _ := rfl
  given _ := rfl

theorem runCalls_pools (heap : Heap) (calls : List (T × Call)) {given : T → List (Nat × Nat)} {pools : T → Pool}
    (h : Pools w given pools) :
    UnlessDies (fun r => ∃ pools', Pools r.1 r.2 pools') (runCalls heap calls w given) := by
  induction calls generalizing w given pools with
  | nil => exact ⟨pools, h⟩
  | cons c calls ih =>
      obtain ⟨t, call⟩ := c
      refine (call_spec heap call (h.shares.each t) (h.dbuf t)).bind fun r hr => ?_
      obtain ⟨s', hgiven, hworks⟩ := hr
      rw [h.given t] at hgiven
      have hnext := h.work hworks
      rw [hgiven] at hnext
      exact ih hnext

/-- After any calls by any threads, in any order, each thread has the buffers that it was given and has not let go,
of the sizes that it asked for; no buffer is given out twice; and no block is left that a thread does not have. -/
theorem runCalls_safe (heap : Heap) (calls : List (T × Call)) :
    UnlessDies (fun r : World T × (T → List (Nat × Nat)) =>
      (∀ t, ∀ g ∈ r.2 t, r.1.mem g.1 = some (.chars g.2)) ∧
      (∀ t, ((r.2 t).map Prod.fst).Nodup) ∧
      (∀ t u, ∀ g ∈ r.2 t, ∀ g' ∈ r.2 u, g.1 = g'.1 → t = u) ∧
      ∀ p b, r.1.mem p = some b → ∃ t, Pool.Holds r.1.mem (r.1.specific t) (r.2 t) p b)
      (runCalls heap calls .start fun _ => []) := by
  refine (runCalls_pools heap calls pools_start).imp ?_
  rintro ⟨w, given⟩ ⟨pools, h⟩
  have hgiven : ∀ t, (pools t).given = given t := h.given
  have hcell : ∀ t, ∀ g ∈ given t, (pools t).Cell g.1 := by
    intro t g hg
    rw [← hgiven t] at hg
    exact Or.inr (Or.inr (List.mem_map_of_mem hg))
  refine ⟨fun t g hg => ?_, fun t => ?_, fun t u g hg g' hg' heq => ?_, fun p b hb => ?_⟩
  · dsimp only at hg
    rw [← hgiven t] at hg
    exact (h.shares.each t).chars g hg
  · dsimp only
    rw [← hgiven t]
    exact (h.shares.each t).nodup
  · have hu := hcell u g' hg'
    rw [← heq] at hu
    exact h.shares.split.apart t u g.1 (hcell t g hg) hu
  · have hlive : w.mem p ≠ none := by
      intro hnone
      cases hb.symm.trans hnone
    obtain ⟨t, ht⟩ := (h.shares.split.live p).mp hlive
    have hholds := (h.shares.each t).holds ht hb
    refine ⟨t, ?_⟩
    dsimp only
    rw [h.dbuf t, ← hgiven t]
    exact hholds

/-- A heap whose addresses are never used again. -/
def freshHeap : Heap where
  malloc calls mem size := if mem calls = none ∧ size < 2 ^ 63 then some calls else none
  realloc calls mem _ size := if mem calls = none ∧ size < 2 ^ 63 then some calls else none
  malloc_free h := by
    split at h
    · rename_i hfree
      cases h
      exact hfree.1
    · cases h
  malloc_size h := by
    split at h
    · rename_i hfree
      exact hfree.2
    · cases h
  realloc_free h := by
    split at h
    · rename_i hfree
      cases h
      exact Or.inr hfree.1
    · cases h
  realloc_size h := by
    split at h
    · rename_i hfree
      exact hfree.2
    · cases h

example : (runCalls freshHeap [(false, .alloc 32), (true, .alloc 64), (false, .alloc 16), (true, .reset)]
    .start fun _ => []).toOption.map (fun r => (r.2 false, r.2 true)) = some ([(2, 32), (6, 16)], []) := by decide

end RpcMt.DbufThread
