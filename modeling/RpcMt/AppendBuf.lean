import Mathlib.Data.List.Induction
import Mathlib.Data.List.TakeWhile
import RpcMt.Runs
import RpcMt.Stores

/-! `append_buf`: strings appended to a buffer of a given size, each call from the end that the one before returned.
The loop stops when the buffer is full, and then the terminator is stored behind what was copied, where there is
room for it only if the loop stopped earlier. -/

open RpcMt.Runs RpcMt.Stores

namespace RpcMt.Decode

/-- A string without its terminator. -/
structure CString where
  bytes : List UInt8
  ends : 0 ∉ bytes
  deriving DecidableEq

/-- The characters up to the first NUL. -/
def CString.ofChars (cs : List Char) : CString :=
  ⟨(cs.map fun c => c.toNat.toUInt8).takeWhile (· ≠ 0), fun hmem => by simpa using List.mem_takeWhile_imp hmem⟩

def CString.ofString (s : String) : CString := .ofChars s.toList

/-- `in_buf`. -/
def inBuf (buf bufsz pos : Nat) : Prop := pos ≥ buf ∧ pos < buf + bufsz

instance (buf bufsz pos : Nat) : Decidable (inBuf buf bufsz pos) := inferInstanceAs (Decidable (_ ∧ _))

/-- The loop of `append_buf`. -/
def copyLoop : Nat → Nat → List UInt8 → Cells UInt8 → Nat × Cells UInt8
  | cnt + 1, ebuf, c :: newstr, m => copyLoop cnt (ebuf + 1) newstr (m.store ebuf c)
  | 0, ebuf, _, m => (ebuf, m)
  | _, ebuf, [], m => (ebuf, m)

/-- `append_buf`, without a result where the assertion fails. -/
def appendBuf (buf bufsz ebuf : Nat) (newstr : CString) (m : Cells UInt8) : Option (Nat × Cells UInt8) :=
  if inBuf buf bufsz ebuf then
    let cnt := (buf + bufsz) - ebuf
    let (ebuf, m) := copyLoop cnt ebuf newstr.bytes m
    some (ebuf, m.store ebuf 0)
  else none

/-- Calls of `append_buf`, each with the end that the one before returned. -/
def appends (buf bufsz : Nat) : Nat × Cells UInt8 → List CString → Option (Nat × Cells UInt8) :=
  exec (fun c newstr => appendBuf buf bufsz c.1 newstr c.2) anyStep

/-- The bytes of the concatenation. -/
def concat (strs : List CString) : List UInt8 := strs.flatMap CString.bytes

/-- The state that some calls leave, the first of which began at `start`: the pointer and all that was stored are inside
the buffer, and from `start` on there is a string, the beginning of what was appended. -/
structure Bounded (buf bufsz start : Nat) (done : List CString) (ebuf : Nat) (m : Cells UInt8) : Prop where
  next : inBuf buf bufsz ebuf
  stored : ∀ p ∈ m.stored, inBuf buf bufsz p
  text : done ≠ [] →
    ∃ text, text <+: concat done ∧ inBuf buf bufsz (start + text.length) ∧ m.Holds start (text ++ [0])

/-! ### One call -/

theorem copyLoop_eq (cnt ebuf : Nat) (newstr : List UInt8) (m : Cells UInt8) :
    copyLoop cnt ebuf newstr m = (ebuf + (newstr.take cnt).length, m.storeAll ebuf (newstr.take cnt)) := by
  induction newstr generalizing cnt ebuf m with
  | nil =>
      rw [List.take_nil]
      cases cnt <;> rfl
  | cons c newstr ih =>
      cases cnt with
      | zero => rfl
      | succ cnt =>
          rw [copyLoop, ih, List.take_succ_cons, List.length_cons, Cells.storeAll, Nat.add_assoc, Nat.add_comm 1]

/-- The bytes that there is room for, and the terminator. -/
theorem appendBuf_eq {buf bufsz ebuf : Nat} (hin : inBuf buf bufsz ebuf) (newstr : CString) (m : Cells UInt8) :
    appendBuf buf bufsz ebuf newstr m =
      some (ebuf + (newstr.bytes.take (buf + bufsz - ebuf)).length,
        m.storeAll ebuf (newstr.bytes.take (buf + bufsz - ebuf) ++ [0])) := by
  rw [appendBuf, if_pos hin, Cells.storeAll_append]
  simp only [copyLoop_eq]
  rfl

/-- A string that leaves room for the terminator is appended whole. -/
theorem appendBuf_room {buf bufsz ebuf : Nat} (hin : inBuf buf bufsz ebuf) {newstr : CString}
    (hroom : ebuf + newstr.bytes.length < buf + bufsz) (m : Cells UInt8) :
    appendBuf buf bufsz ebuf newstr m =
      some (ebuf + newstr.bytes.length, m.storeAll ebuf (newstr.bytes ++ [0])) := by
  have hwhole : newstr.bytes.take (buf + bufsz - ebuf) = newstr.bytes := List.take_of_length_le (by omega)
  rw [appendBuf_eq hin, hwhole]

/-- A call that fills the buffer stores the terminator behind it. -/
theorem appendBuf_full {buf bufsz ebuf : Nat} (hin : inBuf buf bufsz ebuf) {newstr : CString}
    (hfull : buf + bufsz ≤ ebuf + newstr.bytes.length) (m : Cells UInt8) :
    ∃ m', appendBuf buf bufsz ebuf newstr m = some (buf + bufsz, m') ∧ buf + bufsz ∈ m'.stored := by
  have hlt : ebuf < buf + bufsz := hin.2
  have hlen : (newstr.bytes.take (buf + bufsz - ebuf)).length = buf + bufsz - ebuf :=
    List.length_take_of_le (by omega)
  have hend : ebuf + (buf + bufsz - ebuf) = buf + bufsz := by omega
  refine ⟨_, by rw [appendBuf_eq hin, hlen, hend], ?_⟩
  rw [Cells.mem_stored_storeAll, List.length_append, hlen]
  right
  constructor
  · omega
  · exact Nat.lt_of_lt_of_eq (Nat.lt_succ_self _) (by rw [List.length_singleton]; omega)

/-! ### A sequence of calls -/

theorem appends_snoc (buf bufsz : Nat) (c : Nat × Cells UInt8) (done : List CString) (newstr : CString) :
    appends buf bufsz c (done ++ [newstr]) =
      (appends buf bufsz c done).bind fun c => appendBuf buf bufsz c.1 newstr c.2 := by
  rw [appends, exec_append]
  congr 1
  funext c
  rw [exec, if_pos (show anyStep c newstr from trivial)]
  exact Option.bind_fun_some _

theorem concat_snoc (done : List CString) (newstr : CString) :
    concat (done ++ [newstr]) = concat done ++ newstr.bytes := by
  rw [concat, List.flatMap_append, List.flatMap_singleton]
  rfl

/-- The last of some calls that do not fail began inside the buffer. -/
theorem appends_last {buf bufsz ebuf : Nat} {c : Nat × Cells UInt8} {m' : Cells UInt8} {done : List CString}
    {newstr : CString} (h : appends buf bufsz c (done ++ [newstr]) = some (ebuf, m')) :
    ∃ mid m, appends buf bufsz c done = some (mid, m) ∧ inBuf buf bufsz mid ∧
      appendBuf buf bufsz mid newstr m = some (ebuf, m') := by
  rw [appends_snoc] at h
  obtain ⟨⟨mid, m⟩, hdone, hcall⟩ := Option.bind_eq_some_iff.mp h
  change appendBuf buf bufsz mid newstr m = some (ebuf, m') at hcall
  refine ⟨mid, m, hdone, ?_, hcall⟩
  by_contra hout
  rw [appendBuf, if_neg hout] at hcall
  cases hcall

/-- The end that is returned goes no further than behind the buffer. -/
theorem appends_end {buf bufsz start ebuf : Nat} (hstart : inBuf buf bufsz start) {m m' : Cells UInt8}
    {done : List CString} (h : appends buf bufsz (start, m) done = some (ebuf, m')) :
    ebuf = min (start + (concat done).length) (buf + bufsz) := by
  induction done using List.reverseRecOn generalizing ebuf m' with
  | nil =>
      cases h
      exact (Nat.min_eq_left (Nat.le_of_lt hstart.2)).symm
  | append_singleton done newstr ih =>
      obtain ⟨mid, m'', hdone, hin, hcall⟩ := appends_last h
      have hmid := ih hdone
      have hlt := hin.2
      rw [appendBuf_eq hin] at hcall
      cases hcall
      rw [concat_snoc, List.length_append, List.length_take]
      omega

/-- Calls that do not fail, and whose strings come to the end of the buffer, have stored a byte behind it. -/
theorem appends_full {buf bufsz start ebuf : Nat} (hstart : inBuf buf bufsz start) {m m' : Cells UInt8}
    {done : List CString} (h : appends buf bufsz (start, m) done = some (ebuf, m'))
    (hfull : buf + bufsz ≤ start + (concat done).length) : buf + bufsz ∈ m'.stored := by
  cases done using List.reverseRecOn with
  | nil => exact absurd hfull (Nat.not_le_of_lt hstart.2)
  | append_singleton done newstr =>
      obtain ⟨mid, m'', hdone, hin, hcall⟩ := appends_last h
      have hmid := appends_end hstart hdone
      have hlt := hin.2
      rw [concat_snoc, List.length_append] at hfull
      have hfills : buf + bufsz ≤ mid + newstr.bytes.length := by omega
      obtain ⟨_, hfilled, hstored⟩ := appendBuf_full hin hfills m''
      rw [hfilled] at hcall
      cases hcall
      exact hstored

/-- The state after calls that have all had room. -/
structure Appended (buf bufsz start : Nat) (done : List CString) (ebuf : Nat) (m : Cells UInt8) : Prop where
  ebuf_eq : ebuf = start + (concat done).length
  stored : ∀ p ∈ m.stored, inBuf buf bufsz p
  holds : m.Holds start (concat done)
  ends : done ≠ [] → m.Holds start (concat done ++ [0])

theorem Appended.bounded {buf bufsz start ebuf : Nat} (hbuf : buf ≤ start) {m : Cells UInt8} {done : List CString}
    (h : Appended buf bufsz start done ebuf m) (hroom : start + (concat done).length < buf + bufsz) :
    Bounded buf bufsz start done ebuf m := by
  have hend : inBuf buf bufsz (start + (concat done).length) := ⟨by omega, hroom⟩
  refine ⟨?_, h.stored, fun hdone => ?_⟩
  · rw [h.ebuf_eq]
    exact hend
  · exact ⟨concat done, List.prefix_rfl, hend, h.ends hdone⟩

theorem appendBuf_appended {buf bufsz start ebuf : Nat} (hbuf : buf ≤ start) {m : Cells UInt8} {done : List CString}
    {newstr : CString} (h : Appended buf bufsz start done ebuf m)
    (hroom : start + (concat (done ++ [newstr])).length < buf + bufsz) :
    ∃ ebuf' m', appendBuf buf bufsz ebuf newstr m = some (ebuf', m') ∧
      Appended buf bufsz start (done ++ [newstr]) ebuf' m' := by
  have hend := h.ebuf_eq
  rw [concat_snoc, List.length_append] at hroom
  have hin : inBuf buf bufsz ebuf := ⟨by omega, by omega⟩
  have hnext : ebuf + newstr.bytes.length < buf + bufsz := by omega
  have hholds : (m.storeAll ebuf (newstr.bytes ++ [0])).Holds start (concat (done ++ [newstr]) ++ [0]) := by
    rw [concat_snoc, List.append_assoc, hend]
    exact h.holds.storeAll _
  refine ⟨_, _, appendBuf_room hin hnext m, ?_, fun p hp => ?_, ?_, fun _ => hholds⟩
  · rw [concat_snoc, List.length_append]
    omega
  · rw [Cells.mem_stored_storeAll, List.length_append, List.length_singleton] at hp
    obtain hp | ⟨hlow, hhigh⟩ := hp
    · exact h.stored p hp
    · exact ⟨by omega, by omega⟩
  · exact ((Cells.holds_append ..).mp hholds).1

theorem appends_appended {buf bufsz start : Nat} (hbuf : buf ≤ start) (cell : Nat → UInt8) {done : List CString}
    (hroom : start + (concat done).length < buf + bufsz) :
    ∃ ebuf m, appends buf bufsz (start, .fresh cell) done = some (ebuf, m) ∧ Appended buf bufsz start done ebuf m := by
  induction done using List.reverseRecOn with
  | nil => exact ⟨start, _, rfl, rfl, fun p hp => absurd hp List.not_mem_nil, trivial, fun hne => absurd rfl hne⟩
  | append_singleton done newstr ih =>
      have hbefore : start + (concat done).length < buf + bufsz := by
        rw [concat_snoc, List.length_append] at hroom
        omega
      obtain ⟨ebuf, m, hdone, happended⟩ := ih hbefore
      obtain ⟨ebuf', m', hcall, hnext⟩ := appendBuf_appended hbuf happended hroom
      refine ⟨ebuf', m', ?_, hnext⟩
      rw [appends_snoc, hdone]
      exact hcall

theorem concat_length_prefix {done strs : List CString} (h : done <+: strs) :
    (concat done).length ≤ (concat strs).length := by
  obtain ⟨rest, rfl⟩ := h
  rw [concat, concat, List.flatMap_append, List.length_append]
  exact Nat.le_add_right _ _

/-- Every call leaves the buffer as it should exactly if the strings end before the last byte of the buffer, which
is for the terminator. -/
theorem appendBuf_bounded_iff (buf bufsz start : Nat) (hstart : inBuf buf bufsz start) (cell : Nat → UInt8)
    (strs : List CString) :
    (∀ done, done <+: strs → ∃ ebuf m, appends buf bufsz (start, .fresh cell) done = some (ebuf, m) ∧
      Bounded buf bufsz start done ebuf m) ↔ start + (concat strs).length < buf + bufsz := by
  constructor
  · intro hall
    obtain ⟨ebuf, m, hrun, hbounded⟩ := hall strs List.prefix_rfl
    have hend := appends_end hstart hrun
    have hnext := hbounded.next.2
    omega
  · intro hroom done hprefix
    have hdone := concat_length_prefix hprefix
    have hroom' : start + (concat done).length < buf + bufsz := by omega
    obtain ⟨ebuf, m, hrun, happended⟩ := appends_appended hstart.1 cell hroom'
    exact ⟨ebuf, m, hrun, happended.bounded hstart.1 hroom'⟩

/-- Two strings, an empty one between them, in a buffer of eight bytes. -/
theorem appendBuf_bounded_three :
    (concat [.ofString "POLL", .ofString "", .ofString "IN"]).length = 6 ∧
      ((∀ done, done <+: [.ofString "POLL", .ofString "", .ofString "IN"] →
        ∃ ebuf m, appends 4096 8 (4096, .fresh fun _ => 0xff) done = some (ebuf, m) ∧
          Bounded 4096 8 4096 done ebuf m) ↔
        4096 + (concat [.ofString "POLL", .ofString "", .ofString "IN"]).length < 4096 + 8) :=
  ⟨by decide, appendBuf_bounded_iff 4096 8 4096 (by decide) (fun _ => 0xff) _⟩

/-- A string of four bytes in a buffer of four. -/
theorem appendBuf_bounded_counterexample :
    ¬ ∀ buf bufsz start, inBuf buf bufsz start → ∀ (cell : Nat → UInt8) strs done, done <+: strs →
      ∃ ebuf m, appends buf bufsz (start, .fresh cell) done = some (ebuf, m) ∧ Bounded buf bufsz start done ebuf m := by
  intro hall
  obtain ⟨ebuf, m, hrun, hbounded⟩ :=
    hall 4096 4 4096 (by decide) (fun _ => 0) [.ofString "POLL"] [.ofString "POLL"] List.prefix_rfl
  have hend : ebuf = 4096 + 4 := appends_end (by decide) hrun
  have hnext := hbounded.next.2
  omega

end RpcMt.Decode
