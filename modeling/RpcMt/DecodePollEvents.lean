import RpcMt.AppendBuf

/-! `decode_poll_events`: the bits of `revents` as text, for messages. The number in hexadecimal, the names of the
symbols whose bits are set, separated by bars, and a mark where other bits are set too, appended to a buffer of 128
bytes. The text may be longer than that. -/

open RpcMt.Runs RpcMt.Stores

namespace RpcMt.Decode

/-- A symbol of `poll.h`, with its value. -/
structure PollSym where
  name : CString
  value : BitVec 32

def pollSyms : List PollSym :=
  [⟨.ofString "POLLIN", 0x001⟩, ⟨.ofString "POLLPRI", 0x002⟩, ⟨.ofString "POLLOUT", 0x004⟩,
    ⟨.ofString "POLLERR", 0x008⟩, ⟨.ofString "POLLHUP", 0x010⟩, ⟨.ofString "POLLNVAL", 0x020⟩,
    ⟨.ofString "POLLRDNORM", 0x040⟩, ⟨.ofString "POLLRDBAND", 0x080⟩, ⟨.ofString "POLLWRNORM", 0x100⟩,
    ⟨.ofString "POLLWRBAND", 0x200⟩, ⟨.ofString "POLLMSG", 0x400⟩, ⟨.ofString "POLLREMOVE", 0x1000⟩,
    ⟨.ofString "POLLRDHUP", 0x2000⟩]

/-- The loop of `popcount_int`. -/
def popcountLoop (w : BitVec 32) (bits : Nat) : Nat :=
  if w ≠ 0 then popcountLoop (w &&& (w - 1)) (bits + 1) else bits
termination_by w.toNat
decreasing_by
  rename_i hne
  have hpos : 1 ≤ w := by bv_omega
  have hand : (w &&& (w - 1)).toNat ≤ (w - 1).toNat := by
    rw [BitVec.toNat_and]
    exact Nat.and_le_right
  bv_omega

def popcountInt (i : BitVec 32) : Nat := popcountLoop i 0

/-- `snprintf`, with the text that the format comes to. -/
def snprintf (buf bufsz : Nat) (text : CString) (m : Cells UInt8) : Cells UInt8 :=
  if bufsz = 0 then m else m.storeAll buf (text.bytes.take (bufsz - 1) ++ [0])

/-- `strend`, without a result where there is no NUL in so many bytes. -/
def strend (m : Cells UInt8) : Nat → Nat → Option Nat
  | 0, _ => none
  | n + 1, p => if m.cell p ≠ 0 then strend m n (p + 1) else some p

/-- The format `%#x=`. -/
def hexText (events : BitVec 32) : CString :=
  .ofChars ((if events = 0 then [] else ['0', 'x']) ++ Nat.toDigits 16 events.toNat ++ ['='])

/-- What is counted while the symbols are gone through. -/
structure Tally where
  count : Nat
  validMsk : BitVec 32
  err : Nat

def Tally.next (events : BitVec 32) (t : Tally) (sym : PollSym) : Tally :=
  { count := if events &&& sym.value ≠ 0 then t.count + 1 else t.count
    validMsk := t.validMsk ||| sym.value
    err := t.err + if popcountInt sym.value ≠ 1 then 1 else 0 }

section Buffer

variable (buf bufsz : Nat) (events : BitVec 32)

/-- `append_buf` on `ebuf` and the memory. -/
def append (newstr : CString) (c : Nat × Cells UInt8) : Option (Nat × Cells UInt8) :=
  appendBuf buf bufsz c.1 newstr c.2

/-- `append_buf` on a condition. -/
def appendIf (cond : Prop) [Decidable cond] (newstr : CString) (c : Nat × Cells UInt8) :
    Option (Nat × Cells UInt8) :=
  if cond then append buf bufsz newstr c else some c

/-- `DECODE_POLLSYM`. -/
def decodePollsym (d : (Nat × Cells UInt8) × Tally) (sym : PollSym) : Option ((Nat × Cells UInt8) × Tally) :=
  if events &&& sym.value ≠ 0 then do
    let c ← appendIf buf bufsz (d.2.count ≠ 0) (.ofString "|") d.1
    let c ← append buf bufsz sym.name c
    some (c, d.2.next events sym)
  else some (d.1, d.2.next events sym)

/-- The marks behind the symbols. -/
def decodeMarks (c : Nat × Cells UInt8) (t : Tally) : Option (Nat × Cells UInt8) := do
  let c ← appendIf buf bufsz (t.err ≠ 0) (.ofString "*ERROR*") c
  let count := if t.err ≠ 0 then t.count + 1 else t.count
  if events &&& ~~~t.validMsk ≠ 0 then do
    let c ← appendIf buf bufsz (count ≠ 0) (.ofString ",") c
    append buf bufsz (.ofString "*INVALID*") c
  else some c

/-- `decode_poll_events_r`, with the memory it leaves. -/
def decodePollEventsR (m : Cells UInt8) : Option (Cells UInt8) := do
  let m := snprintf buf bufsz (hexText events) m
  let ebuf ← strend m bufsz buf
  let (c, t) ← pollSyms.foldlM (decodePollsym buf bufsz events) ((ebuf, m), ⟨0, 0, 0⟩)
  let c ← decodeMarks buf bufsz events c t
  some c.2

/-- `decode_poll_events`, with the buffer that `dbuf_thread_alloc` returned. -/
def decodePollEvents (m : Cells UInt8) : Option (Cells UInt8) := decodePollEventsR buf 128 events m

end Buffer

/-! ### The text -/

/-- The names of the symbols in `events`. -/
def setNames (syms : List PollSym) (events : BitVec 32) : List (List UInt8) :=
  (syms.filter fun sym => events &&& sym.value ≠ 0).map fun sym => sym.name.bytes

/-- The bits of all the symbols. -/
def validMsk (syms : List PollSym) : BitVec 32 := syms.foldl (fun msk sym => msk ||| sym.value) 0

/-- The mark for bits that no symbol stands for. -/
def invalidText (events : BitVec 32) : List UInt8 :=
  if events &&& ~~~validMsk pollSyms ≠ 0 then
    (if setNames pollSyms events ≠ [] then (CString.ofString ",").bytes else []) ++ (CString.ofString "*INVALID*").bytes
  else []

/-- What `decode_poll_events` is to write. -/
def pollText (events : BitVec 32) : List UInt8 :=
  (hexText events).bytes ++ List.intercalate (CString.ofString "|").bytes (setNames pollSyms events) ++
    invalidText events

/-! ### What is appended -/

/-- What `DECODE_POLLSYM` appends. -/
def symStrings (events : BitVec 32) (t : Tally) (sym : PollSym) : List CString :=
  if events &&& sym.value ≠ 0 then (if t.count ≠ 0 then [.ofString "|"] else []) ++ [sym.name] else []

def symsStrings (events : BitVec 32) (t : Tally) : List PollSym → List CString
  | [] => []
  | sym :: syms => symStrings events t sym ++ symsStrings events (t.next events sym) syms

/-- What is appended behind the symbols. -/
def markStrings (events : BitVec 32) (t : Tally) : List CString :=
  let count := if t.err ≠ 0 then t.count + 1 else t.count
  (if t.err ≠ 0 then [.ofString "*ERROR*"] else []) ++
    if events &&& ~~~t.validMsk ≠ 0 then
      (if count ≠ 0 then [.ofString ","] else []) ++ [.ofString "*INVALID*"]
    else []

section Buffer

variable {buf bufsz : Nat} {events : BitVec 32}

theorem appends_append (c : Nat × Cells UInt8) (strs strs' : List CString) :
    appends buf bufsz c (strs ++ strs') =
      (appends buf bufsz c strs).bind fun c => appends buf bufsz c strs' := exec_append ..

theorem appends_singleton (c : Nat × Cells UInt8) (newstr : CString) :
    appends buf bufsz c [newstr] = append buf bufsz newstr c := appends_snoc buf bufsz c [] newstr

theorem appends_ite (p : Prop) [Decidable p] (c : Nat × Cells UInt8) (newstr : CString) :
    appends buf bufsz c (if p then [newstr] else []) = appendIf buf bufsz p newstr c := by
  rw [appendIf]
  split
  · exact appends_singleton c newstr
  · rfl

theorem decodePollsym_eq (c : Nat × Cells UInt8) (t : Tally) (sym : PollSym) :
    decodePollsym buf bufsz events (c, t) sym =
      (appends buf bufsz c (symStrings events t sym)).bind fun c => some (c, t.next events sym) := by
  rw [decodePollsym, symStrings]
  split
  · rw [appends_append, appends_ite, Option.bind_assoc]
    simp only [appends_singleton]
    rfl
  · rfl

theorem decodeMarks_eq (c : Nat × Cells UInt8) (t : Tally) :
    decodeMarks buf bufsz events c t = appends buf bufsz c (markStrings events t) := by
  rw [decodeMarks, markStrings, appends_append, appends_ite]
  cases appendIf buf bufsz (t.err ≠ 0) (.ofString "*ERROR*") c with
  | none => rfl
  | some c =>
      simp only [Option.bind_some, Option.bind_eq_bind]
      split
      · rw [appends_append, appends_ite]
        simp only [appends_singleton]
      · rfl

theorem decodePollsyms_eq (c : Nat × Cells UInt8) (t : Tally) (syms : List PollSym) :
    syms.foldlM (decodePollsym buf bufsz events) (c, t) =
      (appends buf bufsz c (symsStrings events t syms)).bind fun c => some (c, syms.foldl (Tally.next events) t) := by
  induction syms generalizing c t with
  | nil => rfl
  | cons sym syms ih =>
      rw [List.foldlM_cons, decodePollsym_eq, symsStrings, appends_append]
      cases appends buf bufsz c (symStrings events t sym) with
      | none => rfl
      | some c => exact ih c _

/-- `strend` finds the terminator of a text. -/
theorem strend_eq {m : Cells UInt8} {p n : Nat} {text : List UInt8} (hends : 0 ∉ text)
    (hholds : m.Holds p (text ++ [0])) (hn : text.length < n) : strend m n p = some (p + text.length) := by
  induction text generalizing p n with
  | nil =>
      cases n with
      | zero => exact absurd hn (Nat.not_lt_zero _)
      | succ n =>
          rw [strend, if_neg (not_not.mpr hholds.1)]
          rfl
  | cons c text ih =>
      cases n with
      | zero => exact absurd hn (Nat.not_lt_zero _)
      | succ n =>
          rw [List.mem_cons, not_or] at hends
          rw [List.length_cons] at hn ⊢
          have hc : m.cell p ≠ 0 := by
            rw [hholds.1]
            exact Ne.symm hends.1
          rw [strend, if_pos hc, ih hends.2 hholds.2 (by omega), Nat.add_assoc, Nat.add_comm 1]

/-- All that is written, one string after the other, from the beginning of the buffer on. -/
def pollStrings (events : BitVec 32) : List CString :=
  hexText events ::
    (symsStrings events ⟨0, 0, 0⟩ pollSyms ++ markStrings events (pollSyms.foldl (Tally.next events) ⟨0, 0, 0⟩))

/-- The number is appended to the empty buffer, if there is room for it. -/
theorem decodePollEventsR_eq (hroom : (hexText events).bytes.length < bufsz) (m : Cells UInt8) :
    decodePollEventsR buf bufsz events m = (appends buf bufsz (buf, m) (pollStrings events)).map Prod.snd := by
  have hwhole : (hexText events).bytes.take (bufsz - 1) = (hexText events).bytes := List.take_of_length_le (by omega)
  have hprint : snprintf buf bufsz (hexText events) m = m.storeAll buf ((hexText events).bytes ++ [0]) := by
    rw [snprintf, if_neg (by omega), hwhole]
  have hend : strend (m.storeAll buf ((hexText events).bytes ++ [0])) bufsz buf =
      some (buf + (hexText events).bytes.length) :=
    strend_eq (hexText events).ends (Cells.holds_storeAll ..) hroom
  have hin : inBuf buf bufsz buf := ⟨Nat.le_refl buf, by omega⟩
  have hfirst : append buf bufsz (hexText events) (buf, m) =
      some (buf + (hexText events).bytes.length, m.storeAll buf ((hexText events).bytes ++ [0])) :=
    appendBuf_room hin (by omega) m
  rw [decodePollEventsR, pollStrings, ← List.singleton_append, appends_append, appends_singleton, hfirst]
  simp only [hprint, hend, decodePollsyms_eq, Option.bind_some, appends_append, Option.bind_eq_bind]
  cases appends buf bufsz _ (symsStrings events ⟨0, 0, 0⟩ pollSyms) with
  | none => rfl
  | some c =>
      simp only [Option.bind_some, decodeMarks_eq]
      exact Option.map_eq_bind.symm

end Buffer

/-! ### The strings make the text -/

theorem popcountInt_single {w : BitVec 32} (hne : w ≠ 0) (hclear : w &&& (w - 1) = 0) : popcountInt w = 1 := by
  have hzero : popcountLoop 0 1 = 1 := by
    rw [popcountLoop]
    exact if_neg (not_not.mpr rfl)
  rw [popcountInt, popcountLoop, if_pos hne, hclear, hzero]

/-- The self-check of the table never fails. -/
theorem popcountInt_pollSyms : ∀ sym ∈ pollSyms, popcountInt sym.value = 1 := by
  intro sym hsym
  have hbit : ∀ sym ∈ pollSyms, sym.value ≠ 0 ∧ sym.value &&& (sym.value - 1) = 0 := by decide +kernel
  exact popcountInt_single (hbit sym hsym).1 (hbit sym hsym).2

section Text

variable (events : BitVec 32)

theorem foldl_err (t : Tally) (syms : List PollSym) (hsyms : ∀ sym ∈ syms, popcountInt sym.value = 1) :
    (syms.foldl (Tally.next events) t).err = t.err := by
  induction syms generalizing t with
  | nil => rfl
  | cons sym syms ih =>
      obtain ⟨hsym, hsyms⟩ := List.forall_mem_cons.mp hsyms
      rw [List.foldl_cons, ih _ hsyms, Tally.next, if_neg (not_not.mpr hsym)]
      rfl

theorem foldl_validMsk (t : Tally) (syms : List PollSym) :
    (syms.foldl (Tally.next events) t).validMsk = syms.foldl (fun msk sym => msk ||| sym.value) t.validMsk := by
  induction syms generalizing t with
  | nil => rfl
  | cons sym syms ih =>
      rw [List.foldl_cons, List.foldl_cons, ih]
      rfl

theorem setNames_cons (sym : PollSym) (syms : List PollSym) :
    setNames (sym :: syms) events =
      if events &&& sym.value ≠ 0 then sym.name.bytes :: setNames syms events else setNames syms events := by
  rw [setNames, List.filter_cons]
  by_cases hset : events &&& sym.value ≠ 0
  · rw [if_pos hset, if_pos (decide_eq_true hset)]
    rfl
  · rw [if_neg hset, if_neg (by rwa [decide_eq_true_iff])]
    rfl

theorem next_set (t : Tally) {sym : PollSym} (hset : events &&& sym.value ≠ 0) :
    (t.next events sym).count = t.count + 1 := if_pos hset

theorem next_clear (t : Tally) {sym : PollSym} (hclear : ¬ events &&& sym.value ≠ 0) :
    (t.next events sym).count = t.count := if_neg hclear

theorem foldl_count (t : Tally) (syms : List PollSym) :
    (syms.foldl (Tally.next events) t).count = t.count + (setNames syms events).length := by
  induction syms generalizing t with
  | nil => rfl
  | cons sym syms ih =>
      rw [List.foldl_cons, ih, setNames_cons]
      by_cases hset : events &&& sym.value ≠ 0
      · rw [next_set events t hset, if_pos hset, List.length_cons, Nat.add_assoc, Nat.add_comm 1]
      · rw [next_clear events t hset, if_neg hset]

theorem concat_append (strs strs' : List CString) : concat (strs ++ strs') = concat strs ++ concat strs' := by
  rw [concat, List.flatMap_append]
  rfl

theorem concat_singleton (s : CString) : concat [s] = s.bytes := by
  rw [concat, List.flatMap_singleton]

theorem concat_ite (p : Prop) [Decidable p] (s : CString) :
    concat (if p then [s] else []) = if p then s.bytes else [] := by
  split
  · exact concat_singleton s
  · rfl

/-- A separated list, from its second element on. -/
theorem intercalate_cons {α : Type} (sep as : List α) (ass : List (List α)) :
    sep.intercalate (as :: ass) = as ++ ass.flatMap fun as => sep ++ as := by
  induction ass generalizing as with
  | nil => rw [List.intercalate_singleton, List.flatMap_nil, List.append_nil]
  | cons bs ass ih => rw [List.intercalate_cons_cons, ih, List.flatMap_cons, List.append_assoc, List.append_assoc]

theorem symStrings_clear {t : Tally} {sym : PollSym} (hclear : ¬ events &&& sym.value ≠ 0) :
    symStrings events t sym = [] := by
  rw [symStrings, if_neg hclear]

theorem concat_symStrings {t : Tally} {sym : PollSym} (hset : events &&& sym.value ≠ 0) :
    concat (symStrings events t sym) = (if t.count ≠ 0 then (CString.ofString "|").bytes else []) ++ sym.name.bytes := by
  rw [symStrings, if_pos hset, concat_append, concat_ite, concat_singleton]

/-- Behind a name every name has a bar before it, and the first name has none. -/
theorem concat_symsStrings (t : Tally) (syms : List PollSym) :
    concat (symsStrings events t syms) =
      if t.count ≠ 0 then (setNames syms events).flatMap fun name => (CString.ofString "|").bytes ++ name
      else List.intercalate (CString.ofString "|").bytes (setNames syms events) := by
  induction syms generalizing t with
  | nil => exact (ite_self []).symm
  | cons sym syms ih =>
      rw [symsStrings, concat_append, setNames_cons, ih]
      by_cases hset : events &&& sym.value ≠ 0
      · have hnext : (t.next events sym).count ≠ 0 := by
          rw [next_set events t hset]
          exact Nat.succ_ne_zero _
        rw [concat_symStrings events hset, if_pos hnext, if_pos hset, intercalate_cons, List.flatMap_cons]
        split
        · rfl
        · rfl
      · rw [symStrings_clear events hset, next_clear events t hset, if_neg hset]
        rfl

/-- What is written is the number, the names with bars between them, and the mark. -/
theorem concat_pollStrings : concat (pollStrings events) = pollText events := by
  have herr : (pollSyms.foldl (Tally.next events) ⟨0, 0, 0⟩).err = 0 :=
    foldl_err events ⟨0, 0, 0⟩ pollSyms popcountInt_pollSyms
  have hmsk : (pollSyms.foldl (Tally.next events) ⟨0, 0, 0⟩).validMsk = validMsk pollSyms :=
    foldl_validMsk events ⟨0, 0, 0⟩ pollSyms
  have hcount : (pollSyms.foldl (Tally.next events) ⟨0, 0, 0⟩).count = (setNames pollSyms events).length :=
    (foldl_count events ⟨0, 0, 0⟩ pollSyms).trans (Nat.zero_add _)
  have hmark : concat (markStrings events (pollSyms.foldl (Tally.next events) ⟨0, 0, 0⟩)) = invalidText events := by
    rw [markStrings, invalidText]
    simp only [herr, hmsk, hcount, ne_eq, not_true_eq_false, if_false, List.nil_append, List.length_eq_zero_iff]
    split
    · rw [concat_append, concat_ite, concat_singleton]
    · rfl
  rw [pollStrings, ← List.singleton_append, concat_append, concat_append, concat_singleton, hmark,
    concat_symsStrings, if_neg (not_not.mpr rfl), pollText, List.append_assoc]

theorem hexText_length : (hexText events).bytes.length ≤ 11 := by
  have hdigits : (Nat.toDigits 16 events.toNat).length ≤ 8 :=
    (Nat.length_toDigits_le_iff (by decide) (by decide)).mpr events.isLt
  have htake : (hexText events).bytes.length ≤
      (((if events = 0 then [] else ['0', 'x']) ++ Nat.toDigits 16 events.toNat ++ ['=']).map
        fun c => c.toNat.toUInt8).length := (List.takeWhile_sublist _).length_le
  rw [List.length_map, List.length_append, List.length_append, List.length_singleton] at htake
  have hsign : (if events = 0 then [] else ['0', 'x']).length ≤ 2 := by split <;> decide
  omega

end Text

/-- `decode_poll_events` writes its text, and nothing outside its buffer, exactly if the text is shorter than the
buffer. -/
theorem decodePollEvents_bounded_iff (buf : Nat) (events : BitVec 32) (cell : Nat → UInt8) :
    (∃ m, decodePollEvents buf events (.fresh cell) = some m ∧ (∀ p ∈ m.stored, inBuf buf 128 p) ∧
      m.Holds buf (pollText events ++ [0])) ↔ (pollText events).length < 128 := by
  have hhex := hexText_length events
  have hin : inBuf buf 128 buf := ⟨Nat.le_refl buf, by omega⟩
  have heq : decodePollEvents buf events (.fresh cell) =
      (appends buf 128 (buf, .fresh cell) (pollStrings events)).map Prod.snd := decodePollEventsR_eq (by omega) _
  rw [heq]
  constructor
  · rintro ⟨m, hrun, hstored, _⟩
    obtain ⟨⟨ebuf, m'⟩, hcalls, hm⟩ := Option.map_eq_some_iff.mp hrun
    change m' = m at hm
    rw [hm] at hcalls
    by_contra hlong
    have hbehind := hstored _ (appends_full hin hcalls (by rw [concat_pollStrings]; omega))
    exact absurd hbehind.2 (Nat.lt_irrefl _)
  · intro hroom
    have hlen : buf + (concat (pollStrings events)).length < buf + 128 := by
      rw [concat_pollStrings]
      omega
    obtain ⟨ebuf, m, hcalls, happended⟩ := appends_appended (Nat.le_refl buf) cell hlen
    refine ⟨m, by rw [hcalls]; rfl, happended.stored, ?_⟩
    rw [← concat_pollStrings]
    exact happended.ends (List.cons_ne_nil _ _)

example : (pollText (BitVec.allOnes 32)).length = 141 := by decide +kernel

end RpcMt.Decode
