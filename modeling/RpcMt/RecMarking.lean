import RpcMt.XdrMem

/-! Record marking. A record goes over a byte stream as one or more fragments, each behind a header of four
bytes in network order: the top bit is set on the last fragment of the record, the low 31 bits are the
length of the fragment. -/

namespace RpcMt.RecMarking

structure Fragment where
  last : Bool
  payload : List Byte
  deriving DecidableEq, Repr

namespace Fragment

def header (f : Fragment) : Nat := f.payload.length + if f.last then 2 ^ 31 else 0

def wire (f : Fragment) : List Byte := htonl f.header ++ f.payload

/-- The length of the fragment has a header. -/
def Fits (f : Fragment) : Prop := f.payload.length < 2 ^ 31

theorem length_wire (f : Fragment) : f.wire.length = 4 + f.payload.length := by
  rw [wire, List.length_append]
  rfl

theorem header_ne_zero {f : Fragment} (h : f.last = false → f.payload ≠ []) : f.header ≠ 0 := by
  unfold header
  cases hlast : f.last with
  | true =>
      rw [if_pos rfl]
      omega
  | false =>
      have hlen := List.length_pos_iff.mpr (h hlast)
      omega

variable {f : Fragment} (h : f.Fits)

include h

theorem header_lt : f.header < 2 ^ 32 := by
  unfold Fits at h
  unfold header
  split <;> omega

theorem header_mod : f.header % 2 ^ 31 = f.payload.length := by
  unfold Fits at h
  unfold header
  split <;> omega

theorem header_testBit : f.header.testBit 31 = f.last := by
  unfold Fits at h
  rw [Nat.testBit_eq_decide_div_mod_eq, header]
  cases f.last with
  | false =>
      rw [decide_eq_false_iff_not, if_neg Bool.false_ne_true]
      omega
  | true =>
      rw [decide_eq_true_eq, if_pos rfl]
      omega

end Fragment

/-- The fragment at the front of the bytes, and what is behind it. -/
def readFragment (bs : List Byte) : Option (Fragment × List Byte) :=
  let header := ntohl (bs.take 4)
  let len := header % 2 ^ 31
  if bs.length < 4 + len then none
  else some (⟨header.testBit 31, (bs.drop 4).take len⟩, (bs.drop 4).drop len)

theorem readFragment_length {bs rest : List Byte} {f : Fragment} (h : readFragment bs = some (f, rest)) :
    rest.length < bs.length := by
  unfold readFragment at h
  dsimp only at h
  split at h
  · cases h
  · cases h
    rw [List.length_drop, List.length_drop]
    omega

theorem readFragment_wire {f : Fragment} (h : f.Fits) (rest : List Byte) :
    readFragment (f.wire ++ rest) = some (f, rest) := by
  have htake : (f.wire ++ rest).take 4 = htonl f.header := by
    rw [Fragment.wire, List.append_assoc]
    rfl
  have hdrop : (f.wire ++ rest).drop 4 = f.payload ++ rest := by
    rw [Fragment.wire, List.append_assoc]
    rfl
  have hlen : ¬(f.wire ++ rest).length < 4 + f.payload.length := by
    rw [List.length_append, f.length_wire]
    omega
  rw [readFragment, htake, hdrop, ntohl_htonl (Fragment.header_lt h), Fragment.header_mod h,
    Fragment.header_testBit h, if_neg hlen, List.take_left, List.drop_left]

/-- The records that the bytes are: every fragment belongs to the record of the next fragment with the
last-fragment bit, and bytes that do not end with such a fragment are no records. -/
def parseRecords (bs : List Byte) : Option (List (List Fragment)) :=
  if bs = [] then some []
  else match _h : readFragment bs with
    | none => none
    | some (f, rest) =>
        match f.last, parseRecords rest with
        | true, some rs => some ([f] :: rs)
        | false, some (r :: rs) => some ((f :: r) :: rs)
        | _, _ => none
termination_by bs.length
decreasing_by exact readFragment_length _h

/-- The bytes of a record. -/
def payload (r : List Fragment) : List Byte := r.flatMap Fragment.payload

/-- The last-fragment bit is set on the final fragment and on no other, and no other is empty. -/
def Marked (r : List Fragment) : Prop :=
  ∃ init bs, r = init ++ [⟨true, bs⟩] ∧ ∀ f ∈ init, f.last = false ∧ f.payload ≠ []

/-- The last-fragment bit is set on the final fragment and on no other. -/
def Delimited (r : List Fragment) : Prop := ∃ init bs, r = init ++ [⟨true, bs⟩] ∧ ∀ f ∈ init, f.last = false

theorem Marked.delimited {r : List Fragment} (h : Marked r) : Delimited r := by
  obtain ⟨init, bs, heq, hinit⟩ := h
  exact ⟨init, bs, heq, fun f hf => (hinit f hf).1⟩

theorem Marked.payload_ne_nil {r : List Fragment} (h : Marked r) : ∀ f ∈ r, f.last = false → f.payload ≠ [] := by
  obtain ⟨init, bs, rfl, hinit⟩ := h
  intro f hf hlast
  rcases List.mem_append.mp hf with hf | hf
  · exact (hinit f hf).2
  · rw [List.mem_singleton.mp hf] at hlast
    cases hlast

theorem Delimited.cons {f : Fragment} {fs : List Fragment} (h : Delimited (f :: fs)) :
    f.last = fs.isEmpty ∧ (fs ≠ [] → Delimited fs) := by
  obtain ⟨init, bs, heq, hinit⟩ := h
  cases init with
  | nil =>
      rw [List.nil_append, List.cons_eq_cons] at heq
      obtain ⟨rfl, rfl⟩ := heq
      exact ⟨rfl, fun hne => absurd rfl hne⟩
  | cons g init =>
      rw [List.cons_append, List.cons_eq_cons] at heq
      obtain ⟨rfl, rfl⟩ := heq
      refine ⟨?_, fun _ => ⟨init, bs, rfl, fun g hg => hinit g (List.mem_cons_of_mem f hg)⟩⟩
      rw [hinit f List.mem_cons_self]
      cases init with
      | nil => rfl
      | cons _ _ => rfl

theorem parseRecords_cons {f : Fragment} (hf : f.Fits) (rest : List Byte) :
    parseRecords (f.wire ++ rest) =
      match f.last, parseRecords rest with
      | true, some rs => some ([f] :: rs)
      | false, some (r :: rs) => some ((f :: r) :: rs)
      | _, _ => none := by
  have hne : ¬f.wire ++ rest = [] := by
    intro h
    have hlen := congrArg List.length h
    rw [List.length_append, f.length_wire, List.length_nil] at hlen
    omega
  rw [parseRecords, if_neg hne]
  split
  · rename_i h
    rw [readFragment_wire hf] at h
    cases h
  · rename_i f' rest' h
    rw [readFragment_wire hf] at h
    cases h
    rfl

theorem parseRecords_record {init : List Fragment} {bs rest : List Byte} {rs : List (List Fragment)}
    (hinit : ∀ f ∈ init, f.last = false ∧ f.Fits) (hbs : bs.length < 2 ^ 31)
    (hrest : parseRecords rest = some rs) :
    parseRecords (List.flatMap Fragment.wire (init ++ [⟨true, bs⟩]) ++ rest) =
      some ((init ++ [⟨true, bs⟩]) :: rs) := by
  induction init with
  | nil =>
      have hfinal : Fragment.Fits ⟨true, bs⟩ := hbs
      rw [List.nil_append, List.flatMap_singleton, parseRecords_cons hfinal, hrest]
  | cons f init ih =>
      obtain ⟨hlast, hfits⟩ := hinit f List.mem_cons_self
      rw [List.cons_append, List.flatMap_cons, List.append_assoc, parseRecords_cons hfits,
        ih fun g hg => hinit g (List.mem_cons_of_mem f hg), hlast]

/-- Records on the wire are read back as they are. -/
theorem parseRecords_wire {rs : List (List Fragment)} (hmarked : ∀ r ∈ rs, Marked r)
    (hfits : ∀ r ∈ rs, ∀ f ∈ r, f.Fits) :
    parseRecords (rs.flatMap fun r => r.flatMap Fragment.wire) = some rs := by
  induction rs with
  | nil => rw [List.flatMap_nil, parseRecords, if_pos rfl]
  | cons r rs ih =>
      have hrest := ih (fun q hq => hmarked q (List.mem_cons_of_mem r hq))
        fun q hq => hfits q (List.mem_cons_of_mem r hq)
      obtain ⟨init, bs, rfl, hinit⟩ := hmarked r List.mem_cons_self
      have hr := hfits _ List.mem_cons_self
      rw [List.flatMap_cons]
      refine parseRecords_record (fun f hf => ?_) ?_ hrest
      · exact ⟨(hinit f hf).1, hr f (List.mem_append_left _ hf)⟩
      · exact hr ⟨true, bs⟩ (List.mem_append_right _ List.mem_cons_self)

end RpcMt.RecMarking
