import Mathlib.Algebra.Group.Nat.Defs
import Mathlib.Data.List.Basic

/-! Control messages, the ancillary data of a datagram: a sequence of records in an area of memory. A
record is a header (its own length with the header's, a level, a type) with data behind it, and starts at
a multiple of the word size. Records are written one behind the other; a reader walks from header to
header and trusts nothing but the length of the area. -/

namespace RpcMt.ControlMessages

/-! ### Words in memory -/

/-- The `k` low octets of `v`, the lowest first. -/
def leBytes : Nat → Nat → List (BitVec 8)
  | 0, _ => []
  | k + 1, v => BitVec.ofNat 8 v :: leBytes k (v / 256)

def leNat : List (BitVec 8) → Nat
  | [] => 0
  | b :: bs => b.toNat + 256 * leNat bs

/-- The word of `k` octets at offset `off`. -/
def field (off k : Nat) (mem : List (BitVec 8)) : Nat := leNat ((mem.drop off).take k)

@[simp] theorem length_leBytes (k v : Nat) : (leBytes k v).length = k := by
  induction k generalizing v with
  | zero => rfl
  | succ k ih => rw [leBytes, List.length_cons, ih]

theorem leNat_leBytes {k v : Nat} (h : v < 256 ^ k) : leNat (leBytes k v) = v := by
  induction k generalizing v with
  | zero =>
      have hv : v = 0 := by simpa using h
      rw [hv]
      rfl
  | succ k ih =>
      have hq : v / 256 < 256 ^ k := Nat.div_lt_of_lt_mul (by rwa [← Nat.pow_succ'])
      rw [leBytes, leNat, ih hq, BitVec.toNat_ofNat]
      exact Nat.mod_add_div v 256

theorem field_leBytes {pre rest : List (BitVec 8)} {off k v : Nat} (hoff : pre.length = off) (h : v < 256 ^ k) :
    field off k (pre ++ (leBytes k v ++ rest)) = v := by
  rw [field, List.drop_left' hoff, List.take_left' (length_leBytes k v), leNat_leBytes h]

/-- The area with `bytes` stored at `off`. -/
def put (off : Nat) (bytes mem : List (BitVec 8)) : List (BitVec 8) :=
  mem.take off ++ (bytes ++ mem.drop (off + bytes.length))

theorem length_put {off : Nat} {bytes mem : List (BitVec 8)} (h : off + bytes.length ≤ mem.length) :
    (put off bytes mem).length = mem.length := by
  rw [put, List.length_append, List.length_append, List.length_take, List.length_drop]
  omega

/-! ### Records -/

structure Cmsg where
  cmsgLevel : BitVec 32
  cmsgType : BitVec 32
  data : List (BitVec 8)
  deriving DecidableEq, Repr

/-- `sizeof (struct cmsghdr)`. -/
def hdrSize : Nat := 16

/-- `CMSG_ALIGN`. -/
def align (n : Nat) : Nat := (n + 7) / 8 * 8

theorem le_align (n : Nat) : n ≤ align n := by
  unfold align
  omega

namespace Cmsg

/-- `CMSG_LEN` of the data. -/
def len (m : Cmsg) : Nat := hdrSize + m.data.length

/-- `CMSG_SPACE` of the data. -/
def space (m : Cmsg) : Nat := align m.len

def header (m : Cmsg) : List (BitVec 8) :=
  leBytes 8 m.len ++ (leBytes 4 m.cmsgLevel.toNat ++ leBytes 4 m.cmsgType.toNat)

theorem length_header (m : Cmsg) : m.header.length = hdrSize := by
  rw [header, List.length_append, List.length_append, length_leBytes, length_leBytes, length_leBytes]
  rfl

theorem hdrSize_le_len (m : Cmsg) : hdrSize ≤ m.len := Nat.le_add_right _ _

theorem len_le_space (m : Cmsg) : m.len ≤ m.space := le_align _

theorem hdrSize_le_space (m : Cmsg) : hdrSize ≤ m.space := Nat.le_trans m.hdrSize_le_len m.len_le_space

end Cmsg

/-- The room that the messages take. -/
def size : List Cmsg → Nat
  | [] => 0
  | m :: ms => m.space + size ms

/-- The area after the messages are put into it; what pads a record keeps the octets it had. -/
def write : List Cmsg → List (BitVec 8) → List (BitVec 8)
  | [], mem => mem
  | m :: ms, mem => m.header ++ (m.data ++ ((mem.take m.space).drop m.len ++ write ms (mem.drop m.space)))

/-- The area holds these messages and nothing else. -/
def Holds (area : List (BitVec 8)) (ms : List Cmsg) : Prop :=
  area.length = size ms ∧ ∃ mem, area = write ms mem

theorem length_write {ms : List Cmsg} {mem : List (BitVec 8)} (h : size ms ≤ mem.length) :
    (write ms mem).length = mem.length := by
  induction ms generalizing mem with
  | nil => rfl
  | cons m ms ih =>
      rw [size] at h
      have hdrop : size ms ≤ (mem.drop m.space).length := by
        rw [List.length_drop]
        omega
      have hlen : m.len = hdrSize + m.data.length := rfl
      have hle := m.len_le_space
      rw [write, List.length_append, List.length_append, List.length_append, ih hdrop, m.length_header,
        List.length_drop, List.length_drop, List.length_take]
      omega

/-- A message leaves the area behind it to the messages after it. -/
theorem drop_write {m : Cmsg} {ms : List Cmsg} {mem : List (BitVec 8)} (h : m.space ≤ mem.length) :
    (write (m :: ms) mem).drop m.space = write ms (mem.drop m.space) := by
  have hle := m.len_le_space
  have hlen : m.len = hdrSize + m.data.length := rfl
  rw [write, ← List.append_assoc, ← List.append_assoc]
  apply List.drop_left'
  rw [List.length_append, List.length_append, m.length_header, List.length_drop, List.length_take]
  omega

/-! ### Reading -/

def cmsgLen (mem : List (BitVec 8)) (off : Nat) : Nat := field off 8 mem

def cmsgLevel (mem : List (BitVec 8)) (off : Nat) : Nat := field (off + 8) 4 mem

def cmsgType (mem : List (BitVec 8)) (off : Nat) : Nat := field (off + 12) 4 mem

/-- `CMSG_FIRSTHDR`, as an offset into the area. -/
def cmsgFirsthdr (controllen : Nat) : Option Nat := if hdrSize ≤ controllen then some 0 else none

/-- `CMSG_NXTHDR`. -/
def cmsgNxthdr (mem : List (BitVec 8)) (controllen off : Nat) : Option Nat :=
  if cmsgLen mem off < hdrSize then none
  else
    let next := off + align (cmsgLen mem off)
    if controllen < next + hdrSize ∨ controllen < next + align (cmsgLen mem next) then none else some next

section First

variable {m : Cmsg} {ms : List Cmsg} {mem : List (BitVec 8)}

theorem cmsgLen_write (h : m.len < 2 ^ 64) : cmsgLen (write (m :: ms) mem) 0 = m.len := by
  rw [cmsgLen, write, Cmsg.header, List.append_assoc]
  have hpre : ([] : List (BitVec 8)).length = 0 := rfl
  have hlt : m.len < 256 ^ 8 := by simpa only [Nat.reducePow] using h
  apply field_leBytes hpre hlt

theorem cmsgLevel_write : cmsgLevel (write (m :: ms) mem) 0 = m.cmsgLevel.toNat := by
  rw [cmsgLevel, write, Cmsg.header, List.append_assoc, List.append_assoc]
  exact field_leBytes (length_leBytes 8 _) m.cmsgLevel.isLt

theorem cmsgType_write : cmsgType (write (m :: ms) mem) 0 = m.cmsgType.toNat := by
  rw [cmsgType, write, Cmsg.header, List.append_assoc, List.append_assoc, ← List.append_assoc]
  apply field_leBytes
  · rw [List.length_append, length_leBytes, length_leBytes]
  · exact m.cmsgType.isLt

theorem cmsgLen_second {m' : Cmsg} (h : m.space ≤ mem.length) (hlen : m'.len < 2 ^ 64) :
    cmsgLen (write (m :: m' :: ms) mem) m.space = m'.len := by
  calc cmsgLen (write (m :: m' :: ms) mem) m.space
      = cmsgLen ((write (m :: m' :: ms) mem).drop m.space) 0 := by
        rw [cmsgLen, cmsgLen, field, field, List.drop_zero]
    _ = cmsgLen (write (m' :: ms) (mem.drop m.space)) 0 := by rw [drop_write h]
    _ = m'.len := cmsgLen_write hlen

end First

/-- A walk starts where there is a message. -/
theorem cmsgFirsthdr_size (ms : List Cmsg) : cmsgFirsthdr (size ms) = if ms = [] then none else some 0 := by
  cases ms with
  | nil => rfl
  | cons m ms =>
      have hle : hdrSize ≤ size (m :: ms) := Nat.le_trans m.hdrSize_le_space (Nat.le_add_right _ _)
      rw [cmsgFirsthdr, if_pos hle, if_neg (List.cons_ne_nil m ms)]

/-- From the first message a walk goes on where there is a second. -/
theorem cmsgNxthdr_write {m : Cmsg} {ms : List Cmsg} {mem : List (BitVec 8)} (h : size (m :: ms) ≤ mem.length)
    (hmem : mem.length < 2 ^ 64) :
    cmsgNxthdr (write (m :: ms) mem) (size (m :: ms)) 0 = if ms = [] then none else some m.space := by
  rw [size] at h
  have hle := m.len_le_space
  have hlen : cmsgLen (write (m :: ms) mem) 0 = m.len := cmsgLen_write (by omega)
  have hspace : align m.len = m.space := rfl
  rw [cmsgNxthdr, hlen, if_neg (Nat.not_lt.mpr m.hdrSize_le_len)]
  simp only [Nat.zero_add, hspace]
  cases ms with
  | nil =>
      have hend : size [m] < m.space + hdrSize := by
        rw [size, size]
        exact Nat.add_lt_add_left (by decide) _
      rw [if_pos (Or.inl hend), if_pos rfl]
  | cons m' ms =>
      have hsize : size (m' :: ms) = m'.space + size ms := rfl
      have hle' := m'.len_le_space
      have hsecond : cmsgLen (write (m :: m' :: ms) mem) m.space = m'.len :=
        cmsgLen_second (by omega) (by omega)
      have hin : ¬ (size (m :: m' :: ms) < m.space + hdrSize ∨
          size (m :: m' :: ms) < m.space + align (cmsgLen (write (m :: m' :: ms) mem) m.space)) := by
        have hhdr := m'.hdrSize_le_space
        have hspace' : align m'.len = m'.space := rfl
        rw [hsecond, hspace', size, hsize]
        omega
      rw [if_neg hin, if_neg (List.cons_ne_nil m' ms)]

end RpcMt.ControlMessages
