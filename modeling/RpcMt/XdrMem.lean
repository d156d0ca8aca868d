import Mathlib.Logic.Function.Basic
import RpcMt.Bitvec

/-! Memory streams of `xdr_mem.c` over buffers on the heap, and the XDR filters that run on them. A
filter comes from libc, from a service or from `rpcgen`; all that a memory stream shows it is the
operation, the bytes of the buffer, the cursor and the count of bytes left, and all it can do is to
move the cursor over those bytes, reading or writing them. -/

namespace RpcMt

abbrev Byte := BitVec 8

/-- The start address of a buffer. -/
abbrev BufId := Nat

/-- The allocated buffers and what they hold. -/
abbrev Bufs := BufId → Option (List Byte)

/-- A pointer into a buffer. -/
structure Ptr where
  blk : BufId
  off : Nat
  deriving DecidableEq, Repr

/-- `enum xdr_op`. -/
inductive XdrOp where
  | encode
  | decode
  | free
  deriving DecidableEq, Repr

/-- An `XDR` with the operations of `xdr_mem.c`. -/
structure Xdr where
  xOp : XdrOp
  xBase : BufId
  xPrivate : Ptr
  xHandy : Nat
  deriving DecidableEq, Repr

/-- The values of `u_int`. -/
def uintRange : Nat := 2 ^ 32

/-- The test of `nodesize = size + 1` against 0 is a test for overflow. -/
theorem succ_lt_uintRange {n : Nat} (hlt : n < uintRange) (h : (n + 1) % uintRange ≠ 0) : n + 1 < uintRange := by
  by_contra hfull
  have heq : n + 1 = uintRange := by omega
  rw [heq, Nat.mod_self] at h
  exact h rfl

def xdrmemCreate (addr : BufId) (size : Nat) (op : XdrOp) : Xdr := ⟨op, addr, ⟨addr, 0⟩, size⟩

def xdrmemGetpos (xdrs : Xdr) : Nat := xdrs.xPrivate.off % uintRange

/-- `xdrmem_setpos`; what it reports through `xdr_overflow` aborts. -/
def xdrmemSetpos (xdrs : Xdr) (pos : Nat) : Res Xdr :=
  let lastaddr := xdrs.xPrivate.off + xdrs.xHandy
  if lastaddr < pos ∨ uintRange ≤ lastaddr - pos then .error .xdrAbort
  else .ok { xdrs with xPrivate := ⟨xdrs.xBase, pos⟩, xHandy := lastaddr - pos }

/-- What a memory stream shows a filter. -/
structure View where
  xOp : XdrOp
  bytes : List Byte
  pos : Nat
  handy : Nat
  deriving DecidableEq, Repr

/-- The view of a stream that has been set back to its start for `op`. -/
def View.rewound (v : View) (op : XdrOp) : View := ⟨op, v.bytes, 0, v.pos + v.handy⟩

/-- An XDR filter: from a view, a status, a value and the view it leaves. The stream operations only
move the cursor within the bytes that the stream was given and write within them. -/
structure Filter (α : Type) where
  run : View → Res (Bool × α × View)
  frame : ∀ {v b a w}, run v = .ok (b, a, w) →
    w.xOp = v.xOp ∧ w.bytes.length = v.bytes.length ∧ w.pos + w.handy = v.pos + v.handy

def readBuf (bufs : Bufs) (b : BufId) : Res (List Byte) :=
  match bufs b with
  | none => .error .badPointer
  | some bytes => .ok bytes

/-- The view that a stream has of the buffer under its cursor. -/
def Xdr.view (xdrs : Xdr) (bytes : List Byte) : View :=
  ⟨xdrs.xOp, bytes, xdrs.xPrivate.off, xdrs.xHandy⟩

/-- The stream after a filter has left the view `v`. -/
def Xdr.leave (xdrs : Xdr) (v : View) : Xdr :=
  { xdrs with xPrivate := ⟨xdrs.xPrivate.blk, v.pos⟩, xHandy := v.handy }

/-- Run a filter on a stream. -/
def runFilter {α : Type} (f : Filter α) (xdrs : Xdr) (bufs : Bufs) : Res (Bool × α × Xdr × Bufs) := do
  let bytes ← readBuf bufs xdrs.xPrivate.blk
  let (rv, a, v) ← f.run (xdrs.view bytes)
  pure (rv, a, xdrs.leave v, Function.update bufs xdrs.xPrivate.blk (some v.bytes))

theorem readBuf_ok {bufs : Bufs} {b : BufId} {bytes : List Byte} (h : readBuf bufs b = .ok bytes) :
    bufs b = some bytes := by
  unfold readBuf at h
  split at h
  · cases h
  · cases h
    assumption

theorem readBuf_of_some {bufs : Bufs} {b : BufId} {bytes : List Byte} (h : bufs b = some bytes) :
    readBuf bufs b = .ok bytes := by
  rw [readBuf, h]

theorem runFilter_ok {α : Type} {f : Filter α} {xdrs xdrs' : Xdr} {bufs bufs' : Bufs} {rv : Bool} {a : α}
    (h : runFilter f xdrs bufs = .ok (rv, a, xdrs', bufs')) :
    ∃ bytes v, bufs xdrs.xPrivate.blk = some bytes ∧ f.run (xdrs.view bytes) = .ok (rv, a, v) ∧
      xdrs' = xdrs.leave v ∧ bufs' = Function.update bufs xdrs.xPrivate.blk (some v.bytes) := by
  obtain ⟨bytes, hbytes, h⟩ := bind_ok h
  obtain ⟨⟨rv', a', v⟩, hrun, h⟩ := bind_ok h
  cases h
  exact ⟨bytes, v, readBuf_ok hbytes, hrun, rfl, rfl⟩

/-! ### Words -/

/-- `ntohl` of the bytes at the cursor. -/
def ntohl (bytes : List Byte) : Nat := bytes.foldl (fun n b => 256 * n + b.toNat) 0

def htonl (n : Nat) : List Byte :=
  [BitVec.ofNat 8 (n / 2 ^ 24), BitVec.ofNat 8 (n / 2 ^ 16), BitVec.ofNat 8 (n / 2 ^ 8), BitVec.ofNat 8 n]

theorem ntohl_htonl {n : Nat} (h : n < 2 ^ 32) : ntohl (htonl n) = n := by
  simp only [ntohl, htonl, List.foldl_cons, List.foldl_nil, BitVec.toNat_ofNat]
  omega

theorem ntohl_lt {bytes : List Byte} : ntohl bytes < 256 ^ bytes.length := by
  have hfold : ∀ n, bytes.foldl (fun n b => 256 * n + b.toNat) n < (n + 1) * 256 ^ bytes.length := by
    induction bytes with
    | nil =>
        intro n
        rw [List.foldl_nil, List.length_nil, Nat.pow_zero]
        omega
    | cons b bytes ih =>
        intro n
        have hb : b.toNat < 256 := b.isLt
        calc (b :: bytes).foldl (fun n b => 256 * n + b.toNat) n
          _ < (256 * n + b.toNat + 1) * 256 ^ bytes.length := ih _
          _ ≤ (n + 1) * 256 * 256 ^ bytes.length := Nat.mul_le_mul_right _ (by omega)
          _ = (n + 1) * 256 ^ (b :: bytes).length := by
            rw [List.length_cons, Nat.pow_succ, Nat.mul_assoc, Nat.mul_comm 256]
  have hzero := hfold 0
  rw [Nat.zero_add, Nat.one_mul] at hzero
  exact hzero

/-- Step over one word that is to be replaced by `word`. -/
def View.advance (v : View) (word : List Byte) : Res View :=
  if v.handy < 4 then .error .xdrAbort
  else if v.bytes.length < v.pos + 4 then .error .badPointer
  else .ok
    { v with
      bytes := v.bytes.take v.pos ++ word ++ v.bytes.drop (v.pos + 4)
      pos := v.pos + 4
      handy := v.handy - 4 }

/-- The word at the cursor. -/
def View.word (v : View) : List Byte := (v.bytes.drop v.pos).take 4

theorem View.advance_ok {v w : View} {word : List Byte} (hword : v.pos + 4 ≤ v.bytes.length → word.length = 4)
    (h : v.advance word = .ok w) :
    w.xOp = v.xOp ∧ w.bytes.length = v.bytes.length ∧ w.pos + w.handy = v.pos + v.handy := by
  unfold View.advance at h
  split at h
  · cases h
  · split at h
    · cases h
    · have hlen := hword (by omega)
      cases h
      refine ⟨rfl, ?_, ?_⟩
      · simp only [List.length_append, List.length_take, List.length_drop, hlen]
        omega
      · dsimp only
        omega

theorem View.length_word {v : View} (h : v.pos + 4 ≤ v.bytes.length) : v.word.length = 4 := by
  rw [View.word, List.length_take, List.length_drop]
  omega

/-- `xdrmem_getint32`: the word as an unsigned number. -/
def xdrmemGetint32 : Filter Nat where
  run v := do
    let w ← v.advance v.word
    pure (true, ntohl v.word, w)
  frame := by
    intro v b a w h
    obtain ⟨w', hw, h⟩ := bind_ok h
    cases h
    exact View.advance_ok View.length_word hw

/-- `xdrmem_putint32`. -/
def xdrmemPutint32 (n : Nat) : Filter Unit where
  run v := do
    let w ← v.advance (htonl n)
    pure (true, (), w)
  frame := by
    intro v b a w h
    obtain ⟨w', hw, h⟩ := bind_ok h
    cases h
    exact View.advance_ok (fun _ => rfl) hw

/-- One filter after another, as long as they succeed; `d` is left where the first one fails. -/
def Filter.seq {α β : Type} (f : Filter α) (d : β) (g : α → Filter β) : Filter β where
  run v := do
    let (ok, a, w) ← f.run v
    if ok then (g a).run w else pure (false, d, w)
  frame := by
    intro v b a w h
    obtain ⟨⟨ok, x, u⟩, hu, h⟩ := bind_ok h
    obtain ⟨hop, hlen, hroom⟩ := f.frame hu
    cases ok with
    | false =>
        cases h
        exact ⟨hop, hlen, hroom⟩
    | true =>
        obtain ⟨hop', hlen', hroom'⟩ := (g x).frame h
        exact ⟨hop'.trans hop, hlen'.trans hlen, hroom'.trans hroom⟩

/-- A filter that touches nothing. -/
def Filter.done {α : Type} (ok : Bool) (a : α) : Filter α where
  run v := .ok (ok, a, v)
  frame := by
    intro v b a' w h
    cases h
    exact ⟨rfl, rfl, rfl⟩

/-- Decode `n` words. -/
def getWords : Nat → Filter (List Nat)
  | 0 => .done true []
  | n + 1 => xdrmemGetint32.seq [] fun word => (getWords n).seq [] fun rest => .done true (word :: rest)

/-- Encode some words. -/
def putWords : List Nat → Filter Unit
  | [] => .done true ()
  | word :: rest => (xdrmemPutint32 word).seq () fun _ => putWords rest

end RpcMt
