import RpcMt.XdrStreams
import RpcMt.XdrRec
import RpcMt.RecMarking

/-! The decoding half of a record stream does what a reader of the plain bytes does. The reader has no
buffer: its state is the bytes that are left, the bytes left in the fragment and whether the fragment is
the last one of its record. Where `readit` cuts the bytes does not show. -/

namespace RpcMt.XdrRec

/-! ### The reader -/

structure Reader where
  rest : List Byte
  fbtbc : Nat
  lastFrag : Bool
  deriving DecidableEq, Repr

namespace Reader

/-- The next `n` bytes; all that is left is gone if there are fewer. -/
def take (n : Nat) (r : Reader) : Option (List Byte) × Reader :=
  if r.rest.length < n then (none, { r with rest := [] })
  else (some (r.rest.take n), { r with rest := r.rest.drop n })

/-- Go on to the next fragment. -/
def header (r : Reader) : Bool × Reader :=
  match r.take 4 with
  | (none, r) => (false, r)
  | (some bytes, r) =>
      if ntohl bytes = 0 then (false, { r with lastFrag := false })
      else (true, { r with fbtbc := ntohl bytes % 2 ^ 31, lastFrag := (ntohl bytes).testBit 31 })

theorem take_some {n : Nat} {r r' : Reader} {bs : List Byte} (h : r.take n = (some bs, r')) :
    n ≤ r.rest.length ∧ bs = r.rest.take n ∧ r' = { r with rest := r.rest.drop n } := by
  unfold take at h
  split at h
  · cases h
  · cases h
    exact ⟨by omega, rfl, rfl⟩

theorem take_length {n : Nat} {r r' : Reader} {bs : List Byte} (h : r.take n = (some bs, r')) :
    r'.rest.length + n = r.rest.length := by
  obtain ⟨hle, _, rfl⟩ := take_some h
  show (r.rest.drop n).length + n = _
  rw [List.length_drop]
  omega

theorem header_length {r r' : Reader} (h : r.header = (true, r')) : r'.rest.length + 4 = r.rest.length := by
  unfold header at h
  split at h
  · cases h
  · rename_i htake
    have hlen := take_length htake
    split at h
    · cases h
    · cases h
      exact hlen

/-- A fragment without bytes is the last one of its record. -/
theorem header_empty {r r' : Reader} (h : r.header = (true, r')) (hempty : r'.fbtbc = 0) : r'.lastFrag = true := by
  unfold header at h
  split at h
  · cases h
  · rename_i bytes r'' htake
    obtain ⟨_, rfl, rfl⟩ := take_some htake
    split at h
    · cases h
    · rename_i hne
      cases h
      have hzero : ntohl (r.rest.take 4) % 2 ^ 31 = 0 := hempty
      have hlt : ntohl (r.rest.take 4) < 2 ^ 32 := by
        refine Nat.lt_of_lt_of_le ntohl_lt (Nat.pow_le_pow_right (by decide) ?_ : _ ≤ 256 ^ 4)
        exact List.length_take_le 4 _
      show (ntohl (r.rest.take 4)).testBit 31 = true
      have htop : ntohl (r.rest.take 4) = 2 ^ 31 := by omega
      rw [htop]
      decide

/-- Bytes may be taken in two parts. -/
theorem take_split {c len : Nat} {r : Reader} (hc : c ≤ len) (hrest : c ≤ r.rest.length) :
    r.take len = ((take (len - c) { r with rest := r.rest.drop c }).1.map (r.rest.take c ++ ·),
      (take (len - c) { r with rest := r.rest.drop c }).2) := by
  unfold take
  dsimp only
  rw [List.length_drop]
  by_cases hshort : r.rest.length < len
  · rw [if_pos hshort, if_pos (by omega)]
    rfl
  · rw [if_neg hshort, if_neg (by omega), List.drop_drop, Nat.add_sub_cancel' hc]
    have htake : r.rest.take len = r.rest.take c ++ (r.rest.drop c).take (len - c) := by
      rw [← List.take_add, Nat.add_sub_cancel' hc]
    rw [htake]
    rfl

/-- Bytes of the record under way, from as many fragments as it takes. -/
def getbytes (len : Nat) (r : Reader) : Option (List Byte) × Reader :=
  if len = 0 then (some [], r)
  else if r.fbtbc = 0 then
    if r.lastFrag then (none, r)
    else match _h : r.header with
      | (false, r') => (none, r')
      | (true, r') => r'.getbytes len
  else match _h : r.take (min len r.fbtbc) with
    | (none, r') => (none, r')
    | (some bytes, r') =>
        let more := getbytes (len - min len r.fbtbc) { r' with fbtbc := r.fbtbc - min len r.fbtbc }
        (more.1.map (bytes ++ ·), more.2)
termination_by r.rest.length
decreasing_by
  · have hlen := header_length _h
    omega
  · have hlen := take_length _h
    show r'.rest.length < r.rest.length
    omega

section Unfold

variable {len : Nat} {r : Reader}

theorem getbytes_header (hlen : len ≠ 0) (hempty : r.fbtbc = 0) (hlast : r.lastFrag = false) :
    r.getbytes len = if r.header.1 then r.header.2.getbytes len else (none, r.header.2) := by
  rw [getbytes, if_neg hlen, if_pos hempty, hlast, if_neg Bool.false_ne_true]
  split
  · rename_i h
    rw [h]
    rfl
  · rename_i h
    rw [h]
    rfl

theorem getbytes_take (hlen : len ≠ 0) (hempty : r.fbtbc ≠ 0) :
    r.getbytes len =
      match r.take (min len r.fbtbc) with
      | (none, r') => (none, r')
      | (some bytes, r') =>
          let more := getbytes (len - min len r.fbtbc) { r' with fbtbc := r.fbtbc - min len r.fbtbc }
          (more.1.map (bytes ++ ·), more.2) := by
  rw [getbytes, if_neg hlen, if_neg hempty]
  split
  · rename_i h
    rw [h]
  · rename_i h
    rw [h]

end Unfold

/-- To the end of the record under way. -/
def skip (r : Reader) : Bool × Reader :=
  if 0 < r.fbtbc ∨ r.lastFrag = false then
    match _h : r.take r.fbtbc with
    | (none, r') => (false, r')
    | (some _, r') =>
        if r.lastFrag then (true, { r' with fbtbc := 0 })
        else match _h' : header { r' with fbtbc := 0 } with
          | (false, r'') => (false, r'')
          | (true, r'') => r''.skip
  else (true, r)
termination_by r.rest.length
decreasing_by
  have hlen := take_length _h
  have hlen' := header_length _h'
  have hsame : (Reader.mk r'.rest 0 r'.lastFrag).rest = r'.rest := rfl
  rw [hsame] at hlen'
  omega

theorem skip_end {r : Reader} (hempty : r.fbtbc = 0) (hlast : r.lastFrag = true) : r.skip = (true, r) := by
  rw [skip, if_neg]
  rw [hempty, hlast]
  decide

theorem skip_take {r : Reader} (h : 0 < r.fbtbc ∨ r.lastFrag = false) :
    r.skip =
      match r.take r.fbtbc with
      | (none, r') => (false, r')
      | (some _, r') =>
          if r.lastFrag then (true, { r' with fbtbc := 0 })
          else if (header { r' with fbtbc := 0 }).1 then (header { r' with fbtbc := 0 }).2.skip
          else (false, (header { r' with fbtbc := 0 }).2) := by
  rw [skip, if_pos h]
  split
  · rename_i htake
    rw [htake]
  · rename_i htake
    rw [htake]
    dsimp only
    split
    · rfl
    · split
      · rename_i hheader
        rw [hheader]
        rfl
      · rename_i hheader
        rw [hheader]
        rfl

def skiprecord (r : Reader) : Bool × Reader :=
  if r.skip.1 then (true, { r.skip.2 with lastFrag := false }) else r.skip

/-! A reader never has more left than before. -/

theorem take_le (n : Nat) (r : Reader) : (r.take n).2.rest.length ≤ r.rest.length := by
  unfold take
  split
  · exact Nat.zero_le _
  · rw [List.length_drop]
    exact Nat.sub_le _ _

theorem header_le (r : Reader) : r.header.2.rest.length ≤ r.rest.length := by
  have hle := r.take_le 4
  unfold header
  generalize r.take 4 = t at hle
  obtain ⟨bytes, r'⟩ := t
  cases bytes with
  | none => exact hle
  | some bytes =>
      dsimp only
      split
      · exact hle
      · exact hle

theorem getbytes_le (len : Nat) (r : Reader) : (r.getbytes len).2.rest.length ≤ r.rest.length := by
  fun_induction getbytes len r with
  | case1 => exact Nat.le_refl _
  | case2 => exact Nat.le_refl _
  | case3 len r _ _ _ r' h =>
      have hle := r.header_le
      rw [h] at hle
      exact hle
  | case4 len r _ _ _ r' h ih =>
      have hle := r.header_le
      rw [h] at hle
      exact Nat.le_trans ih hle
  | case5 len r _ _ r' h =>
      have hle := r.take_le (min len r.fbtbc)
      rw [h] at hle
      exact hle
  | case6 len r _ _ bytes r' h more ih =>
      have hle := r.take_le (min len r.fbtbc)
      rw [h] at hle
      exact Nat.le_trans ih hle

theorem skip_le (r : Reader) : r.skip.2.rest.length ≤ r.rest.length := by
  fun_induction skip r with
  | case1 r _ r' h =>
      have hle := r.take_le r.fbtbc
      rw [h] at hle
      exact hle
  | case2 r _ bytes r' h _ =>
      have hle := r.take_le r.fbtbc
      rw [h] at hle
      exact hle
  | case3 r _ bytes r' h _ r'' h' =>
      have hle := r.take_le r.fbtbc
      have hle' := header_le { r' with fbtbc := 0 }
      rw [h] at hle
      rw [h'] at hle'
      exact Nat.le_trans hle' hle
  | case4 r _ bytes r' h _ r'' h' ih =>
      have hle := r.take_le r.fbtbc
      have hle' := header_le { r' with fbtbc := 0 }
      rw [h] at hle
      rw [h'] at hle'
      exact Nat.le_trans ih (Nat.le_trans hle' hle)
  | case5 => exact Nat.le_refl _

end Reader

/-! ### Calls -/

section Calls

variable {σ : Type} (readit : Readit σ)

/-- What `xdrrec_getlong` and `xdrrec_getint32` do with the bytes of their word. -/
def getWord {α : Type} (f : List Byte → α) (s : Stream σ) : Option (Option α × Stream σ) :=
  if 4 ≤ s.strm.fbtbc ∧ 4 ≤ s.strm.input.length then
    some (some (f (s.strm.input.take 4)),
      { s with strm := { s.strm with input := s.strm.input.drop 4, fbtbc := s.strm.fbtbc - 4 } })
  else do
    let (r, s) ← xdrrecGetbytes readit s 4
    some (r.map f, s)

def xdrrecGetlong : Stream σ → Option (Option Int × Stream σ) := getWord readit wordOf

theorem xdrrecGetint32_eq (s : Stream σ) : xdrrecGetint32 readit s = getWord readit ntohl s := rfl

inductive ReadCall where
  | getlong
  | getint32
  | getbytes (len : Nat)
  | skiprecord
  | eof
  deriving DecidableEq, Repr

/-- The status and the value of a call. What `xdrrec_eof` returns is left out: it looks at the buffer. -/
inductive Answer where
  | long (r : Option Int)
  | int32 (r : Option Nat)
  | bytes (r : Option (List Byte))
  | skipped (ok : Bool)
  | eof
  deriving DecidableEq, Repr

def ReadCall.run (turns : Nat) : ReadCall → Stream σ → Option (Answer × Stream σ)
  | .getlong, s => do
      let (r, s) ← xdrrecGetlong readit s
      some (.long r, s)
  | .getint32, s => do
      let (r, s) ← xdrrecGetint32 readit s
      some (.int32 r, s)
  | .getbytes len, s => do
      let (r, s) ← xdrrecGetbytes readit s len
      some (.bytes r, s)
  | .skiprecord, s => do
      let (ok, s) ← xdrrecSkiprecord readit turns s
      some (.skipped ok, s)
  | .eof, s => do
      let (_, s) ← xdrrecEof readit turns s
      some (.eof, s)

/-- A sequence of calls, and their answers. -/
def runReads (turns : Nat) : List ReadCall → Stream σ → Option (List Answer × Stream σ)
  | [], s => some ([], s)
  | call :: calls, s => do
      let (a, s) ← call.run readit turns s
      let (as, s) ← runReads turns calls s
      some (a :: as, s)

end Calls

/-- What the reader answers to a call. -/
def Reader.call : ReadCall → Reader → Answer × Reader
  | .getlong, r => (.long ((r.getbytes 4).1.map wordOf), (r.getbytes 4).2)
  | .getint32, r => (.int32 ((r.getbytes 4).1.map ntohl), (r.getbytes 4).2)
  | .getbytes len, r => (.bytes (r.getbytes len).1, (r.getbytes len).2)
  | .skiprecord, r => (.skipped r.skiprecord.1, r.skiprecord.2)
  | .eof, r => (.eof, r.skip.2)

theorem Reader.call_le (c : ReadCall) (r : Reader) : (r.call c).2.rest.length ≤ r.rest.length := by
  cases c with
  | getlong => exact r.getbytes_le 4
  | getint32 => exact r.getbytes_le 4
  | getbytes len => exact r.getbytes_le len
  | skiprecord =>
      have hle := r.skip_le
      show r.skiprecord.2.rest.length ≤ _
      unfold Reader.skiprecord
      split
      · exact hle
      · exact hle
  | eof => exact r.skip_le

def Reader.run : List ReadCall → Reader → List Answer × Reader
  | [], r => ([], r)
  | c :: calls, r => ((r.call c).1 :: (Reader.run calls (r.call c).2).1, (Reader.run calls (r.call c).2).2)

/-! ### The stream shows what the reader has left -/

section Refine

variable {σ : Type} (readit : Readit σ) (pending : σ → List Byte)

/-- `readit` hands out the pending bytes in chunks of at least one byte and at most as many as are asked
for, cut in any way, and -1 when there are none. -/
structure Supplies : Prop where
  chunk : ∀ h n, 0 < n → pending h ≠ [] → ∃ bs h', readit h n = some (some bs, h') ∧ bs ≠ [] ∧ bs.length ≤ n ∧
    pending h = bs ++ pending h'
  closed : ∀ h n, pending h = [] → ∃ h', readit h n = some (none, h') ∧ pending h' = []

/-- The reader whose bytes left are those in the buffer and those to come. -/
structure Shows (s : Stream σ) (r : Reader) : Prop where
  rest : r.rest = s.strm.input ++ pending s.handle
  fbtbc : r.fbtbc = s.strm.fbtbc
  lastFrag : r.lastFrag = s.strm.lastFrag
  size : 4 ≤ s.strm.inSize

variable {readit pending} {s : Stream σ} {r : Reader}

/-- An empty buffer is filled, unless no bytes are left. -/
theorem Shows.fillInputBuf (hs : Supplies readit pending) (h : Shows pending s r) (hempty : s.strm.input = []) :
    (r.rest = [] ∧ ∃ s', fillInputBuf readit s = some (false, s') ∧ Shows pending s' r) ∨
      ∃ s', fillInputBuf readit s = some (true, s') ∧ Shows pending s' r ∧ s'.strm.input ≠ [] := by
  have hrest : r.rest = pending s.handle := by
    rw [h.rest, hempty, List.nil_append]
  by_cases hpending : pending s.handle = []
  · left
    obtain ⟨h', hread, hnone⟩ := hs.closed s.handle (s.strm.inSize - s.strm.inBoundry % 4) hpending
    refine ⟨hrest.trans hpending, { s with handle := h' }, ?_, ?_⟩
    · unfold XdrRec.fillInputBuf
      dsimp only
      rw [hread]
      rfl
    · refine ⟨?_, h.fbtbc, h.lastFrag, h.size⟩
      show r.rest = s.strm.input ++ pending h'
      rw [hrest, hpending, hempty, hnone]
      rfl
  · right
    have hsize := h.size
    have hroom : 0 < s.strm.inSize - s.strm.inBoundry % 4 := by omega
    obtain ⟨bs, h', hread, hne, _, hsplit⟩ := hs.chunk s.handle _ hroom hpending
    refine ⟨⟨{ s.strm with inBoundry := s.strm.inBoundry % 4 + bs.length, input := bs }, h'⟩, ?_, ?_, hne⟩
    · unfold XdrRec.fillInputBuf
      dsimp only
      rw [hread]
      rfl
    · exact ⟨hrest.trans hsplit, h.fbtbc, h.lastFrag, h.size⟩

/-- The loop over the buffer takes what the reader takes. An empty buffer costs a turn more. -/
theorem Shows.inputLoop (hs : Supplies readit pending) {turns len : Nat} (h : Shows pending s r)
    (passed : List Byte) (hturns : 0 < turns)
    (hlen : 2 * len + (if s.strm.input = [] then 1 else 0) ≤ turns) :
    ∃ s', inputLoop readit turns s len passed = some ((r.take len).1.map (passed ++ ·), s') ∧
      Shows pending s' (r.take len).2 := by
  induction turns generalizing s r len passed with
  | zero => exact absurd hturns (Nat.lt_irrefl 0)
  | succ turns ih =>
      unfold XdrRec.inputLoop
      by_cases hzero : len = 0
      · rw [if_pos hzero, hzero]
        refine ⟨s, ?_, h⟩
        show some (some passed, s) = some (some (passed ++ []), s)
        rw [List.append_nil]
      rw [if_neg hzero]
      by_cases hempty : s.strm.input = []
      · rw [if_pos hempty] at hlen ⊢
        rcases h.fillInputBuf hs hempty with ⟨hnone, s', hfill, hshows⟩ | ⟨s', hfill, hshows, hne⟩
        · have htake : r.take len = (none, r) := by
            rw [Reader.take, hnone, List.length_nil, if_pos (Nat.pos_of_ne_zero hzero), ← hnone]
          rw [hfill, htake]
          exact ⟨s', rfl, hshows⟩
        · rw [hfill]
          refine ih hshows passed (by omega) ?_
          rw [if_neg hne]
          omega
      · have hpos : 0 < s.strm.input.length := List.length_pos_iff.mpr hempty
        rw [if_neg hempty] at hlen ⊢
        obtain ⟨c, hc⟩ : ∃ c, c = min len s.strm.input.length := ⟨_, rfl⟩
        have hrest : c ≤ r.rest.length := by
          rw [h.rest, List.length_append]
          omega
        have hin : c ≤ s.strm.input.length := by omega
        have hdrop : r.rest.drop c = s.strm.input.drop c ++ pending s.handle := by
          rw [h.rest, List.drop_append_of_le_length hin]
        have htake : r.rest.take c = s.strm.input.take c := by
          rw [h.rest, List.take_append_of_le_length hin]
        have hshows : Shows pending { s with strm := { s.strm with input := s.strm.input.drop c } }
            { r with rest := r.rest.drop c } := ⟨hdrop, h.fbtbc, h.lastFrag, h.size⟩
        have hbound : 2 * (len - c) + (if s.strm.input.drop c = [] then 1 else 0) ≤ turns := by
          split
          · omega
          · omega
        obtain ⟨s', hloop, hshows'⟩ := ih hshows (passed ++ s.strm.input.take c) (by omega) hbound
        have hle : c ≤ len := by omega
        rw [Reader.take_split hle hrest]
        refine ⟨s', ?_, hshows'⟩
        dsimp only
        rw [← hc, hloop, htake, Option.map_map]
        refine congrArg (fun f => some (Option.map f _, s')) ?_
        funext bs
        exact List.append_assoc _ _ _

theorem Shows.getInputBytes (hs : Supplies readit pending) (h : Shows pending s r) (len : Nat) :
    ∃ s', getInputBytes readit s len = some ((r.take len).1, s') ∧ Shows pending s' (r.take len).2 := by
  have hlen : 2 * len + (if s.strm.input = [] then 1 else 0) ≤ 2 * len + 1 := by
    split
    · omega
    · omega
  obtain ⟨s', hloop, hshows⟩ := h.inputLoop hs [] (Nat.succ_pos _) hlen
  refine ⟨s', ?_, hshows⟩
  unfold XdrRec.getInputBytes
  rw [hloop]
  refine congrArg (fun bs => some (bs, s')) ?_
  exact Option.map_id'

theorem Shows.skipInputBytes (hs : Supplies readit pending) (h : Shows pending s r) (cnt : Nat) :
    ∃ s', skipInputBytes readit s cnt = some ((r.take cnt).1.isSome, s') ∧ Shows pending s' (r.take cnt).2 := by
  obtain ⟨s', hget, hshows⟩ := h.getInputBytes hs cnt
  refine ⟨s', ?_, hshows⟩
  show (XdrRec.getInputBytes readit s cnt >>= fun r => some (r.1.isSome, r.2)) = _
  rw [hget]
  rfl

theorem Shows.setInputFragment (hs : Supplies readit pending) (h : Shows pending s r) :
    ∃ s', setInputFragment readit s = some (r.header.1, s') ∧ Shows pending s' r.header.2 := by
  obtain ⟨s', hget, hshows⟩ := h.getInputBytes hs 4
  unfold XdrRec.setInputFragment Reader.header
  rw [hget]
  generalize r.take 4 = t at hshows
  obtain ⟨bytes, r'⟩ := t
  cases bytes with
  | none => exact ⟨s', rfl, hshows⟩
  | some bytes =>
      dsimp only [bind, Option.bind]
      by_cases hzero : ntohl bytes = 0
      · rw [if_pos hzero, if_pos hzero]
        refine ⟨_, rfl, hshows.rest, hshows.fbtbc, ?_, hshows.size⟩
        show false = (ntohl bytes).testBit 31
        rw [hzero]
        rfl
      · rw [if_neg hzero, if_neg hzero]
        exact ⟨_, rfl, hshows.rest, rfl, rfl, hshows.size⟩

/-- The turns that the loop of `xdrrec_getbytes` may take: at most one header for each turn that copies. -/
def getbytesTurns (len : Nat) (r : Reader) : Nat :=
  if r.fbtbc = 0 then (if r.lastFrag then 1 else 2 * len + 2) else 2 * len + 1

theorem getbytesTurns_pos (len : Nat) (r : Reader) : 0 < getbytesTurns len r := by
  unfold getbytesTurns
  split
  · split <;> omega
  · omega

theorem getbytesTurns_le (len : Nat) (r : Reader) : getbytesTurns len r ≤ 2 * len + 2 := by
  unfold getbytesTurns
  split
  · split <;> omega
  · omega

theorem getbytesTurns_header (len : Nat) {r r' : Reader} (h : r.header = (true, r')) :
    getbytesTurns len r' ≤ 2 * len + 1 := by
  unfold getbytesTurns
  split
  · rename_i hempty
    rw [Reader.header_empty h hempty, if_pos rfl]
    omega
  · omega

theorem Shows.getbytesLoop (hs : Supplies readit pending) {turns len : Nat} {addr : List Byte}
    (h : Shows pending s r) (hturns : getbytesTurns len r ≤ turns) :
    ∃ s', getbytesLoop readit turns s len addr = some ((r.getbytes len).1.map (addr ++ ·), s') ∧
      Shows pending s' (r.getbytes len).2 := by
  induction turns generalizing s r len addr with
  | zero => exact absurd (getbytesTurns_pos len r) (Nat.not_lt.mpr hturns)
  | succ turns ih =>
      unfold XdrRec.getbytesLoop
      rw [← h.fbtbc, ← h.lastFrag]
      by_cases hzero : len = 0
      · rw [if_pos hzero, Reader.getbytes, if_pos hzero]
        refine ⟨s, ?_, h⟩
        show some (some addr, s) = some (some (addr ++ []), s)
        rw [List.append_nil]
      rw [if_neg hzero]
      by_cases hempty : r.fbtbc = 0
      · rw [if_pos hempty]
        cases hlast : r.lastFrag with
        | true =>
            rw [Reader.getbytes, if_neg hzero, if_pos hempty, hlast]
            exact ⟨s, rfl, h⟩
        | false =>
            obtain ⟨s', hset, hshows⟩ := h.setInputFragment hs
            rw [Reader.getbytes_header hzero hempty hlast, hset]
            cases hheader : r.header with
            | mk ok r' =>
                rw [hheader] at hshows
                cases ok with
                | false => exact ⟨s', rfl, hshows⟩
                | true =>
                    have hle := getbytesTurns_header len hheader
                    rw [getbytesTurns, if_pos hempty, hlast, if_neg Bool.false_ne_true] at hturns
                    refine ih hshows ?_
                    show getbytesTurns len r' ≤ turns
                    omega
      · obtain ⟨c, hc⟩ : ∃ c, c = min len r.fbtbc := ⟨_, rfl⟩
        obtain ⟨s', hget, hshows⟩ := h.getInputBytes hs c
        rw [if_neg hempty, Reader.getbytes_take hzero hempty, ← hc]
        dsimp only
        rw [hget]
        cases htake : r.take c with
        | mk bytes r' =>
            rw [htake] at hshows
            cases bytes with
            | none => exact ⟨s', rfl, hshows⟩
            | some bytes =>
                have hsame : r'.fbtbc = r.fbtbc := by rw [(Reader.take_some htake).2.2]
                have hleft : Shows pending
                    { s' with strm := { s'.strm with fbtbc := s'.strm.fbtbc - c } }
                    { r' with fbtbc := r.fbtbc - c } := by
                  refine ⟨hshows.rest, ?_, hshows.lastFrag, hshows.size⟩
                  show r.fbtbc - c = s'.strm.fbtbc - c
                  rw [← hshows.fbtbc, hsame]
                have hbound : getbytesTurns (len - c) { r' with fbtbc := r.fbtbc - c } ≤ turns := by
                  have hle := getbytesTurns_le (len - c) { r' with fbtbc := r.fbtbc - c }
                  rw [getbytesTurns, if_neg hempty] at hturns
                  omega
                obtain ⟨s'', hloop, hshows'⟩ := ih hleft hbound
                refine ⟨s'', ?_, hshows'⟩
                dsimp only [bind, Option.bind]
                rw [hloop, Option.map_map]
                refine congrArg (fun f => some (Option.map f _, s'')) ?_
                funext bs
                exact List.append_assoc _ _ _

theorem Shows.xdrrecGetbytes (hs : Supplies readit pending) (h : Shows pending s r) (len : Nat) :
    ∃ s', xdrrecGetbytes readit s len = some ((r.getbytes len).1, s') ∧ Shows pending s' (r.getbytes len).2 := by
  obtain ⟨s', hloop, hshows⟩ := h.getbytesLoop hs (getbytesTurns_le len r)
  refine ⟨s', ?_, hshows⟩
  unfold XdrRec.xdrrecGetbytes
  rw [hloop]
  refine congrArg (fun bs => some (bs, s')) ?_
  exact Option.map_id'

/-- The fast path takes a word off the buffer, as the slow one would. -/
theorem Shows.fast (h : Shows pending s r) (hfast : 4 ≤ s.strm.fbtbc ∧ 4 ≤ s.strm.input.length) :
    (r.getbytes 4).1 = some (s.strm.input.take 4) ∧
      Shows pending { s with strm := { s.strm with input := s.strm.input.drop 4, fbtbc := s.strm.fbtbc - 4 } }
        (r.getbytes 4).2 := by
  have hfb := h.fbtbc
  have hmin : min 4 r.fbtbc = 4 := by omega
  have htake : r.take 4 = (some (s.strm.input.take 4), { r with rest := s.strm.input.drop 4 ++ pending s.handle }) := by
    have hlen : ¬(s.strm.input ++ pending s.handle).length < 4 := by
      rw [List.length_append]
      omega
    rw [Reader.take, h.rest, if_neg hlen, List.take_append_of_le_length hfast.2,
      List.drop_append_of_le_length hfast.2]
  rw [Reader.getbytes_take (by decide) (by omega), hmin, htake]
  dsimp only
  rw [Reader.getbytes, if_pos rfl]
  refine ⟨?_, rfl, ?_, h.lastFrag, h.size⟩
  · show some (s.strm.input.take 4 ++ []) = _
    rw [List.append_nil]
  · show r.fbtbc - 4 = s.strm.fbtbc - 4
    rw [hfb]

theorem Shows.getWord (hs : Supplies readit pending) (h : Shows pending s r) {α : Type} (f : List Byte → α) :
    ∃ s', getWord readit f s = some ((r.getbytes 4).1.map f, s') ∧ Shows pending s' (r.getbytes 4).2 := by
  unfold XdrRec.getWord
  by_cases hfast : 4 ≤ s.strm.fbtbc ∧ 4 ≤ s.strm.input.length
  · obtain ⟨hword, hshows⟩ := h.fast hfast
    rw [if_pos hfast, hword]
    exact ⟨_, rfl, hshows⟩
  · obtain ⟨s', hget, hshows⟩ := h.xdrrecGetbytes hs 4
    rw [if_neg hfast, hget]
    exact ⟨s', rfl, hshows⟩

/-- What a turn of the loop does when it has passed the fragment. -/
theorem Shows.passed (hs : Supplies readit pending) {turns : Nat}
    (ih : ∀ {s : Stream σ} {r : Reader}, Shows pending s r → r.rest.length + 2 ≤ turns →
      ∃ s', skipFragments readit turns s = some (r.skip.1, s') ∧ Shows pending s' r.skip.2)
    (h : Shows pending s r) (hzero : r.fbtbc = 0) (hturns : r.rest.length < turns) :
    ∃ s', (if s.strm.lastFrag then skipFragments readit turns s
        else do
          let (ok, s) ← XdrRec.setInputFragment readit s
          if ok then skipFragments readit turns s else some (false, s)) =
        some ((if r.lastFrag then (true, r) else if r.header.1 then r.header.2.skip else (false, r.header.2)).1, s') ∧
      Shows pending s'
        (if r.lastFrag then (true, r) else if r.header.1 then r.header.2.skip else (false, r.header.2)).2 := by
  rw [← h.lastFrag]
  cases hlast : r.lastFrag with
  | true =>
      refine ⟨s, ?_, h⟩
      cases turns with
      | zero => exact absurd hturns (Nat.not_lt_zero _)
      | succ turns =>
          rw [if_pos rfl, XdrRec.skipFragments, ← h.fbtbc, ← h.lastFrag, hzero, hlast]
          rfl
  | false =>
      obtain ⟨s', hset, hshows⟩ := h.setInputFragment hs
      rw [if_neg Bool.false_ne_true, if_neg Bool.false_ne_true, hset]
      cases hheader : r.header with
      | mk ok r' =>
          rw [hheader] at hshows
          cases ok with
          | false => exact ⟨s', rfl, hshows⟩
          | true =>
              have hlen := Reader.header_length hheader
              refine ih hshows ?_
              show r'.rest.length + 2 ≤ turns
              omega

/-- Every turn but the last two reads a header. -/
theorem Shows.skipFragments (hs : Supplies readit pending) {turns : Nat} (h : Shows pending s r)
    (hturns : r.rest.length + 2 ≤ turns) :
    ∃ s', skipFragments readit turns s = some (r.skip.1, s') ∧ Shows pending s' r.skip.2 := by
  induction turns generalizing s r with
  | zero => exact absurd hturns (by omega)
  | succ turns ih =>
      unfold XdrRec.skipFragments
      rw [← h.fbtbc, ← h.lastFrag]
      by_cases hmore : 0 < r.fbtbc ∨ r.lastFrag = false
      · obtain ⟨s', hskip, hshows⟩ := h.skipInputBytes hs r.fbtbc
        rw [if_pos hmore, Reader.skip_take hmore, hskip]
        cases htake : r.take r.fbtbc with
        | mk bytes r' =>
            rw [htake] at hshows
            cases bytes with
            | none => exact ⟨s', rfl, hshows⟩
            | some bytes =>
                have hsame : r.lastFrag = r'.lastFrag := by rw [(Reader.take_some htake).2.2]
                have hlen := Reader.take_length htake
                have hzero : Shows pending { s' with strm := { s'.strm with fbtbc := 0 } } { r' with fbtbc := 0 } :=
                  ⟨hshows.rest, rfl, hshows.lastFrag, hshows.size⟩
                rw [hsame]
                refine hzero.passed hs ih rfl ?_
                show r'.rest.length < turns
                omega
      · rw [not_or, Nat.not_lt, Nat.le_zero_eq, Bool.not_eq_false] at hmore
        rw [if_neg (by rw [hmore.1, hmore.2]; decide), Reader.skip_end hmore.1 hmore.2]
        exact ⟨s, rfl, h⟩

theorem Shows.xdrrecSkiprecord (hs : Supplies readit pending) {turns : Nat} (h : Shows pending s r)
    (hturns : r.rest.length + 2 ≤ turns) :
    ∃ s', xdrrecSkiprecord readit turns s = some (r.skiprecord.1, s') ∧ Shows pending s' r.skiprecord.2 := by
  obtain ⟨s', hskip, hshows⟩ := h.skipFragments hs hturns
  unfold XdrRec.xdrrecSkiprecord Reader.skiprecord
  rw [hskip]
  cases hr : r.skip with
  | mk ok r' =>
      rw [hr] at hshows
      cases ok with
      | false => exact ⟨s', rfl, hshows⟩
      | true => exact ⟨_, rfl, hshows.rest, hshows.fbtbc, rfl, hshows.size⟩

theorem Shows.xdrrecEof (hs : Supplies readit pending) {turns : Nat} (h : Shows pending s r)
    (hturns : r.rest.length + 2 ≤ turns) :
    ∃ ok s', xdrrecEof readit turns s = some (ok, s') ∧ Shows pending s' r.skip.2 := by
  obtain ⟨s', hskip, hshows⟩ := h.skipFragments hs hturns
  unfold XdrRec.xdrrecEof
  rw [hskip]
  cases hr : r.skip.1 with
  | false => exact ⟨true, s', rfl, hshows⟩
  | true => exact ⟨_, s', rfl, hshows⟩

/-- Every call returns, with the reader's answer. -/
theorem Shows.call (hs : Supplies readit pending) {turns : Nat} (h : Shows pending s r)
    (hturns : r.rest.length + 2 ≤ turns) (c : ReadCall) :
    ∃ s', c.run readit turns s = some ((r.call c).1, s') ∧ Shows pending s' (r.call c).2 := by
  cases c with
  | getlong =>
      obtain ⟨s', heq, hshows⟩ := h.getWord hs wordOf
      refine ⟨s', ?_, hshows⟩
      simp only [ReadCall.run, xdrrecGetlong]
      rw [heq]
      rfl
  | getint32 =>
      obtain ⟨s', heq, hshows⟩ := h.getWord hs ntohl
      refine ⟨s', ?_, hshows⟩
      simp only [ReadCall.run, xdrrecGetint32_eq]
      rw [heq]
      rfl
  | getbytes len =>
      obtain ⟨s', heq, hshows⟩ := h.xdrrecGetbytes hs len
      refine ⟨s', ?_, hshows⟩
      simp only [ReadCall.run]
      rw [heq]
      rfl
  | skiprecord =>
      obtain ⟨s', heq, hshows⟩ := h.xdrrecSkiprecord hs hturns
      refine ⟨s', ?_, hshows⟩
      simp only [ReadCall.run]
      rw [heq]
      rfl
  | eof =>
      obtain ⟨ok, s', heq, hshows⟩ := h.xdrrecEof hs hturns
      refine ⟨s', ?_, hshows⟩
      simp only [ReadCall.run]
      rw [heq]
      rfl

theorem Shows.runReads (hs : Supplies readit pending) {turns : Nat} (h : Shows pending s r)
    (hturns : r.rest.length + 2 ≤ turns) (calls : List ReadCall) :
    ∃ s', runReads readit turns calls s = some ((Reader.run calls r).1, s') ∧
      Shows pending s' (Reader.run calls r).2 ∧ (Reader.run calls r).2.rest.length ≤ r.rest.length := by
  induction calls generalizing s r with
  | nil => exact ⟨s, rfl, h, Nat.le_refl _⟩
  | cons c calls ih =>
      have hle := r.call_le c
      obtain ⟨s', hcall, hshows⟩ := h.call hs hturns c
      obtain ⟨s'', hcalls, hshows', hle'⟩ := ih hshows (by omega)
      refine ⟨s'', ?_, hshows', Nat.le_trans hle' hle⟩
      unfold XdrRec.runReads
      rw [hcall]
      dsimp only [bind, Option.bind]
      rw [hcalls]
      rfl

theorem Shows.create {sendsize recvsize : Nat} (hsize : sendsize + recvsize + 4 < 2 ^ 31) (handle : σ) :
    Shows pending ⟨create (fixBufSize recvsize), handle⟩ ⟨pending handle, 0, true⟩ := by
  refine ⟨rfl, rfl, rfl, ?_⟩
  show 4 ≤ fixBufSize recvsize
  unfold fixBufSize uintRange
  dsimp only
  split
  · omega
  · omega

end Refine

end RpcMt.XdrRec
