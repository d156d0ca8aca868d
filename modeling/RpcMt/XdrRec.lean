import RpcMt.XdrMem

/-! The decoding half of the record streams of `xdr_rec.c`. A record is a sequence of fragments, each
behind a header with its length and a bit for the last one; the stream reads through a buffer that
`readit` fills. The handle that `readit` works on is a type parameter. `readit` has no value while it
blocks, and neither has what calls it. Loops are given a bound on their turns. -/

namespace RpcMt

/-- The incoming half of a `RECSTREAM`. `input` lies between `in_finger` and `in_boundry`, and
`inBoundry` is the distance of `in_boundry` from `in_base`, which is aligned. -/
structure RecStream where
  inSize : Nat
  inBoundry : Nat
  input : List Byte
  fbtbc : Nat
  lastFrag : Bool
  deriving DecidableEq, Repr

namespace XdrRec

/-- `fix_buf_size`, in the arithmetic of `u_int`. -/
def fixBufSize (s : Nat) : Nat :=
  let s := if s < 100 then 4000 else s
  (s + 3) % uintRange / 4 * 4

/-- The incoming half as `xdrrec_create` sets it up. -/
def create (recvsize : Nat) : RecStream :=
  { inSize := recvsize
    inBoundry := recvsize
    input := []
    fbtbc := 0
    lastFrag := true }

structure Stream (σ : Type) where
  strm : RecStream
  handle : σ

/-- `readit` with a handle and a length: the bytes that were read, or none for -1. -/
abbrev Readit (σ : Type) := σ → Nat → Option (Option (List Byte) × σ)

section Ops

variable {σ : Type} (readit : Readit σ)

def fillInputBuf (s : Stream σ) : Option (Bool × Stream σ) := do
  let i := s.strm.inBoundry % 4
  let (r, handle) ← readit s.handle (s.strm.inSize - i)
  match r with
  | none => some (false, { s with handle := handle })
  | some bytes =>
      some (true, ⟨{ s.strm with inBoundry := i + bytes.length, input := bytes }, handle⟩)

/-- The loop that `get_input_bytes` and `skip_input_bytes` share, with the bytes passed so far. -/
def inputLoop : Nat → Stream σ → Nat → List Byte → Option (Option (List Byte) × Stream σ)
  | 0, _, _, _ => none
  | turns + 1, s, len, passed =>
      if len = 0 then some (some passed, s)
      else if s.strm.input = [] then do
        let (ok, s) ← fillInputBuf readit s
        if ok then inputLoop turns s len passed else some (none, s)
      else
        let current := min len s.strm.input.length
        inputLoop turns { s with strm := { s.strm with input := s.strm.input.drop current } }
          (len - current) (passed ++ s.strm.input.take current)

def getInputBytes (s : Stream σ) (len : Nat) : Option (Option (List Byte) × Stream σ) :=
  inputLoop readit (2 * len + 1) s len []

/-- `skip_input_bytes`: the same loop without the copy. -/
def skipInputBytes (s : Stream σ) (cnt : Nat) : Option (Bool × Stream σ) := do
  let (r, s) ← inputLoop readit (2 * cnt + 1) s cnt []
  some (r.isSome, s)

def setInputFragment (s : Stream σ) : Option (Bool × Stream σ) := do
  let (r, s) ← getInputBytes readit s 4
  match r with
  | none => some (false, s)
  | some bytes =>
      let header := ntohl bytes
      let s := { s with strm := { s.strm with lastFrag := header.testBit 31 } }
      if header = 0 then some (false, s)
      else some (true, { s with strm := { s.strm with fbtbc := header % 2 ^ 31 } })

/-- The loop of `xdrrec_getbytes`, with the bytes copied so far. -/
def getbytesLoop : Nat → Stream σ → Nat → List Byte → Option (Option (List Byte) × Stream σ)
  | 0, _, _, _ => none
  | turns + 1, s, len, addr =>
      if len = 0 then some (some addr, s)
      else if s.strm.fbtbc = 0 then
        if s.strm.lastFrag then some (none, s)
        else do
          let (ok, s) ← setInputFragment readit s
          if ok then getbytesLoop turns s len addr else some (none, s)
      else do
        let current := min len s.strm.fbtbc
        let (r, s) ← getInputBytes readit s current
        match r with
        | none => some (none, s)
        | some bytes =>
            getbytesLoop turns { s with strm := { s.strm with fbtbc := s.strm.fbtbc - current } }
              (len - current) (addr ++ bytes)

def xdrrecGetbytes (s : Stream σ) (len : Nat) : Option (Option (List Byte) × Stream σ) :=
  getbytesLoop readit (2 * len + 2) s len []

def xdrrecGetint32 (s : Stream σ) : Option (Option Nat × Stream σ) :=
  if 4 ≤ s.strm.fbtbc ∧ 4 ≤ s.strm.input.length then
    some (some (ntohl (s.strm.input.take 4)),
      { s with strm := { s.strm with input := s.strm.input.drop 4, fbtbc := s.strm.fbtbc - 4 } })
  else do
    let (r, s) ← xdrrecGetbytes readit s 4
    some (r.map ntohl, s)

/-- The loop of `xdrrec_skiprecord` and `xdrrec_eof`: to the end of the record. -/
def skipFragments : Nat → Stream σ → Option (Bool × Stream σ)
  | 0, _ => none
  | turns + 1, s =>
      if 0 < s.strm.fbtbc ∨ s.strm.lastFrag = false then do
        let (ok, s) ← skipInputBytes readit s s.strm.fbtbc
        if ok then
          let s := { s with strm := { s.strm with fbtbc := 0 } }
          if s.strm.lastFrag then skipFragments turns s
          else do
            let (ok, s) ← setInputFragment readit s
            if ok then skipFragments turns s else some (false, s)
        else some (false, s)
      else some (true, s)

def xdrrecSkiprecord (turns : Nat) (s : Stream σ) : Option (Bool × Stream σ) := do
  let (ok, s) ← skipFragments readit turns s
  if ok then some (true, { s with strm := { s.strm with lastFrag := false } }) else some (false, s)

def xdrrecEof (turns : Nat) (s : Stream σ) : Option (Bool × Stream σ) := do
  let (ok, s) ← skipFragments readit turns s
  if ok then some (s.strm.input.isEmpty, s) else some (true, s)

end Ops

/-! ### What happens to the handle -/

section Reads

variable {σ : Type} {readit : Readit σ}

/-- The handle after some calls of `readit`. -/
inductive Reads (readit : Readit σ) (h : σ) : σ → Prop
  | refl : Reads readit h h
  | tail {h₁ h₂ : σ} {len : Nat} {r : Option (List Byte)} (hs : Reads readit h h₁)
      (hr : readit h₁ len = some (r, h₂)) : Reads readit h h₂

theorem Reads.trans {h h₁ h₂ : σ} (hs : Reads readit h h₁) (hs' : Reads readit h₁ h₂) :
    Reads readit h h₂ := by
  induction hs' with
  | refl => exact hs
  | tail _ hr ih => exact .tail ih hr

variable {s t : Stream σ}

theorem fillInputBuf_reads {ok : Bool} (h : fillInputBuf readit s = some (ok, t)) :
    Reads readit s.handle t.handle := by
  obtain ⟨⟨r, handle⟩, hr, h⟩ := Option.bind_eq_some_iff.mp h
  cases r with
  | none =>
      cases h
      exact .tail .refl hr
  | some bytes =>
      cases h
      exact .tail .refl hr

theorem inputLoop_reads {turns len : Nat} {passed : List Byte} {r : Option (List Byte)}
    (h : inputLoop readit turns s len passed = some (r, t)) : Reads readit s.handle t.handle := by
  induction turns generalizing s len passed with
  | zero => cases h
  | succ turns ih =>
      rw [inputLoop] at h
      split at h
      · cases h
        exact .refl
      · split at h
        · obtain ⟨⟨ok, u⟩, hfill, h⟩ := Option.bind_eq_some_iff.mp h
          have hreads := fillInputBuf_reads hfill
          cases ok with
          | false =>
              cases h
              exact hreads
          | true => exact hreads.trans (ih h)
        · have hrest := ih h
          exact hrest

theorem setInputFragment_reads {ok : Bool} (h : setInputFragment readit s = some (ok, t)) :
    Reads readit s.handle t.handle := by
  obtain ⟨⟨r, u⟩, hget, h⟩ := Option.bind_eq_some_iff.mp h
  have hreads := inputLoop_reads hget
  cases r with
  | none =>
      cases h
      exact hreads
  | some bytes =>
      dsimp only at h
      split at h
      · cases h
        exact hreads
      · cases h
        exact hreads

theorem getbytesLoop_reads {turns len : Nat} {addr : List Byte} {r : Option (List Byte)}
    (h : getbytesLoop readit turns s len addr = some (r, t)) : Reads readit s.handle t.handle := by
  induction turns generalizing s len addr with
  | zero => cases h
  | succ turns ih =>
      rw [getbytesLoop] at h
      split at h
      · cases h
        exact .refl
      · split at h
        · split at h
          · cases h
            exact .refl
          · obtain ⟨⟨ok, u⟩, hset, h⟩ := Option.bind_eq_some_iff.mp h
            have hreads := setInputFragment_reads hset
            cases ok with
            | false =>
                cases h
                exact hreads
            | true => exact hreads.trans (ih h)
        · obtain ⟨⟨r', u⟩, hget, h⟩ := Option.bind_eq_some_iff.mp h
          have hreads := inputLoop_reads hget
          cases r' with
          | none =>
              cases h
              exact hreads
          | some bytes =>
              have hrest := ih h
              exact hreads.trans hrest

theorem xdrrecGetint32_reads {r : Option Nat} (h : xdrrecGetint32 readit s = some (r, t)) :
    Reads readit s.handle t.handle := by
  unfold xdrrecGetint32 at h
  split at h
  · cases h
    exact .refl
  · obtain ⟨⟨r', u⟩, hget, h⟩ := Option.bind_eq_some_iff.mp h
    cases h
    exact getbytesLoop_reads hget

theorem skipFragments_reads {turns : Nat} {ok : Bool} (h : skipFragments readit turns s = some (ok, t)) :
    Reads readit s.handle t.handle := by
  induction turns generalizing s with
  | zero => cases h
  | succ turns ih =>
      rw [skipFragments] at h
      split at h
      · obtain ⟨⟨ok', u⟩, hskip, h⟩ := Option.bind_eq_some_iff.mp h
        obtain ⟨⟨r, v⟩, hloop, hpure⟩ := Option.bind_eq_some_iff.mp hskip
        cases hpure
        have hreads := inputLoop_reads hloop
        cases hr : r.isSome with
        | false =>
            rw [hr] at h
            cases h
            exact hreads
        | true =>
            rw [hr] at h
            dsimp only at h
            split at h
            · split at h
              · have hrest := ih h
                exact hreads.trans hrest
              · obtain ⟨⟨ok'', w⟩, hset, h⟩ := Option.bind_eq_some_iff.mp h
                have hfrag := setInputFragment_reads hset
                have hreads' : Reads readit s.handle w.handle := hreads.trans hfrag
                cases ok'' with
                | false =>
                    cases h
                    exact hreads'
                | true => exact hreads'.trans (ih h)
            · cases h
              exact hreads
      · cases h
        exact .refl

theorem xdrrecSkiprecord_reads {turns : Nat} {ok : Bool}
    (h : xdrrecSkiprecord readit turns s = some (ok, t)) : Reads readit s.handle t.handle := by
  obtain ⟨⟨ok', u⟩, hskip, h⟩ := Option.bind_eq_some_iff.mp h
  have hreads := skipFragments_reads hskip
  cases ok' with
  | false =>
      cases h
      exact hreads
  | true =>
      cases h
      exact hreads

theorem xdrrecEof_reads {turns : Nat} {ok : Bool} (h : xdrrecEof readit turns s = some (ok, t)) :
    Reads readit s.handle t.handle := by
  obtain ⟨⟨ok', u⟩, hskip, h⟩ := Option.bind_eq_some_iff.mp h
  have hreads := skipFragments_reads hskip
  cases ok' with
  | false =>
      cases h
      exact hreads
  | true =>
      cases h
      exact hreads

/-- At the end of a record `xdrrec_eof` only looks. -/
theorem xdrrecEof_of_end {turns : Nat} {ok : Bool} (hend : s.strm.fbtbc = 0 ∧ s.strm.lastFrag = true)
    (h : xdrrecEof readit turns s = some (ok, t)) : t = s := by
  obtain ⟨⟨ok', u⟩, hskip, h⟩ := Option.bind_eq_some_iff.mp h
  cases turns with
  | zero => cases hskip
  | succ turns =>
      rw [skipFragments, if_neg (by simp [hend.1, hend.2])] at hskip
      cases hskip
      cases h
      rfl

end Reads

/-! ### Filters -/

/-- An XDR filter on a record stream: it may do with the buffer what it likes, but reaches the handle
through `readit` only. -/
structure RecFilter {σ : Type} (readit : Readit σ) (α : Type) where
  run : Stream σ → Option (Option α × Stream σ)
  reads : ∀ {s t r}, run s = some (r, t) → Reads readit s.handle t.handle

namespace RecFilter

variable {σ α β : Type} {readit : Readit σ}

def done (r : Option α) : RecFilter readit α where
  run s := some (r, s)
  reads := by
    intro s t r' h
    cases h
    exact .refl

def getint32 : RecFilter readit Nat where
  run := xdrrecGetint32 readit
  reads := xdrrecGetint32_reads

/-- One filter after another, as long as they succeed. -/
def seq (f : RecFilter readit α) (g : α → RecFilter readit β) : RecFilter readit β where
  run s := do
    let (r, s) ← f.run s
    match r with
    | none => some (none, s)
    | some a => (g a).run s
  reads := by
    intro s t r h
    obtain ⟨⟨r', u⟩, hf, h⟩ := Option.bind_eq_some_iff.mp h
    have hreads := f.reads hf
    cases r' with
    | none =>
        cases h
        exact hreads
    | some a => exact hreads.trans ((g a).reads h)

def getWords : Nat → RecFilter readit (List Nat)
  | 0 => done (some [])
  | n + 1 => getint32.seq fun word => (getWords n).seq fun rest => done (some (word :: rest))

end RecFilter

end XdrRec

end RpcMt
