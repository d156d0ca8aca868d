import RpcMt.XdrRoundTrip

/-! The streams of `xdr_stdio.c` beside those of `xdr_mem.c`. A file is the list of bytes that are still
to be read from it, or that have been written to it. Two conversions set the back ends apart:
`xdrstdio_getlong` widens an unsigned word where `xdrmem_getlong` widens a signed one, and the length
that goes to `fread` and `fwrite` has been through `int`. -/

namespace RpcMt

/-- `fread` of one item of `size` bytes into memory of `room` bytes. A file that is too short is read to
its end. -/
def fread (size room : Nat) (file : List Byte) : Res (Option (List Byte) × List Byte) :=
  if room < min size file.length then .error .badPointer
  else if file.length < size then .ok (none, [])
  else .ok (some (file.take size), file.drop size)

/-- `fwrite` of one item of `size` bytes from memory that has `bs`, to a file that has room for `disk`
bytes. -/
def fwrite (disk size : Nat) (bs file : List Byte) : Res (Bool × List Byte) :=
  if bs.length < size then .error .badPointer
  else if disk < file.length + size then .ok (false, file ++ bs.take (disk - file.length))
  else .ok (true, file ++ bs.take size)

/-- `(int)len` as the `size_t` that `fread` and `fwrite` take. -/
def stdioSize (len : Nat) : Nat := (castUint 64 (castInt 32 len)).toNat

def xdrstdioGetlong (file : List Byte) : Res (Option Int × List Byte) := do
  let (bs, file) ← fread 4 4 file
  pure (bs.map fun bs => (ntohl bs : Int), file)

def xdrstdioPutlong (disk : Nat) (l : Int) (file : List Byte) : Res (Bool × List Byte) :=
  fwrite disk 4 (bytesOf l) file

def xdrstdioGetbytes (len : Nat) (file : List Byte) : Res (Option (List Byte) × List Byte) :=
  if len = 0 then .ok (some [], file) else fread (stdioSize len) len file

def xdrstdioPutbytes (disk : Nat) (bs file : List Byte) : Res (Bool × List Byte) :=
  if bs.length = 0 then .ok (true, file) else fwrite disk (stdioSize bs.length) bs file

def xdrstdioGetint32 (file : List Byte) : Res (Option Int × List Byte) := do
  let (bs, file) ← fread 4 4 file
  pure (bs.map wordOf, file)

def xdrstdioPutint32 (disk : Nat) (l : Int) (file : List Byte) : Res (Bool × List Byte) :=
  fwrite disk 4 (bytesOf l) file

def xdrstdioOps (disk : Nat) : XdrOps (List Byte) where
  getlong := xdrstdioGetlong
  putlong := xdrstdioPutlong disk
  getbytes := xdrstdioGetbytes
  putbytes := xdrstdioPutbytes disk
  getint32 := xdrstdioGetint32
  putint32 := xdrstdioPutint32 disk

/-- The filters that do not nest: the scalar ones, `xdr_opaque`, `xdr_bytes` and `xdr_string`. -/
inductive Leaf where
  | scalar (k : Scalar)
  | opaqueData (cnt : UInt32)
  | bytes (maxsize : UInt32)
  | string (maxsize : UInt32)

def Leaf.ty : Leaf → Ty
  | .scalar k => .scalar k
  | .opaqueData cnt => .opaqueData cnt
  | .bytes maxsize => .bytes maxsize
  | .string maxsize => .string maxsize

/-- A decode has succeeded with this object. -/
def Yields {σ : Type} (r : Res (Decoded σ)) (o : Obj) : Prop := ∃ d, r = .ok (true, o, d)

/-- A stream of `xdr_mem.c` over `bs`. -/
def View.over (bs : List Byte) : View := ⟨.decode, bs, 0, bs.length⟩

/-- The count in front of the bytes of `xdr_bytes` and `xdr_string`. -/
def countOf (bs : List Byte) : Nat := ntohl (bs.take 4)

/-- The bytes hold `n` bytes and what fills their last unit. -/
def Supplies (n : Nat) (bs : List Byte) : Prop := n + rndup n ≤ bs.length

/-! ### What a decode off a list of bytes comes to -/

/-- The reading operations of a stream over a list of bytes, by when they succeed and with what: `long`
widens a word for `x_getlong`, and `fits` tells which lengths `x_getbytes` can get. -/
structure Reader (o : XdrOps (List Byte)) (long : List Byte → Int) (fits : Nat → Prop) : Prop where
  getlong : ∀ bs l rest, o.getlong bs = .ok (some l, rest) ↔
    4 ≤ bs.length ∧ l = long (bs.take 4) ∧ rest = bs.drop 4
  getint32 : ∀ bs l rest, o.getint32 bs = .ok (some l, rest) ↔
    4 ≤ bs.length ∧ l = wordOf (bs.take 4) ∧ rest = bs.drop 4
  getbytes : ∀ len bs x rest, 0 < len → len < uintRange → (o.getbytes len bs = .ok (some x, rest) ↔
    len ≤ bs.length ∧ fits len ∧ x = bs.take len ∧ rest = bs.drop len)
  pad : ∀ n, n < 4 → fits n
  low : ∀ word, word.length ≤ 4 → castUint 32 (long word) = ntohl word

theorem xdrAbort_none {α σ : Type} {failfast : Bool} {s rest : σ} {a : α} :
    xdrAbort failfast ((none : Option α), s) ≠ .ok (some a, rest) := by
  cases failfast with
  | false =>
      intro h
      cases h
  | true =>
      intro h
      cases h

theorem takeBytes_some {failfast : Bool} {len : Nat} {bs x rest : List Byte} :
    takeBytes failfast len bs = .ok (some x, rest) ↔ len ≤ bs.length ∧ x = bs.take len ∧ rest = bs.drop len := by
  unfold takeBytes
  split
  · rename_i hshort
    refine ⟨fun h => absurd h xdrAbort_none, ?_⟩
    rintro ⟨hle, _⟩
    omega
  · rename_i hlong
    constructor
    · intro h
      cases h
      exact ⟨Nat.le_of_not_lt hlong, rfl, rfl⟩
    · rintro ⟨_, rfl, rfl⟩
      rfl

theorem map_some {α β σ : Type} {f : α → β} {r : Res (Option α × σ)} {y : β} {rest : σ} :
    (r >>= fun p => pure (p.1.map f, p.2)) = .ok (some y, rest) ↔ ∃ x, r = .ok (some x, rest) ∧ y = f x := by
  constructor
  · intro h
    obtain ⟨⟨x, s⟩, hr, hpure⟩ := bind_ok h
    cases x with
    | none => cases hpure
    | some x =>
        cases hpure
        exact ⟨x, hr, rfl⟩
  · rintro ⟨x, rfl, rfl⟩
    rfl

theorem ntohl_lt_of_length {word : List Byte} (h : word.length ≤ 4) : ntohl word < 2 ^ 32 := by
  calc ntohl word
    _ < 256 ^ word.length := ntohl_lt
    _ ≤ 256 ^ 4 := Nat.pow_le_pow_right (by decide) h
    _ = 2 ^ 32 := rfl

theorem castUint_wordOf {word : List Byte} (h : word.length ≤ 4) : castUint 32 (wordOf word) = ntohl word := by
  have hlt := ntohl_lt_of_length h
  unfold wordOf castUint castInt
  omega

theorem reader_listOps (failfast : Bool) : Reader (listOps failfast) wordOf fun _ => True := by
  have hword : ∀ bs l rest, takeWord failfast bs = .ok (some l, rest) ↔
      4 ≤ bs.length ∧ l = wordOf (bs.take 4) ∧ rest = bs.drop 4 := by
    intro bs l rest
    show (takeBytes failfast 4 bs >>= fun p => pure (p.1.map wordOf, p.2)) = _ ↔ _
    rw [map_some]
    constructor
    · rintro ⟨x, hx, hl⟩
      obtain ⟨hle, rfl, hrest⟩ := takeBytes_some.mp hx
      exact ⟨hle, hl, hrest⟩
    · rintro ⟨hle, hl, hrest⟩
      exact ⟨_, takeBytes_some.mpr ⟨hle, rfl, hrest⟩, hl⟩
  refine ⟨hword, hword, fun len bs x rest _ _ => ?_, fun _ _ => trivial, fun _ h => castUint_wordOf h⟩
  refine takeBytes_some.trans ?_
  simp

theorem fread_some {size room : Nat} {file x rest : List Byte} :
    fread size room file = .ok (some x, rest) ↔
      size ≤ file.length ∧ size ≤ room ∧ x = file.take size ∧ rest = file.drop size := by
  unfold fread
  split
  · rename_i hpast
    constructor
    · intro h
      cases h
    · rintro ⟨hle, hroom, _⟩
      rw [Nat.min_eq_left hle] at hpast
      omega
  · rename_i hroom
    split
    · rename_i hshort
      constructor
      · intro h
        cases h
      · rintro ⟨hle, _⟩
        omega
    · rename_i hlong
      rw [Nat.min_eq_left (Nat.le_of_not_lt hlong)] at hroom
      constructor
      · intro h
        cases h
        exact ⟨Nat.le_of_not_lt hlong, Nat.le_of_not_lt hroom, rfl, rfl⟩
      · rintro ⟨_, _, rfl, rfl⟩
        rfl

theorem stdioSize_of_lt {len : Nat} (h : len < 2 ^ 31) : stdioSize len = len := by
  unfold stdioSize castUint castInt
  omega

/-- A length with its top bit set becomes an enormous one. -/
theorem lt_stdioSize {len : Nat} (h : 2 ^ 31 ≤ len) (hlt : len < uintRange) : len < stdioSize len := by
  unfold uintRange at hlt
  unfold stdioSize castUint castInt
  omega

theorem stdioSize_le_iff {len : Nat} (hlt : len < uintRange) : stdioSize len ≤ len ↔ len < 2 ^ 31 := by
  constructor
  · intro hle
    by_contra hbig
    have hpast := lt_stdioSize (Nat.le_of_not_lt hbig) hlt
    omega
  · intro h
    rw [stdioSize_of_lt h]

/-- A word off the wire, as the `u_int32_t` it is. -/
def unsignedWord (bs : List Byte) : Int := ntohl bs

/-- A length that `(int)` leaves alone. -/
def FitsInt (len : Nat) : Prop := len < 2 ^ 31

theorem fread_word_some {f : List Byte → Int} {bs rest : List Byte} {l : Int} :
    (fread 4 4 bs >>= fun p => pure (p.1.map f, p.2)) = .ok (some l, rest) ↔
      4 ≤ bs.length ∧ l = f (bs.take 4) ∧ rest = bs.drop 4 := by
  rw [map_some]
  constructor
  · rintro ⟨x, hx, hl⟩
    obtain ⟨hle, _, rfl, hrest⟩ := fread_some.mp hx
    exact ⟨hle, hl, hrest⟩
  · rintro ⟨hle, hl, hrest⟩
    exact ⟨_, fread_some.mpr ⟨hle, Nat.le_refl 4, rfl, hrest⟩, hl⟩

theorem xdrstdioGetbytes_some {len : Nat} (hpos : 0 < len) (hlt : len < uintRange) {bs x rest : List Byte} :
    xdrstdioGetbytes len bs = .ok (some x, rest) ↔
      len ≤ bs.length ∧ FitsInt len ∧ x = bs.take len ∧ rest = bs.drop len := by
  unfold FitsInt
  rw [xdrstdioGetbytes, if_neg (by omega), fread_some, stdioSize_le_iff hlt]
  constructor
  · rintro ⟨hle, hfits, hx, hrest⟩
    rw [stdioSize_of_lt hfits] at hle hx hrest
    exact ⟨hle, hfits, hx, hrest⟩
  · rintro ⟨hle, hfits, hx, hrest⟩
    rw [stdioSize_of_lt hfits]
    exact ⟨hle, hfits, hx, hrest⟩

theorem castUint_unsignedWord {word : List Byte} (h : word.length ≤ 4) :
    castUint 32 (unsignedWord word) = ntohl word := by
  have hlt := ntohl_lt_of_length h
  unfold unsignedWord castUint
  omega

theorem fitsInt_pad {n : Nat} (h : n < 4) : FitsInt n := by
  unfold FitsInt
  omega

theorem reader_xdrstdioOps (disk : Nat) : Reader (xdrstdioOps disk) unsignedWord FitsInt where
  getlong _ _ _ := fread_word_some
  getint32 _ _ _ := fread_word_some
  getbytes _ _ _ _ hpos hlt := xdrstdioGetbytes_some hpos hlt
  pad _ hn := fitsInt_pad hn
  low _ h := castUint_unsignedWord h

section Reads

variable {o : XdrOps (List Byte)} {long : List Byte → Int} {fits : Nat → Prop} {env : XdrEnv}
  {calls : Nat} {bs : List Byte} {obj : Obj}

/-- The word that `x_getint32` or `x_getlong` makes of four bytes. -/
def wordBy (long : List Byte → Int) : Bool → List Byte → Int
  | true => wordOf
  | false => long

theorem Reader.getWord (h : Reader o long fits) (int32 : Bool) {l : Int} {rest : List Byte} :
    o.getWord int32 bs = .ok (some l, rest) ↔
      4 ≤ bs.length ∧ l = wordBy long int32 (bs.take 4) ∧ rest = bs.drop 4 := by
  cases int32 with
  | false => exact h.getlong bs l rest
  | true => exact h.getint32 bs l rest

/-- What a scalar filter makes of the bytes, and how many of them it takes. -/
def XdrScalar.reads (long : List Byte → Int) (bs : List Byte) : XdrScalar → Nat × Int
  | .word int32 _ get => (4, get (wordBy long int32 (bs.take 4)))
  | .hyper int32 _ get => (8, get (wordBy long int32 (bs.take 4)) (wordBy long int32 ((bs.drop 4).take 4)))

theorem Reader.decode (h : Reader o long fits) (k : XdrScalar) {n : Int} {rest : List Byte} :
    k.decode o bs = .ok (some n, rest) ↔ (k.reads long bs).1 ≤ bs.length ∧ n = (k.reads long bs).2 ∧
      rest = bs.drop (k.reads long bs).1 := by
  cases k with
  | word int32 put get =>
      show (o.getWord int32 bs >>= fun p => pure (p.1.map get, p.2)) = _ ↔ _
      rw [map_some]
      constructor
      · rintro ⟨l, hl, hn⟩
        obtain ⟨hle, rfl, hrest⟩ := (h.getWord int32).mp hl
        exact ⟨hle, hn, hrest⟩
      · rintro ⟨hle, hn, hrest⟩
        exact ⟨_, (h.getWord int32).mpr ⟨hle, rfl, hrest⟩, hn⟩
  | hyper int32 put get =>
      unfold XdrScalar.decode XdrScalar.reads
      dsimp only
      constructor
      · intro hdec
        obtain ⟨⟨t1, s⟩, h₁, hdec⟩ := bind_ok hdec
        cases t1 with
        | none => cases hdec
        | some t1 =>
            obtain ⟨t2, h₂, hn⟩ := map_some.mp hdec
            obtain ⟨hle₁, rfl, rfl⟩ := (h.getWord int32).mp h₁
            obtain ⟨hle₂, rfl, hrest⟩ := (h.getWord int32).mp h₂
            rw [List.length_drop] at hle₂
            rw [List.drop_drop] at hrest
            exact ⟨by omega, hn, hrest⟩
      · rintro ⟨hle, hn, hrest⟩
        have h₁ : o.getWord int32 bs = .ok (some (wordBy long int32 (bs.take 4)), bs.drop 4) :=
          (h.getWord int32).mpr ⟨by omega, rfl, rfl⟩
        have h₂ : o.getWord int32 (bs.drop 4) =
            .ok (some (wordBy long int32 ((bs.drop 4).take 4)), rest) := by
          refine (h.getWord int32).mpr ⟨?_, rfl, ?_⟩
          · rw [List.length_drop]
            omega
          · rw [List.drop_drop]
            exact hrest
        rw [h₁]
        exact map_some.mpr ⟨_, h₂, hn⟩

theorem Reader.scalar (h : Reader o long fits) (k : XdrScalar) {n : Int} {d d' : Decoding (List Byte)} :
    d.scalar o k = .ok (some n, d') ↔ (k.reads long d.stream).1 ≤ d.stream.length ∧
      n = (k.reads long d.stream).2 ∧ d' = { d with stream := d.stream.drop (k.reads long d.stream).1 } := by
  constructor
  · intro hdec
    obtain ⟨⟨m, s⟩, hword, hpure⟩ := bind_ok hdec
    cases hpure
    obtain ⟨hle, hn, hrest⟩ := (h.decode k).mp hword
    exact ⟨hle, hn, by rw [hrest]⟩
  · rintro ⟨hle, hn, rfl⟩
    have hword := (h.decode k).mpr ⟨hle, hn, rfl⟩
    rw [Decoding.scalar, hword]
    rfl

/-- Bytes of a counted kind: none, or so many as the stream supplies and `x_getbytes` can get. -/
def Octets (fits : Nat → Prop) (cnt : Nat) (bs : List Byte) : Prop :=
  cnt = 0 ∨ fits cnt ∧ Supplies cnt bs

theorem rndup_lt (cnt : Nat) : rndup cnt < 4 := by
  unfold rndup
  split
  · omega
  · omega

theorem Reader.opaque_ (h : Reader o long fits) {cnt : Nat} (hlt : cnt < uintRange) {bs' : List Byte}
    {rest : List Byte} :
    xdrOpaqueDecode o cnt bs = .ok (true, some bs', rest) ↔
      Octets fits cnt bs ∧ bs' = bs.take cnt ∧ rest = bs.drop (cnt + rndup cnt) := by
  have hpad := rndup_lt cnt
  unfold xdrOpaqueDecode Octets Supplies
  split
  · rename_i hzero
    constructor
    · intro hdec
      cases hdec
      rw [hzero]
      exact ⟨Or.inl rfl, rfl, rfl⟩
    · rintro ⟨_, rfl, rfl⟩
      rw [hzero]
      rfl
  · rename_i hpos
    constructor
    · intro hdec
      obtain ⟨⟨x, s⟩, hx, hdec⟩ := bind_ok hdec
      cases x with
      | none => cases hdec
      | some x =>
          obtain ⟨hle, hfits, rfl, rfl⟩ := (h.getbytes cnt bs x s (by omega) hlt).mp hx
          dsimp only at hdec
          split at hdec
          · rename_i hnopad
            cases hdec
            rw [hnopad]
            exact ⟨Or.inr ⟨hfits, hle⟩, rfl, rfl⟩
          · obtain ⟨⟨crud, s⟩, hcrud, hdec⟩ := bind_ok hdec
            cases crud with
            | none => cases hdec
            | some crud =>
                cases hdec
                obtain ⟨hle', _, _, hrest⟩ := (h.getbytes _ _ _ _ (by omega) (by unfold uintRange; omega)).mp hcrud
                rw [List.length_drop] at hle'
                rw [List.drop_drop] at hrest
                exact ⟨Or.inr ⟨hfits, by omega⟩, rfl, hrest⟩
    · rintro ⟨hoct, rfl, rfl⟩
      obtain ⟨hfits, hle⟩ := hoct.resolve_left hpos
      have hx := (h.getbytes cnt bs _ _ (by omega) hlt).mpr ⟨by omega, hfits, rfl, rfl⟩
      rw [hx]
      show (if rndup cnt = 0 then _ else _) = _
      split
      · rename_i hnopad
        rw [hnopad]
        rfl
      · have hcrud := (h.getbytes (rndup cnt) (bs.drop cnt) _ _ (by omega) (by unfold uintRange; omega)).mpr
          ⟨by rw [List.length_drop]; omega, h.pad _ hpad, rfl, rfl⟩
        rw [hcrud, List.drop_drop]
        rfl

theorem countOf_lt (bs : List Byte) : countOf bs < uintRange :=
  ntohl_lt_of_length (List.length_take_le 4 bs)

theorem Reader.count (h : Reader o long fits) {n : Int} {d d' : Decoding (List Byte)} :
    d.scalar o xdrUInt = .ok (some n, d') ↔ 4 ≤ d.stream.length ∧ n = (countOf d.stream : Int) ∧
      d' = { d with stream := d.stream.drop 4 } := by
  rw [h.scalar xdrUInt]
  have hlow : castUint 32 (long (d.stream.take 4)) = (countOf d.stream : Int) :=
    h.low _ (List.length_take_le 4 _)
  show 4 ≤ d.stream.length ∧ n = castUint 32 (long (d.stream.take 4)) ∧ _ ↔ _
  rw [hlow]
  rfl

theorem xdrOpaqueDecode_true {cnt : Nat} {x : Option (List Byte)} {rest : List Byte}
    (h : xdrOpaqueDecode o cnt bs = .ok (true, x, rest)) : ∃ bs', x = some bs' := by
  unfold xdrOpaqueDecode at h
  split at h
  · cases h
    exact ⟨[], rfl⟩
  · obtain ⟨⟨y, s⟩, _, h⟩ := bind_ok h
    cases y with
    | none => cases h
    | some y =>
        dsimp only at h
        split at h
        · cases h
          exact ⟨y, rfl⟩
        · obtain ⟨⟨crud, s⟩, _, h⟩ := bind_ok h
          cases crud with
          | none => cases h
          | some crud =>
              cases h
              exact ⟨y, rfl⟩

/-- What `xdr_opaque` comes to within a decode: its status is TRUE when the bytes are there. -/
theorem Reader.octets (h : Reader o long fits) {cnt : Nat} (hlt : cnt < uintRange)
    {d d' : Decoding (List Byte)} {x : Option (List Byte)} :
    d.octets o cnt = .ok (true, x, d') ↔ Octets fits cnt d.stream ∧ x = some (d.stream.take cnt) ∧
      d' = { d with stream := d.stream.drop (cnt + rndup cnt) } := by
  constructor
  · intro hdec
    obtain ⟨⟨ok, y, s⟩, hoct, hpure⟩ := bind_ok hdec
    cases hpure
    obtain ⟨bs', rfl⟩ := xdrOpaqueDecode_true hoct
    obtain ⟨hsup, rfl, rfl⟩ := (h.opaque_ hlt).mp hoct
    exact ⟨hsup, rfl, rfl⟩
  · rintro ⟨hsup, rfl, rfl⟩
    have hoct := (h.opaque_ hlt).mpr ⟨hsup, rfl, rfl⟩
    rw [Decoding.octets, hoct]
    rfl

theorem yields_withBlock {d : Decoding (List Byte)} {size : Nat} {o₀ : Obj}
    {f : Block → Decoding (List Byte) → Res (Decoded (List Byte))} :
    Yields (d.withBlock env size o₀ f) obj ↔ env.alloc d.calls = true ∧
      Yields (f ⟨d.calls, size⟩ ⟨d.stream, d.calls + 1, d.blocks ++ [⟨d.calls, size⟩]⟩) obj := by
  unfold Decoding.withBlock Decoding.alloc
  by_cases halloc : env.alloc d.calls = true
  · rw [if_pos halloc]
    exact (and_iff_right halloc).symm
  · rw [if_neg halloc]
    constructor
    · rintro ⟨d', h⟩
      exact absurd h (by
        dsimp only
        cases env.failfast with
        | false => simp [xdrAbort]
        | true => simp [xdrAbort])
    · rintro ⟨hyes, _⟩
      exact absurd hyes halloc

/-- When a filter that does not nest succeeds on a list of bytes, and with what object. -/
def Leaf.Reads (long : List Byte → Int) (fits : Nat → Prop) (env : XdrEnv) (calls : Nat) (bs : List Byte)
    (obj : Obj) : Leaf → Prop
  | .scalar k => (k.filter.reads long bs).1 ≤ bs.length ∧ obj = .num (k.filter.reads long bs).2
  | .opaqueData cnt => Octets fits cnt.toNat bs ∧ obj = .data (bs.take cnt.toNat)
  | .bytes maxsize => 4 ≤ bs.length ∧ countOf bs ≤ maxsize.toNat ∧
      (countOf bs = 0 ∧ obj = .bytes 0 none ∨ countOf bs ≠ 0 ∧ env.alloc calls = true ∧
        Octets fits (countOf bs) (bs.drop 4) ∧
        obj = .bytes (countOf bs) (some (⟨calls, countOf bs⟩, (bs.drop 4).take (countOf bs))))
  | .string maxsize => 4 ≤ bs.length ∧ countOf bs ≤ maxsize.toNat ∧ countOf bs + 1 < uintRange ∧
      env.alloc calls = true ∧ Octets fits (countOf bs) (bs.drop 4) ∧
      obj = .string (some (⟨calls, countOf bs + 1⟩, (bs.drop 4).take (countOf bs) ++ [0]))

theorem yields_ok {ok : Bool} {o₀ : Obj} {d : Decoding (List Byte)} :
    Yields (.ok (ok, o₀, d)) obj ↔ ok = true ∧ obj = o₀ := by
  constructor
  · rintro ⟨d', h⟩
    cases h
    exact ⟨rfl, rfl⟩
  · rintro ⟨rfl, rfl⟩
    exact ⟨d, rfl⟩

theorem yields_bind {α : Type} {r : Res α} {f : α → Res (Decoded (List Byte))} :
    Yields (r >>= f) obj ↔ ∃ a, r = .ok a ∧ Yields (f a) obj := by
  constructor
  · rintro ⟨d, h⟩
    obtain ⟨a, ha, h⟩ := bind_ok h
    exact ⟨a, ha, d, h⟩
  · rintro ⟨a, rfl, h⟩
    exact h

/-- A filter that goes on from a count in front. -/
theorem Reader.yields_count (h : Reader o long fits) {d : Decoding (List Byte)} {o₀ : Obj}
    {f : Nat → Decoding (List Byte) → Res (Decoded (List Byte))} :
    Yields (d.scalar o xdrUInt >>= fun p => match p.1 with
      | none => .ok (false, o₀, p.2)
      | some n => f n.toNat p.2) obj ↔
      4 ≤ d.stream.length ∧ Yields (f (countOf d.stream) { d with stream := d.stream.drop 4 }) obj := by
  rw [yields_bind]
  constructor
  · rintro ⟨⟨n, s⟩, hn, hy⟩
    cases n with
    | none => exact absurd (yields_ok.mp hy).1 (by simp)
    | some n =>
        obtain ⟨hle, rfl, rfl⟩ := h.count.mp hn
        exact ⟨hle, hy⟩
  · rintro ⟨hle, hy⟩
    exact ⟨_, h.count.mpr ⟨hle, rfl, rfl⟩, hy⟩

/-- A filter that ends with the bytes themselves. -/
theorem Reader.yields_octets (h : Reader o long fits) {cnt : Nat} (hlt : cnt < uintRange)
    {d : Decoding (List Byte)} {g : Option (List Byte) → Obj} :
    Yields (d.octets o cnt >>= fun p => .ok (p.1, g p.2.1, p.2.2)) obj ↔
      Octets fits cnt d.stream ∧ obj = g (some (d.stream.take cnt)) := by
  rw [yields_bind]
  constructor
  · rintro ⟨⟨ok, x, s⟩, hoct, hy⟩
    obtain ⟨rfl, hobj⟩ := yields_ok.mp hy
    obtain ⟨hsup, rfl, rfl⟩ := (h.octets hlt).mp hoct
    exact ⟨hsup, hobj⟩
  · rintro ⟨hsup, hobj⟩
    exact ⟨_, (h.octets hlt).mpr ⟨hsup, rfl, rfl⟩, yields_ok.mpr ⟨rfl, hobj⟩⟩

theorem Reader.yields (h : Reader o long fits) (leaf : Leaf) :
    Yields (leaf.ty.decode o env ⟨bs, calls, []⟩) obj ↔ leaf.Reads long fits env calls bs obj := by
  cases leaf with
  | scalar k =>
      show Yields (Decoding.scalar o k.filter ⟨bs, calls, []⟩ >>= _) obj ↔ _
      rw [yields_bind]
      constructor
      · rintro ⟨⟨n, s⟩, hn, hy⟩
        cases n with
        | none => exact absurd (yields_ok.mp hy).1 (by simp)
        | some n =>
            obtain ⟨hle, rfl, _⟩ := (h.scalar k.filter).mp hn
            exact ⟨hle, (yields_ok.mp hy).2⟩
      · rintro ⟨hle, rfl⟩
        exact ⟨_, (h.scalar k.filter).mpr ⟨hle, rfl, rfl⟩, yields_ok.mpr ⟨rfl, rfl⟩⟩
  | opaqueData cnt =>
      have hdecode : (Leaf.opaqueData cnt).ty.decode o env ⟨bs, calls, []⟩ =
          (Decoding.octets o cnt.toNat ⟨bs, calls, []⟩ >>= fun p =>
            .ok (p.1, (p.2.1.map Obj.data).getD .untouched, p.2.2)) := by
        show (Decoding.octets o cnt.toNat ⟨bs, calls, []⟩ >>= _) = _
        cases Decoding.octets o cnt.toNat ⟨bs, calls, []⟩ with
        | error e => rfl
        | ok p =>
            obtain ⟨ok, x, s⟩ := p
            cases x with
            | none => rfl
            | some x => rfl
      rw [hdecode]
      exact h.yields_octets (g := fun x => (x.map Obj.data).getD .untouched) cnt.toNat_lt
  | bytes maxsize =>
      let f : Nat → Decoding (List Byte) → Res (Decoded (List Byte)) := fun n d =>
        if maxsize.toNat < n then .ok (false, .bytes n none, d)
        else if n = 0 then .ok (true, .bytes 0 none, d)
        else d.withBlock env n (.bytes n none) fun b d => d.octets o n >>= fun p =>
          .ok (p.1, .bytes n (some (b, p.2.1.getD (env.fresh b n))), p.2.2)
      refine (h.yields_count (f := f)).trans (and_congr_right fun _ => ?_)
      show Yields (if maxsize.toNat < countOf bs then _ else _) obj ↔ _
      split
      · rename_i hbig
        rw [yields_ok]
        simp only [Bool.false_eq_true, false_and, false_iff, not_and]
        omega
      · rename_i hmax
        rw [and_iff_right (Nat.le_of_not_lt hmax)]
        split
        · rename_i hzero
          rw [yields_ok]
          simp [hzero]
        · rename_i hpos
          let b : Block := ⟨calls, countOf bs⟩
          have hoct : Yields _ obj ↔ _ := h.yields_octets (d := ⟨bs.drop 4, calls + 1, [b]⟩) (countOf_lt bs)
            (g := fun x => .bytes (countOf bs) (some (b, x.getD (env.fresh b (countOf bs)))))
          rw [yields_withBlock]
          refine (and_congr_right fun _ => hoct).trans ?_
          simp [hpos, b]
  | string maxsize =>
      let f : Nat → Decoding (List Byte) → Res (Decoded (List Byte)) := fun n d =>
        if maxsize.toNat < n then .ok (false, .untouched, d)
        else if (n + 1) % uintRange = 0 then .ok (false, .untouched, d)
        else d.withBlock env (n + 1) (.string none) fun b d => d.octets o n >>= fun p =>
          .ok (p.1, .string (some (b, p.2.1.getD (env.fresh b n) ++ [0])), p.2.2)
      refine (h.yields_count (f := f)).trans (and_congr_right fun _ => ?_)
      show Yields (if maxsize.toNat < countOf bs then _ else _) obj ↔ _
      have hlt := countOf_lt bs
      split
      · rename_i hbig
        rw [yields_ok]
        simp only [Bool.false_eq_true, false_and, false_iff, not_and]
        omega
      · rename_i hmax
        rw [and_iff_right (Nat.le_of_not_lt hmax)]
        split
        · rename_i hwrap
          rw [yields_ok]
          simp only [Bool.false_eq_true, false_and, false_iff, not_and]
          intro hsmall
          rw [Nat.mod_eq_of_lt hsmall] at hwrap
          omega
        · rename_i hwrap
          have hsmall := succ_lt_uintRange hlt hwrap
          let b : Block := ⟨calls, countOf bs + 1⟩
          have hoct : Yields _ obj ↔ _ := h.yields_octets (d := ⟨bs.drop 4, calls + 1, [b]⟩) (countOf_lt bs)
            (g := fun x => .string (some (b, x.getD (env.fresh b (countOf bs)) ++ [0])))
          rw [and_iff_right hsmall, yields_withBlock]
          exact and_congr_right fun _ => hoct

end Reads

end RpcMt
