import RpcMt.XdrStdio

/-! Where the two back ends agree. For a filter that does not nest, a file and a memory stream over the
same bytes are decoded alike but for a `long` with its sign bit set and for 2^31 bytes or more; and what
has been encoded to a file is recovered from it, a negative `long` apart. -/

namespace RpcMt

/-- The two back ends agree on `bs`: both succeed, with the same object, or neither does. -/
def Leaf.Agree (leaf : Leaf) (env : XdrEnv) (disk calls : Nat) (bs : List Byte) : Prop :=
  ∀ o, Yields (leaf.ty.decode (xdrstdioOps disk) env ⟨bs, calls, []⟩) o ↔
    Yields (leaf.ty.decode (xdrmemOps env.failfast) env ⟨.over bs, calls, []⟩) o

/-- No `long` has its sign bit set, and no bytes that could be decoded are 2^31 or more. -/
def Leaf.Faithful (env : XdrEnv) (calls : Nat) (bs : List Byte) : Leaf → Prop
  | .scalar .long => 4 ≤ bs.length → countOf bs < 2 ^ 31
  | .scalar _ => True
  | .opaqueData cnt => Supplies cnt.toNat bs → cnt.toNat < 2 ^ 31
  | .bytes maxsize => 4 ≤ bs.length → countOf bs ≤ maxsize.toNat → env.alloc calls = true →
      Supplies (countOf bs) (bs.drop 4) → countOf bs < 2 ^ 31
  | .string maxsize => 4 ≤ bs.length → countOf bs ≤ maxsize.toNat → countOf bs + 1 < uintRange →
      env.alloc calls = true → Supplies (countOf bs) (bs.drop 4) → countOf bs < 2 ^ 31

/-! ### Decoding -/

theorem yields_alike {σ τ : Type} {R : σ → τ → Prop} {r : Res (Decoded σ)} {r' : Res (Decoded τ)}
    (h : DecodedAlike R r r') (o : Obj) : Yields r o ↔ Yields r' o := by
  cases h with
  | error e =>
      constructor
      · rintro ⟨d, h⟩
        cases h
      · rintro ⟨d, h⟩
        cases h
  | @ok a b hab =>
      obtain ⟨ok, obj, d⟩ := a
      obtain ⟨ok', obj', d'⟩ := b
      obtain ⟨rfl, rfl, _⟩ := hab
      constructor
      · rintro ⟨_, h⟩
        cases h
        exact ⟨d', rfl⟩
      · rintro ⟨_, h⟩
        cases h
        exact ⟨d, rfl⟩

/-- A memory stream reads as the list of the bytes left in it. -/
theorem yields_xdrmem {v : View} (h : v.InBounds) (env : XdrEnv) (leaf : Leaf) (calls : Nat) (o : Obj) :
    Yields (leaf.ty.decode (xdrmemOps env.failfast) env ⟨v, calls, []⟩) o ↔
      leaf.Reads wordOf (fun _ => True) env calls v.rest o :=
  (yields_alike (decode_xdrmem h env env.failfast leaf.ty calls []) o).trans
    ((reader_listOps env.failfast).yields leaf)

theorem View.inBounds_over (bs : List Byte) : (View.over bs).InBounds := (Nat.zero_add _).le

theorem View.rest_over (bs : List Byte) : (View.over bs).rest = bs := List.take_length

theorem yields_xdrstdio (env : XdrEnv) (disk : Nat) (leaf : Leaf) (calls : Nat) (bs : List Byte) (o : Obj) :
    Yields (leaf.ty.decode (xdrstdioOps disk) env ⟨bs, calls, []⟩) o ↔
      leaf.Reads unsignedWord FitsInt env calls bs o :=
  (reader_xdrstdioOps disk).yields leaf

/-- Every scalar filter but `xdr_long` casts away what sets the two words apart. -/
theorem reads_eq {k : Scalar} (hk : k ≠ .long) (bs : List Byte) :
    k.filter.reads unsignedWord bs = k.filter.reads wordOf bs := by
  have hword : ∀ word : List Byte, word.length ≤ 4 → ∃ x : Int, 0 ≤ x ∧ x < 2 ^ 32 ∧
      unsignedWord word = x ∧ wordOf word = castInt 32 x := by
    intro word hlen
    have hlt := ntohl_lt_of_length hlen
    exact ⟨ntohl word, by omega, by omega, rfl, rfl⟩
  obtain ⟨x, hx, hx', hux, hwx⟩ := hword (bs.take 4) (List.length_take_le 4 bs)
  obtain ⟨y, hy, hy', huy, hwy⟩ := hword ((bs.drop 4).take 4) (List.length_take_le 4 _)
  cases k with
  | long => exact absurd rfl hk
  | bool =>
      simp only [Scalar.filter, xdrBool, XdrScalar.reads, wordBy, hux, hwx, Prod.mk.injEq, true_and]
      have hiff : x = 0 ↔ castInt 32 x = 0 := by
        unfold castInt
        omega
      simp only [hiff]
  | _ =>
      simp only [Scalar.filter, xdrInt, xdrUInt, xdrULong, xdrHyper, xdrUHyper, xdrShort, xdrUShort, xdrChar,
        xdrUChar, xdrEnum, xdrInt8T, xdrUint8T, xdrInt16T, xdrUint16T, xdrInt32T, xdrUint32T, xdrInt64T,
        xdrUint64T, XdrScalar.reads, wordBy, hux, hwx, huy, hwy, joinWords, castInt, castUint]
      all_goals simp only [Prod.mk.injEq, true_and]
      all_goals omega

theorem octets_weaken {cnt : Nat} {bs : List Byte} (h : Octets FitsInt cnt bs) :
    Octets (fun _ => True) cnt bs := by
  rcases h with hzero | ⟨_, hsup⟩
  · exact Or.inl hzero
  · exact Or.inr ⟨trivial, hsup⟩

theorem octets_fits {cnt : Nat} {bs : List Byte} (h : Octets (fun _ => True) cnt bs)
    (hfits : Supplies cnt bs → cnt < 2 ^ 31) : Octets FitsInt cnt bs := by
  rcases h with hzero | ⟨_, hsup⟩
  · exact Or.inl hzero
  · exact Or.inr ⟨hfits hsup, hsup⟩

theorem lt_of_octets {cnt : Nat} {bs : List Byte} (h : Octets FitsInt cnt bs) : cnt < 2 ^ 31 := by
  rcases h with rfl | ⟨hfits, _⟩
  · decide
  · exact hfits

theorem unsignedWord_eq_iff {word : List Byte} (h : word.length ≤ 4) :
    unsignedWord word = wordOf word ↔ ntohl word < 2 ^ 31 := by
  have hlt := ntohl_lt_of_length h
  unfold unsignedWord wordOf castInt
  omega

theorem faithful_scalar {k : Scalar} (hk : k ≠ .long) (env : XdrEnv) (calls : Nat) (bs : List Byte) :
    (Leaf.scalar k).Faithful env calls bs := by
  cases k with
  | long => exact absurd rfl hk
  | _ => trivial

theorem reads_long (long : List Byte → Int) (bs : List Byte) :
    Scalar.long.filter.reads long bs = (4, long (bs.take 4)) := rfl

theorem reads_scalar {long : List Byte → Int} {fits : Nat → Prop} {env : XdrEnv} {calls : Nat}
    {bs : List Byte} {o : Obj} (k : Scalar) : (Leaf.scalar k).Reads long fits env calls bs o ↔
      (k.filter.reads long bs).1 ≤ bs.length ∧ o = .num (k.filter.reads long bs).2 := Iff.rfl

theorem agree_long (env : XdrEnv) (calls : Nat) (bs : List Byte) :
    (∀ o, (Leaf.scalar .long).Reads unsignedWord FitsInt env calls bs o ↔
      (Leaf.scalar .long).Reads wordOf (fun _ => True) env calls bs o) ↔
      (4 ≤ bs.length → countOf bs < 2 ^ 31) := by
  have hiff : unsignedWord (bs.take 4) = wordOf (bs.take 4) ↔ countOf bs < 2 ^ 31 := by
    unfold countOf
    exact unsignedWord_eq_iff (List.length_take_le 4 bs)
  constructor
  · intro h hle
    have heq := h (.num (unsignedWord (bs.take 4)))
    rw [reads_scalar, reads_scalar, reads_long, reads_long] at heq
    exact hiff.mp (Obj.num.inj (heq.mp ⟨hle, rfl⟩).2)
  · intro hf o
    rw [reads_scalar, reads_scalar, reads_long, reads_long]
    refine and_congr_right fun hle => ?_
    rw [hiff.mpr (hf hle)]

theorem Leaf.agree_iff (leaf : Leaf) (env : XdrEnv) (disk calls : Nat) (bs : List Byte) :
    leaf.Agree env disk calls bs ↔ leaf.Faithful env calls bs := by
  have hreads : leaf.Agree env disk calls bs ↔ ∀ o, leaf.Reads unsignedWord FitsInt env calls bs o ↔
      leaf.Reads wordOf (fun _ => True) env calls bs o :=
    forall_congr' fun o => by rw [yields_xdrstdio, yields_xdrmem (View.inBounds_over bs), View.rest_over]
  rw [hreads]
  cases leaf with
  | scalar k =>
      by_cases hk : k = .long
      · rw [hk]
        exact agree_long env calls bs
      · refine iff_of_true (fun o => ?_) (faithful_scalar hk env calls bs)
        rw [reads_scalar, reads_scalar, reads_eq hk]
  | opaqueData cnt =>
      constructor
      · intro h hsup
        exact lt_of_octets ((h (.data (bs.take cnt.toNat))).mpr ⟨Or.inr ⟨trivial, hsup⟩, rfl⟩).1
      · intro hf o
        exact ⟨fun h => ⟨octets_weaken h.1, h.2⟩, fun h => ⟨octets_fits h.1 hf, h.2⟩⟩
  | bytes maxsize =>
      constructor
      · intro h hle hmax halloc hsup
        by_cases hzero : countOf bs = 0
        · rw [hzero]
          decide
        · obtain ⟨_, _, hrest⟩ := (h _).mpr ⟨hle, hmax, Or.inr ⟨hzero, halloc, Or.inr ⟨trivial, hsup⟩, rfl⟩⟩
          rcases hrest with ⟨hnot, _⟩ | ⟨_, _, hoct, _⟩
          · exact absurd hnot hzero
          · exact lt_of_octets hoct
      · intro hf o
        refine and_congr_right fun hle => and_congr_right fun hmax => or_congr_right ?_
        refine and_congr_right fun _ => and_congr_right fun halloc => and_congr_left fun _ => ?_
        exact ⟨octets_weaken, fun h => octets_fits h (hf hle hmax halloc)⟩
  | string maxsize =>
      constructor
      · intro h hle hmax hsmall halloc hsup
        obtain ⟨_, _, _, _, hoct, _⟩ := (h _).mpr ⟨hle, hmax, hsmall, halloc, Or.inr ⟨trivial, hsup⟩, rfl⟩
        exact lt_of_octets hoct
      · intro hf o
        refine and_congr_right fun hle => and_congr_right fun hmax => and_congr_right fun hsmall => ?_
        refine and_congr_right fun halloc => and_congr_left fun _ => ?_
        exact ⟨octets_weaken, fun h => octets_fits h (hf hle hmax hsmall halloc)⟩

/-! ### Encoding -/

/-- The writing operations of a stream, by what they have done when they return TRUE: `put` relates the
stream before to the one after these bytes, and `fits` tells which lengths `x_putbytes` can put. -/
structure Writer {σ : Type} (o : XdrOps σ) (put : σ → List Byte → σ → Prop) (fits : Nat → Prop) : Prop where
  nil : ∀ s, put s [] s
  append : ∀ {s s₁ s₂ as bs}, put s as s₁ → put s₁ bs s₂ → put s (as ++ bs) s₂
  putlong : ∀ {l s s'}, o.putlong l s = .ok (true, s') → put s (bytesOf l) s'
  putint32 : ∀ {l s s'}, o.putint32 l s = .ok (true, s') → put s (bytesOf l) s'
  putbytes : ∀ {bs s s'}, bs.length < uintRange → o.putbytes bs s = .ok (true, s') →
    put s bs s' ∧ fits bs.length
  zero : fits 0

/-- The bytes that have been written to the end of a file. -/
def Appended (file bs file' : List Byte) : Prop := file' = file ++ bs

theorem fwrite_true {disk size : Nat} {bs file file' : List Byte}
    (h : fwrite disk size bs file = .ok (true, file')) : size ≤ bs.length ∧ file' = file ++ bs.take size := by
  unfold fwrite at h
  split at h
  · cases h
  · rename_i hle
    split at h
    · cases h
    · cases h
      exact ⟨Nat.le_of_not_lt hle, rfl⟩

theorem appended_word {disk : Nat} {l : Int} {file file' : List Byte}
    (h : fwrite disk 4 (bytesOf l) file = .ok (true, file')) : Appended file (bytesOf l) file' :=
  (fwrite_true h).2

theorem writer_xdrstdioOps (disk : Nat) : Writer (xdrstdioOps disk) Appended FitsInt where
  nil file := (List.append_nil file).symm
  append := by
    rintro file _ _ as bs rfl rfl
    exact List.append_assoc file as bs
  putlong h := appended_word h
  putint32 h := appended_word h
  putbytes := by
    intro bs file file' hlt h
    change xdrstdioPutbytes disk bs file = _ at h
    unfold xdrstdioPutbytes at h
    unfold Appended FitsInt
    split at h
    · rename_i hzero
      cases h
      rw [List.eq_nil_of_length_eq_zero hzero, List.append_nil]
      exact ⟨rfl, by decide⟩
    · obtain ⟨hle, rfl⟩ := fwrite_true h
      have hfits := (stdioSize_le_iff hlt).mp hle
      rw [stdioSize_of_lt hfits, List.take_length]
      exact ⟨rfl, hfits⟩
  zero := fitsInt_pad (by decide)

/-- The bytes that have been written to a memory stream with a `u_int` count. -/
def Written (v : View) (bs : List Byte) (w : View) : Prop :=
  v.Room 0 → v.Room bs.length ∧ w = v.write bs

theorem written_append {v v₁ v₂ : View} {as bs : List Byte} (h₁ : Written v as v₁) (h₂ : Written v₁ bs v₂) :
    Written v (as ++ bs) v₂ := by
  intro hroom
  obtain ⟨has, rfl⟩ := h₁ hroom
  obtain ⟨hbs, rfl⟩ := h₂ (View.Room.write has)
  have hfits : as.length + bs.length ≤ v.handy := by
    have hle : bs.length ≤ v.handy - as.length := hbs.fits
    have hle' := has.fits
    omega
  have hroom' : v.Room (as ++ bs).length := by
    rw [List.length_append]
    exact ⟨hfits, hroom.handy, hroom.bounds⟩
  exact ⟨hroom', View.write_append hroom'⟩

theorem written_putbytes {failfast : Bool} {bs : List Byte} {v w : View}
    (h : xdrmemPutbytes failfast bs v = .ok (true, w)) : Written v bs w := by
  intro hroom
  unfold xdrmemPutbytes at h
  split at h
  · cases failfast with
    | false => cases h
    | true => cases h
  · rename_i hle
    split at h
    · cases h
    · cases h
      exact ⟨⟨Nat.le_of_not_lt hle, hroom.handy, hroom.bounds⟩, rfl⟩

theorem writer_xdrmemOps (failfast : Bool) : Writer (xdrmemOps failfast) Written fun _ => True where
  nil v := fun hroom => ⟨hroom, (View.write_nil v).symm⟩
  append := written_append
  putlong h := written_putbytes h
  putint32 h := written_putbytes h
  putbytes _ h := ⟨written_putbytes h, trivial⟩
  zero := trivial

section Writes

variable {σ : Type} {o : XdrOps σ} {put : σ → List Byte → σ → Prop} {fits : Nat → Prop}

theorem andThen_true {r : Res (Bool × σ)} {f : σ → Res (Bool × σ)} {s' : σ}
    (h : andThen r f = .ok (true, s')) : ∃ s₁, r = .ok (true, s₁) ∧ f s₁ = .ok (true, s') := by
  obtain ⟨⟨ok, s₁⟩, hr, h⟩ := bind_ok h
  cases ok with
  | false => cases h
  | true => exact ⟨s₁, hr, h⟩

variable {s s' : σ} {bs : List Byte}

theorem encode_word_true {int32 : Bool} {p : Int → Option Int} {get : Int → Int} {n : Int}
    (h : (XdrScalar.word int32 p get).encode o n s = .ok (true, s')) :
    ∃ l, p n = some l ∧ o.putWord int32 l s = .ok (true, s') := by
  unfold XdrScalar.encode at h
  dsimp only at h
  cases hl : p n with
  | none =>
      rw [hl] at h
      cases h
  | some l =>
      rw [hl] at h
      exact ⟨l, rfl, h⟩

variable (h : Writer o put fits)
include h

theorem Writer.putWord {int32 : Bool} {l : Int} (henc : o.putWord int32 l s = .ok (true, s')) :
    put s (bytesOf l) s' := by
  cases int32 with
  | false => exact h.putlong henc
  | true => exact h.putint32 henc

theorem Writer.scalar {k : XdrScalar} {n : Int} (henc : k.encode o n s = .ok (true, s')) :
    put s (k.wire n) s' := by
  cases k with
  | word int32 p get =>
      obtain ⟨l, hl, hput⟩ := encode_word_true henc
      rw [XdrScalar.wire, hl]
      exact h.putWord hput
  | hyper int32 p get =>
      obtain ⟨s₁, hfst, hsnd⟩ := andThen_true henc
      exact h.append (h.putWord hfst) (h.putWord hsnd)

theorem Writer.octets (hlt : bs.length < uintRange) (henc : xdrOpaqueEncode o bs s = .ok (true, s')) :
    put s (padded bs) s' ∧ fits bs.length := by
  unfold xdrOpaqueEncode at henc
  unfold padded
  split at henc
  · rename_i hzero
    cases henc
    rw [List.eq_nil_of_length_eq_zero hzero]
    exact ⟨h.nil s, h.zero⟩
  · obtain ⟨s₁, hbytes, hpad⟩ := andThen_true henc
    obtain ⟨hput, hfits⟩ := h.putbytes hlt hbytes
    refine ⟨h.append hput ?_, hfits⟩
    split at hpad
    · rename_i hnopad
      cases hpad
      rw [hnopad]
      exact h.nil s'
    · have hsmall : (List.replicate (rndup bs.length) (0 : Byte)).length < uintRange := by
        have hlt := rndup_lt bs.length
        rw [List.length_replicate]
        unfold uintRange
        omega
      exact (h.putbytes hsmall hpad).1

theorem Writer.counted (hlt : bs.length < uintRange) {f : σ → Res (Bool × σ)}
    (hf : ∀ s s', f s = .ok (true, s') → xdrOpaqueEncode o bs s = .ok (true, s'))
    (henc : andThen (xdrUInt.encode o bs.length s) f = .ok (true, s')) :
    put s (bytesOf bs.length ++ padded bs) s' ∧ fits bs.length := by
  obtain ⟨s₁, hcount, hrest⟩ := andThen_true henc
  obtain ⟨hput, hfits⟩ := h.octets hlt (hf s₁ s' hrest)
  exact ⟨h.append (h.scalar hcount) hput, hfits⟩

end Writes

/-- The numbers that an object of the C type can be; a `bool_t` is TRUE or FALSE. -/
def Scalar.InType : Scalar → Int → Prop
  | .long => Scalar.Signed 64
  | .uLong => Scalar.Unsigned 64
  | k => k.InRange

/-- What an object can hold, whether or not it is within the bounds of the filter: `size` is a `u_int`,
and a string is as long as it is. -/
def Leaf.IsValue : Leaf → Val → Prop
  | .scalar k, v => ∃ n, v = .num n ∧ k.InType n
  | .opaqueData cnt, v => ∃ bs, v = .bytes bs ∧ bs.length = cnt.toNat
  | .bytes _, v => ∃ bs, v = .bytes bs ∧ bs.length < uintRange
  | .string _, v => ∃ bs, v = .bytes bs ∧ 0 ∉ bs

/-- What of a value goes out: the `u_int` that gets the length of a string may cut it. -/
def Leaf.sent : Leaf → Val → Val
  | .string _, .bytes bs => .bytes (bs.take (bs.length % uintRange))
  | _, v => v

/-- The bytes of the value are such as `x_putbytes` can put, and a string leaves room for its end. -/
def Leaf.Fitting (fits : Nat → Prop) : Leaf → Val → Prop
  | .scalar _, _ => True
  | .string _, .bytes bs => fits bs.length ∧ bs.length + 1 < uintRange
  | _, .bytes bs => fits bs.length
  | _, _ => True

/-- A number that a scalar filter has put is within 32 bits, where that matters. -/
theorem inRange_of_encode {σ : Type} {o : XdrOps σ} {k : Scalar} {n : Int} {s s' : σ} (hn : k.InType n)
    (h : k.filter.encode o n s = .ok (true, s')) : k.InRange n := by
  cases k with
  | long =>
      obtain ⟨l, hl, _⟩ := encode_word_true h
      obtain ⟨hfix, _⟩ := Option.ite_none_right_eq_some.mp hl
      rw [← hfix]
      unfold castInt
      constructor
      · omega
      · omega
  | uLong =>
      obtain ⟨l, hl, _⟩ := encode_word_true h
      obtain ⟨hfix, _⟩ := Option.ite_none_right_eq_some.mp hl
      rw [← hfix]
      unfold castUint
      constructor
      · omega
      · omega
  | _ => exact hn

/-- What has been encoded is of the type, and its external form has gone out. -/
theorem Leaf.writes {σ : Type} {o : XdrOps σ} {put : σ → List Byte → σ → Prop} {fits : Nat → Prop}
    (h : Writer o put fits) (leaf : Leaf) (env : XdrEnv) {v : Val} (hv : leaf.IsValue v) {s s' : σ}
    (henc : leaf.ty.encode o env v s = .ok (true, s')) : leaf.ty.HasType (leaf.sent v) ∧
      put s (leaf.ty.wire (leaf.sent v)) s' ∧ leaf.Fitting fits (leaf.sent v) := by
  cases leaf with
  | scalar k =>
      obtain ⟨n, rfl, hn⟩ := hv
      exact ⟨⟨n, rfl, inRange_of_encode hn henc⟩, h.scalar henc, trivial⟩
  | opaqueData cnt =>
      obtain ⟨bs, rfl, hlen⟩ := hv
      change (if bs.length = cnt.toNat then _ else _) = _ at henc
      rw [if_pos hlen] at henc
      obtain ⟨hput, hfits⟩ := h.octets (hlen ▸ cnt.toNat_lt) henc
      exact ⟨⟨bs, rfl, hlen⟩, hput, hfits⟩
  | bytes maxsize =>
      obtain ⟨bs, rfl, hlt⟩ := hv
      change xdrBytesEncode o maxsize.toNat bs s = _ at henc
      obtain ⟨s₁, _, hcheck⟩ := andThen_true henc
      have hmax : bs.length ≤ maxsize.toNat := by
        by_contra hbig
        rw [if_pos (Nat.lt_of_not_le hbig)] at hcheck
        cases hcheck
      obtain ⟨hput, hfits⟩ := h.counted hlt (fun s s' hrest => by
        rw [if_neg (Nat.not_lt.mpr hmax)] at hrest
        exact hrest) henc
      exact ⟨⟨bs, rfl, hmax⟩, hput, hfits⟩
  | string maxsize =>
      obtain ⟨bs, rfl, hzero⟩ := hv
      change xdrStringEncode o maxsize.toNat bs s = _ at henc
      unfold xdrStringEncode at henc
      rw [strlen_eq hzero] at henc
      dsimp only at henc
      have hlt : bs.length % uintRange < uintRange := Nat.mod_lt _ (by decide)
      obtain ⟨x, hx, hlen⟩ : ∃ x, bs.take (bs.length % uintRange) = x ∧ x.length = bs.length % uintRange := by
        refine ⟨_, rfl, ?_⟩
        rw [List.length_take, Nat.min_eq_left (Nat.mod_le _ _)]
      have hsent : (Leaf.string maxsize).sent (.bytes bs) = .bytes x := congrArg Val.bytes hx
      rw [hx, ← hlen] at henc
      rw [← hlen] at hlt
      obtain ⟨s₁, _, hcheck⟩ := andThen_true henc
      have hmax : x.length ≤ maxsize.toNat := by
        by_contra hbig
        rw [if_pos (Nat.lt_of_not_le hbig)] at hcheck
        cases hcheck
      have hwrap : (x.length + 1) % uintRange ≠ 0 := by
        intro hwrap
        rw [if_neg (Nat.not_lt.mpr hmax), if_pos hwrap] at hcheck
        cases hcheck
      obtain ⟨hput, hfits⟩ := h.counted hlt (fun s s' hrest => by
        rw [if_neg (Nat.not_lt.mpr hmax), if_neg hwrap] at hrest
        exact hrest) henc
      have hnul : 0 ∉ x := by
        rw [← hx]
        exact fun hmem => hzero (List.mem_of_mem_take hmem)
      have hroom := succ_lt_uintRange hlt hwrap
      rw [hsent]
      exact ⟨⟨x, rfl, hmax, hnul⟩, hput, hfits, hroom⟩

/-! ### Decoding what has been sent -/

/-- Memory is there for what is decoded, and a string has gone out whole. -/
def Leaf.Returns (env : XdrEnv) (calls : Nat) : Leaf → Val → Prop
  | .bytes _, .bytes bs => bs ≠ [] → env.alloc calls = true
  | .string _, .bytes bs => bs.length < uintRange ∧ env.alloc calls = true
  | _, _ => True

/-- A number comes back as it went. -/
def Leaf.Recovered (long : List Byte → Int) : Leaf → Val → Prop
  | .scalar k, .num n => (k.filter.reads long (k.filter.wire n)).2 = n
  | _, _ => True

theorem countOf_append {n : Nat} (h : n < uintRange) (bs : List Byte) : countOf (bytesOf n ++ bs) = n := by
  have htake : (bytesOf n ++ bs).take 4 = bytesOf n := List.take_left' (length_bytesOf n)
  have hcast : (castUint 32 (n : Int)).toNat = n := by
    unfold uintRange at h
    unfold castUint
    omega
  rw [countOf, htake, bytesOf, hcast]
  exact ntohl_htonl h

theorem drop_bytesOf (n : Nat) (bs : List Byte) : (bytesOf n ++ bs).drop 4 = bs :=
  List.drop_left' (length_bytesOf n)

theorem length_le_bytesOf (n : Nat) (bs : List Byte) : 4 ≤ (bytesOf n ++ bs).length := by
  rw [List.length_append, length_bytesOf]
  omega

theorem take_padded (bs : List Byte) : (padded bs).take bs.length = bs := by
  rw [padded]
  exact List.take_left

theorem octets_self {fits : Nat → Prop} {bs : List Byte} (h : fits bs.length) :
    Octets fits bs.length (padded bs) := by
  refine Or.inr ⟨h, ?_⟩
  rw [Supplies, padded, List.length_append, List.length_replicate]

theorem reads_wire {k : XdrScalar} {n : Int} (h : k.Recovers n) :
    (k.reads wordOf (k.wire n)).1 ≤ (k.wire n).length ∧ (k.reads wordOf (k.wire n)).2 = n := by
  have hwire : k.wire n = k.wire n ++ [] := (List.append_nil _).symm
  obtain ⟨hle, hn, _⟩ := ((reader_listOps false).scalar k).mp
    (scalar_wire false h (d := ⟨k.wire n, 0, []⟩) hwire)
  exact ⟨hle, hn.symm⟩

theorem XdrScalar.reads_fst (k : XdrScalar) (long long' : List Byte → Int) (bs : List Byte) :
    (k.reads long bs).1 = (k.reads long' bs).1 := by
  cases k with
  | word int32 put get => rfl
  | hyper int32 put get => rfl

/-- Whether the value is what a decode makes of the bytes that it went out as. -/
theorem Leaf.reads_sent {long : List Byte → Int} {fits : Nat → Prop} (leaf : Leaf) (env : XdrEnv)
    (calls : Nat) {v : Val} (hv : leaf.IsValue v) (htype : leaf.ty.HasType (leaf.sent v))
    (hfit : leaf.Fitting fits (leaf.sent v)) :
    (∃ o, leaf.Reads long fits env calls (leaf.ty.wire (leaf.sent v)) o ∧ leaf.ty.Holds o v) ↔
      leaf.Returns env calls v ∧ leaf.Recovered long v := by
  cases leaf with
  | scalar k =>
      obtain ⟨n, rfl, _⟩ := hv
      obtain ⟨_, heq, hn⟩ := htype
      cases heq
      obtain ⟨hle, _⟩ := reads_wire (k.recovers hn)
      rw [k.filter.reads_fst wordOf long] at hle
      constructor
      · rintro ⟨_, ⟨_, rfl⟩, m, hm, heq⟩
        exact ⟨trivial, (Obj.num.inj hm).trans (Val.num.inj heq).symm⟩
      · rintro ⟨_, hrec⟩
        exact ⟨_, ⟨hle, rfl⟩, _, rfl, congrArg Val.num hrec.symm⟩
  | opaqueData cnt =>
      obtain ⟨bs, rfl, hlen⟩ := hv
      refine iff_of_true ⟨.data bs, ⟨?_, ?_⟩, bs, rfl, rfl⟩ ⟨trivial, trivial⟩
      · rw [← hlen]
        exact octets_self hfit
      · rw [← hlen]
        exact congrArg Obj.data (take_padded bs).symm
  | bytes maxsize =>
      obtain ⟨bs, rfl, hlt⟩ := hv
      obtain ⟨_, heq, hmax⟩ := htype
      cases heq
      have hcount : countOf (bytesOf bs.length ++ padded bs) = bs.length := countOf_append hlt _
      have hle := length_le_bytesOf bs.length (padded bs)
      have hreads : ∀ o, (Leaf.bytes maxsize).Reads long fits env calls (bytesOf bs.length ++ padded bs) o ↔
          (bs.length = 0 ∧ o = .bytes 0 none ∨ bs.length ≠ 0 ∧ env.alloc calls = true ∧
            o = .bytes bs.length (some (⟨calls, bs.length⟩, bs))) := by
        intro o
        rw [Leaf.Reads, hcount, drop_bytesOf, take_padded, and_iff_right hle, and_iff_right hmax,
          and_iff_right (octets_self hfit)]
      constructor
      · rintro ⟨o, hread, x, heq, hold⟩
        cases heq
        refine ⟨fun hne => ?_, trivial⟩
        rcases (hreads o).mp hread with ⟨hzero, _⟩ | ⟨_, halloc, _⟩
        · exact absurd (List.eq_nil_of_length_eq_zero hzero) hne
        · exact halloc
      · rintro ⟨halloc, _⟩
        by_cases hzero : bs.length = 0
        · exact ⟨_, (hreads _).mpr (Or.inl ⟨hzero, rfl⟩), bs, rfl,
            Or.inl ⟨List.eq_nil_of_length_eq_zero hzero, rfl⟩⟩
        · have hne : bs ≠ [] := fun hnil => hzero (congrArg List.length hnil)
          exact ⟨_, (hreads _).mpr (Or.inr ⟨hzero, halloc hne, rfl⟩), bs, rfl, Or.inr ⟨_, rfl⟩⟩
  | string maxsize =>
      obtain ⟨bs, rfl, _⟩ := hv
      obtain ⟨x, hx, hmax, _⟩ := htype
      rw [hx] at hfit ⊢
      obtain ⟨hfits, hroom⟩ := hfit
      have hcount : countOf (bytesOf x.length ++ padded x) = x.length := countOf_append (by omega) _
      have hle := length_le_bytesOf x.length (padded x)
      have hreads : ∀ o, (Leaf.string maxsize).Reads long fits env calls (bytesOf x.length ++ padded x) o ↔
          (env.alloc calls = true ∧ o = .string (some (⟨calls, x.length + 1⟩, x ++ [0]))) := by
        intro o
        rw [Leaf.Reads, hcount, drop_bytesOf, take_padded, and_iff_right hle, and_iff_right hmax,
          and_iff_right hroom, and_iff_right (octets_self hfits)]
      have hcut : bs.take (bs.length % uintRange) = x := Val.bytes.inj hx
      constructor
      · rintro ⟨o, hread, y, b, heq, hold⟩
        cases heq
        obtain ⟨halloc, rfl⟩ := (hreads o).mp hread
        obtain ⟨_, hsame⟩ := Prod.mk.inj (Option.some.inj (Obj.string.inj hold))
        have hwhole : x = bs := List.append_cancel_right hsame
        rw [hwhole] at hroom
        exact ⟨⟨by omega, halloc⟩, trivial⟩
      · rintro ⟨⟨hlt, halloc⟩, _⟩
        rw [Nat.mod_eq_of_lt hlt, List.take_length] at hcut
        exact ⟨_, (hreads _).mpr ⟨halloc, rfl⟩, bs, _, rfl, by rw [hcut]⟩

/-- The number is not a negative `long`. -/
def Leaf.NotNegative : Leaf → Val → Prop
  | .scalar .long, .num n => 0 ≤ n
  | _, _ => True

theorem Leaf.recovered_wordOf (leaf : Leaf) {v : Val} (h : leaf.ty.HasType (leaf.sent v)) :
    leaf.Recovered wordOf v := by
  cases leaf with
  | scalar k =>
      obtain ⟨n, heq, hn⟩ := h
      cases heq
      exact (reads_wire (k.recovers hn)).2
  | _ => trivial

theorem unsignedWord_bytesOf (l : Int) : unsignedWord (bytesOf l) = castUint 32 l := by
  have hlt : (castUint 32 l).toNat < 2 ^ 32 := by
    unfold castUint
    omega
  have hnonneg : 0 ≤ castUint 32 l := by
    unfold castUint
    omega
  rw [unsignedWord, bytesOf, ntohl_htonl hlt]
  exact Int.toNat_of_nonneg hnonneg

theorem wire_long {n : Int} (h : Scalar.long.InRange n) : Scalar.long.filter.wire n = bytesOf n := by
  obtain ⟨hlo, hhi⟩ := h
  have hfix : castInt 32 n = n := by
    unfold castInt
    omega
  show ((if castInt 32 n = n then some n else none).map bytesOf).getD [] = _
  rw [if_pos hfix]
  rfl

theorem Leaf.recovered_unsignedWord (leaf : Leaf) {v : Val} (h : leaf.ty.HasType (leaf.sent v)) :
    leaf.Recovered unsignedWord v ↔ leaf.NotNegative v := by
  cases leaf with
  | scalar k =>
      have hword := (Leaf.scalar k).recovered_wordOf h
      obtain ⟨n, heq, hn⟩ := h
      cases heq
      by_cases hk : k = .long
      · rw [hk] at hn ⊢
        rw [Leaf.Recovered, reads_long, wire_long hn, List.take_of_length_le (length_bytesOf n).le,
          unsignedWord_bytesOf]
        obtain ⟨hlo, hhi⟩ := hn
        show castUint 32 n = n ↔ 0 ≤ n
        unfold castUint
        omega
      · have hback : (Leaf.scalar k).Recovered unsignedWord (.num n) := by
          rw [Leaf.Recovered, reads_eq hk]
          exact hword
        refine iff_of_true hback ?_
        cases k with
        | long => exact absurd rfl hk
        | _ => trivial
  | _ => exact iff_of_true trivial trivial

/-- A decode of the bytes written to a memory stream sees just these. -/
theorem View.rest_written {v w : View} {bs : List Byte} (hroom : v.Room 0) (h : Written v bs w) :
    View.InBounds ⟨.decode, w.bytes, v.pos, w.pos - v.pos⟩ ∧
      View.rest ⟨.decode, w.bytes, v.pos, w.pos - v.pos⟩ = bs := by
  obtain ⟨hbs, rfl⟩ := h hroom
  have hcount : (v.write bs).pos - v.pos = bs.length := Nat.add_sub_cancel_left _ _
  rw [hcount]
  obtain ⟨tail, hrest, htail⟩ := View.rest_write hbs (le_refl bs.length) .decode
  have hnil : tail = [] := List.eq_nil_of_length_eq_zero (by omega)
  rw [hnil, List.append_nil] at hrest
  refine ⟨?_, hrest⟩
  have hin := hbs.bounds
  have hfits := hbs.fits
  have hlen := View.length_write hbs
  unfold View.InBounds at hin ⊢
  dsimp only
  omega

/-- The two back ends agree on every string of bytes but for a `long` with its sign bit set and for 2^31
bytes or more. What has been encoded to a file is recovered from it but for a negative `long`, and what
has been encoded to memory is recovered, as long as memory is to be had and no string is cut. -/
theorem Leaf.backEnds_iff (leaf : Leaf) (env : XdrEnv) (disk calls : Nat) :
    (∀ bs, leaf.Agree env disk calls bs ↔ leaf.Faithful env calls bs) ∧
    (∀ v file file', leaf.IsValue v → leaf.ty.encode (xdrstdioOps disk) env v file = .ok (true, file') →
      ((∃ o, Yields (leaf.ty.decode (xdrstdioOps disk) env ⟨file'.drop file.length, calls, []⟩) o ∧
        leaf.ty.Holds o v) ↔ leaf.Returns env calls v ∧ leaf.NotNegative v)) ∧
    ∀ v (w w' : View), leaf.IsValue v → w.Room 0 →
      leaf.ty.encode (xdrmemOps env.failfast) env v w = .ok (true, w') →
      ((∃ o, Yields (leaf.ty.decode (xdrmemOps env.failfast) env
        ⟨⟨.decode, w'.bytes, w.pos, w'.pos - w.pos⟩, calls, []⟩) o ∧ leaf.ty.Holds o v) ↔
        leaf.Returns env calls v) := by
  refine ⟨leaf.agree_iff env disk calls, fun v file file' hv henc => ?_, fun v w w' hv hroom henc => ?_⟩
  · obtain ⟨htype, hfile, hfit⟩ := leaf.writes (writer_xdrstdioOps disk) env hv henc
    have hdrop : file'.drop file.length = leaf.ty.wire (leaf.sent v) := by
      rw [show file' = file ++ _ from hfile, List.drop_left]
    rw [hdrop, ← leaf.recovered_unsignedWord htype, ← leaf.reads_sent env calls hv htype hfit]
    exact exists_congr fun o => and_congr_left fun _ => yields_xdrstdio env disk leaf calls _ o
  · obtain ⟨htype, hwritten, hfit⟩ := leaf.writes (writer_xdrmemOps env.failfast) env hv henc
    obtain ⟨hin, hrest⟩ := View.rest_written hroom hwritten
    have hsent := (leaf.reads_sent env calls hv htype hfit :
      (∃ o, leaf.Reads wordOf (fun _ => True) env calls _ o ∧ _) ↔ _)
    rw [and_iff_left (leaf.recovered_wordOf htype)] at hsent
    refine Iff.trans (exists_congr fun o => and_congr_left fun _ => ?_) hsent
    rw [yields_xdrmem hin, hrest]

/-- A negative `short` makes the trip through a file and through memory. -/
theorem Leaf.backEnds_iff_short :
    (∃ o, Yields ((Leaf.scalar .short).ty.decode (xdrstdioOps 64) .ample ⟨[255, 255, 255, 251], 0, []⟩) o ∧
      (Leaf.scalar .short).ty.Holds o (.num (-5))) ∧
    ∃ o, Yields ((Leaf.scalar .short).ty.decode (xdrmemOps true) .ample
        ⟨⟨.decode, [255, 255, 255, 251], 0, 4⟩, 0, []⟩) o ∧ (Leaf.scalar .short).ty.Holds o (.num (-5)) := by
  obtain ⟨_, hfile, hmem⟩ := Leaf.backEnds_iff (.scalar .short) .ample 64 0
  have hvalue : (Leaf.scalar .short).IsValue (.num (-5)) := ⟨-5, rfl, by decide, by decide⟩
  constructor
  · exact (hfile (.num (-5)) [] [255, 255, 255, 251] hvalue rfl).mpr ⟨trivial, trivial⟩
  · exact (hmem (.num (-5)) ⟨.encode, [0, 0, 0, 0], 0, 4⟩ ⟨.encode, [255, 255, 255, 251], 4, 0⟩ hvalue
      ⟨by decide, by decide, Nat.le_refl 4⟩ rfl).mpr trivial

/-- A `long` of -1 goes to a file and to memory as the same four bytes. Memory gives it back; the file gives
4294967295. -/
theorem Leaf.backEnds_differ :
    (Leaf.scalar .long).ty.encode (xdrstdioOps 64) .ample (.num (-1)) [] = .ok (true, [255, 255, 255, 255]) ∧
    Yields ((Leaf.scalar .long).ty.decode (xdrstdioOps 64) .ample ⟨[255, 255, 255, 255], 0, []⟩)
      (.num 4294967295) ∧
    Yields ((Leaf.scalar .long).ty.decode (xdrmemOps true) .ample ⟨.over [255, 255, 255, 255], 0, []⟩)
      (.num (-1)) ∧
    ¬(Leaf.scalar .long).Agree .ample 64 0 [255, 255, 255, 255] := by
  have hmem : wordOf [255, 255, 255, 255] = -1 := by decide
  have hfile : unsignedWord [255, 255, 255, 255] = 4294967295 := by decide
  refine ⟨rfl, ?_, ?_, ?_⟩
  · rw [yields_xdrstdio, reads_scalar, reads_long]
    exact ⟨by decide, congrArg Obj.num hfile.symm⟩
  · refine (yields_xdrmem (View.inBounds_over _) .ample _ 0 _).mpr ?_
    rw [View.rest_over, reads_scalar, reads_long]
    exact ⟨by decide, congrArg Obj.num hmem.symm⟩
  · rw [Leaf.agree_iff]
    exact fun h => absurd (h (by decide)) (by decide)

end RpcMt
