import RpcMt.XdrWire

/-! Encoding and decoding are inverse: a decode that finds the wire form of a value makes an object that
holds it. The count of an array is checked against the size of its elements in both modes, which is
what stands between a value of the declared bounds and its encoding. -/

namespace RpcMt

/-! ### Decoding finds the value -/

section Reading

variable (failfast : Bool) {rest : List Byte}

theorem takeBytes_append (bs rest : List Byte) :
    takeBytes failfast bs.length (bs ++ rest) = .ok (some bs, rest) := by
  rw [takeBytes, if_neg (by simp), List.take_left, List.drop_left]

theorem getWord_bytesOf (int32 : Bool) (l : Int) :
    (listOps failfast).getWord int32 (bytesOf l ++ rest) = .ok (some (castInt 32 l), rest) := by
  have hword : takeWord failfast (bytesOf l ++ rest) = .ok (some (castInt 32 l), rest) := by
    have htake := takeBytes_append failfast (bytesOf l) rest
    rw [length_bytesOf] at htake
    rw [takeWord, htake]
    show Except.ok (some (wordOf (bytesOf l)), rest) = _
    rw [wordOf_bytesOf]
  cases int32 with
  | false => exact hword
  | true => exact hword

theorem scalar_wire {k : XdrScalar} {n : Int} (h : k.Recovers n) {d : Decoding (List Byte)}
    (hd : d.stream = k.wire n ++ rest) :
    d.scalar (listOps failfast) k = .ok (some n, { d with stream := rest }) := by
  have hdecode : k.decode (listOps failfast) (k.wire n ++ rest) = .ok (some n, rest) := by
    cases k with
    | word int32 put get =>
        obtain ⟨l, hl, hget⟩ := h
        rw [XdrScalar.wire, hl]
        show ((listOps failfast).getWord int32 (bytesOf l ++ rest) >>= _ : Res _) = _
        rw [getWord_bytesOf]
        show Except.ok (some (get (castInt 32 l)), rest) = _
        rw [hget]
    | hyper int32 put get =>
        rw [XdrScalar.wire, List.append_assoc]
        show ((listOps failfast).getWord int32 (bytesOf (put n).1 ++ (bytesOf (put n).2 ++ rest)) >>= _ :
          Res _) = _
        rw [getWord_bytesOf]
        show ((listOps failfast).getWord int32 (bytesOf (put n).2 ++ rest) >>= _ : Res _) = _
        rw [getWord_bytesOf]
        show Except.ok (some (get (castInt 32 (put n).1) (castInt 32 (put n).2)), rest) = _
        rw [show get (castInt 32 (put n).1) (castInt 32 (put n).2) = n from h]
  rw [Decoding.scalar, hd, hdecode]
  rfl

theorem octets_padded {bs : List Byte} {d : Decoding (List Byte)} (hd : d.stream = padded bs ++ rest) :
    d.octets (listOps failfast) bs.length = .ok (true, some bs, { d with stream := rest }) := by
  have hdecode : xdrOpaqueDecode (listOps failfast) bs.length (padded bs ++ rest) =
      .ok (true, some bs, rest) := by
    unfold xdrOpaqueDecode
    split
    · rename_i hzero
      rw [List.eq_nil_of_length_eq_zero hzero]
      rfl
    · rw [padded, List.append_assoc]
      show (takeBytes failfast bs.length _ >>= _ : Res _) = _
      rw [takeBytes_append]
      show (if rndup bs.length = 0 then _ else _ : Res _) = _
      split
      · rename_i hzero
        rw [hzero]
        rfl
      · have hpad := takeBytes_append failfast (List.replicate (rndup bs.length) 0) rest
        rw [List.length_replicate] at hpad
        show (takeBytes failfast (rndup bs.length) _ >>= _ : Res _) = _
        rw [hpad]
        rfl
  rw [Decoding.octets, hd, hdecode]
  rfl

end Reading

/-- A decoder that finds these bytes at the front of its stream takes them, returns TRUE and leaves an
object of this kind. -/
def Finds (f : Decoding (List Byte) → Res (Decoded (List Byte))) (bs : List Byte) (P : Obj → Prop) : Prop :=
  ∀ d rest, d.stream = bs ++ rest → ∃ o d', f d = .ok (true, o, d') ∧ d'.stream = rest ∧ P o

namespace Finds

variable (failfast : Bool) {env : XdrEnv}

theorem withBlock (halloc : ∀ k, env.alloc k = true) (size : Nat) (o : Obj)
    {f : Block → Decoding (List Byte) → Res (Decoded (List Byte))} {bs : List Byte} {P : Obj → Prop}
    (hf : ∀ b, Finds (f b) bs P) : Finds (Decoding.withBlock env size o f) bs P := by
  intro d rest hd
  rw [Decoding.withBlock, Decoding.alloc, if_pos (halloc _)]
  exact hf _ _ rest hd

theorem all {f : Decoding (List Byte) → Res (Decoded (List Byte))} {wire : Val → List Byte}
    {holds : Obj → Val → Prop} {vs : List Val} (h : ∀ v ∈ vs, Finds f (wire v) fun o => holds o v)
    (d : Decoding (List Byte)) (rest : List Byte) (hd : d.stream = vs.flatMap wire ++ rest) :
    ∃ os d', decodeAll f vs.length d = .ok (true, os, d') ∧ d'.stream = rest ∧
      List.Forall₂ holds os vs := by
  induction vs generalizing d with
  | nil => exact ⟨[], d, rfl, hd, .nil⟩
  | cons v vs ih =>
      rw [List.flatMap_cons, List.append_assoc] at hd
      obtain ⟨o, d', hf, hd', ho⟩ := h v (by simp) d _ hd
      obtain ⟨os, d'', hall, hd'', hos⟩ := ih (fun x hx => h x (by simp [hx])) d' hd'
      refine ⟨o :: os, d'', ?_, hd'', .cons ho hos⟩
      rw [List.length_cons, decodeAll, hf]
      show (decodeAll f vs.length d' >>= _ : Res _) = _
      rw [hall]
      rfl

/-- A count is found as it is. -/
theorem count {n : Nat} (hn : n < uintRange) {d : Decoding (List Byte)} {rest : List Byte}
    (hd : d.stream = bytesOf n ++ rest) :
    d.scalar (listOps failfast) xdrUInt = .ok (some (n : Int), { d with stream := rest }) := by
  refine scalar_wire failfast (Scalar.recovers .uInt ?_) hd
  constructor
  · omega
  · exact_mod_cast hn

theorem bytes (halloc : ∀ k, env.alloc k = true) {maxsize : Nat} {bs : List Byte}
    (hmax : bs.length ≤ maxsize) (hlt : bs.length < uintRange) :
    Finds (xdrBytesDecode (listOps failfast) env maxsize) (bytesOf bs.length ++ padded bs) fun o =>
      bs = [] ∧ o = .bytes 0 none ∨ ∃ b, o = .bytes bs.length (some (b, bs)) := by
  intro d rest hd
  rw [List.append_assoc] at hd
  rw [xdrBytesDecode, count failfast hlt hd]
  show ∃ o d', (if maxsize < bs.length then _ else if bs.length = 0 then _ else _ : Res _) = _ ∧ _
  rw [if_neg (Nat.not_lt.mpr hmax)]
  split
  · rename_i hzero
    have hnil := List.eq_nil_of_length_eq_zero hzero
    subst hnil
    exact ⟨_, _, rfl, rfl, Or.inl ⟨rfl, rfl⟩⟩
  · refine withBlock halloc bs.length _ (fun b => ?_) _ rest rfl
    intro d rest hd
    show ∃ o d', (d.octets (listOps failfast) bs.length >>= _ : Res _) = _ ∧ _
    rw [octets_padded failfast hd]
    exact ⟨_, _, rfl, rfl, Or.inr ⟨b, rfl⟩⟩

theorem string (halloc : ∀ k, env.alloc k = true) {maxsize : Nat} {bs : List Byte}
    (hmax : bs.length ≤ maxsize) (hlt : bs.length + 1 < uintRange) :
    Finds (xdrStringDecode (listOps failfast) env maxsize) (bytesOf bs.length ++ padded bs) fun o =>
      ∃ b, o = .string (some (b, bs ++ [0])) := by
  intro d rest hd
  rw [List.append_assoc] at hd
  rw [xdrStringDecode, count failfast (by omega) hd]
  show ∃ o d', (if maxsize < bs.length then _ else if (bs.length + 1) % uintRange = 0 then _ else _ :
    Res _) = _ ∧ _
  rw [if_neg (Nat.not_lt.mpr hmax), if_neg (by rw [Nat.mod_eq_of_lt hlt]; omega)]
  refine withBlock halloc (bs.length + 1) _ (fun b => ?_) _ rest rfl
  intro d rest hd
  show ∃ o d', (d.octets (listOps failfast) bs.length >>= _ : Res _) = _ ∧ _
  rw [octets_padded failfast hd]
  exact ⟨_, _, rfl, rfl, b, rfl⟩

theorem array (halloc : ∀ k, env.alloc k = true) {maxsize : Nat} {elsize : ElSize}
    {f : Decoding (List Byte) → Res (Decoded (List Byte))} {wire : Val → List Byte}
    {holds : Obj → Val → Prop} {vs : List Val} (hmax : vs.length ≤ maxsize)
    (hel : vs.length ≤ uintMax / elsize.val.toNat) (hlt : vs.length < uintRange)
    (h : ∀ v ∈ vs, Finds f (wire v) fun o => holds o v) :
    Finds (xdrArrayDecode (listOps failfast) env maxsize elsize f)
      (bytesOf vs.length ++ vs.flatMap wire) fun o => vs = [] ∧ o = .array 0 none [] ∨
        ∃ b os, o = .array vs.length (some b) os ∧ List.Forall₂ holds os vs := by
  intro d rest hd
  rw [List.append_assoc] at hd
  rw [xdrArrayDecode, count failfast hlt hd]
  show ∃ o d', (if maxsize < vs.length ∨ uintMax / elsize.val.toNat < vs.length then _
    else if vs.length = 0 then _ else _ : Res _) = _ ∧ _
  rw [if_neg (by omega)]
  split
  · rename_i hzero
    have hnil := List.eq_nil_of_length_eq_zero hzero
    subst hnil
    exact ⟨_, _, rfl, rfl, Or.inl ⟨rfl, rfl⟩⟩
  · refine withBlock halloc (vs.length * elsize.val.toNat) _ (fun b => ?_) _ rest rfl
    intro d rest hd
    obtain ⟨os, d', hall, hd', hos⟩ := all h d rest hd
    show ∃ o d', (decodeAll f vs.length d >>= _ : Res _) = _ ∧ _
    rw [hall]
    exact ⟨_, _, rfl, hd', Or.inr ⟨b, os, rfl, hos⟩⟩

theorem reference (halloc : ∀ k, env.alloc k = true) (size : Nat)
    {f : Decoding (List Byte) → Res (Decoded (List Byte))} {bs : List Byte} {P : Obj → Prop}
    (h : Finds f bs P) :
    Finds (xdrReferenceDecode env size f) bs fun o => ∃ b a, o = .ptr (some b) a ∧ P a := by
  refine withBlock halloc size _ (fun b => ?_)
  intro d rest hd
  obtain ⟨o, d', hf, hd', ho⟩ := h d rest hd
  show ∃ o d', (f d >>= _ : Res _) = _ ∧ _
  rw [hf]
  exact ⟨_, _, rfl, hd', b, o, rfl, ho⟩

end Finds

mutual
/-- Decoding the wire form of a value makes an object that holds it. -/
theorem Ty.finds {env : XdrEnv} (failfast : Bool) (halloc : ∀ k, env.alloc k = true) : (ty : Ty) →
    {v : Val} → ty.HasType v → ty.Fits v → (ty.wire v).length < uintRange →
    Finds (ty.decode (listOps failfast) env) (ty.wire v) fun o => ty.Holds o v
  | .void, v, h, _, _ => by
      rw [h]
      exact fun d rest hd => ⟨.untouched, d, rfl, hd, rfl⟩
  | .scalar k, v, h, _, _ => by
      obtain ⟨n, rfl, hn⟩ := h
      intro d rest hd
      rw [Ty.decode, scalar_wire failfast (k.recovers hn) hd]
      exact ⟨_, _, rfl, rfl, n, rfl, rfl⟩
  | .opaqueData cnt, v, h, _, _ => by
      obtain ⟨bs, rfl, hlen⟩ := h
      intro d rest hd
      rw [Ty.decode, ← hlen, octets_padded failfast hd]
      exact ⟨_, _, rfl, rfl, bs, rfl, rfl⟩
  | .bytes maxsize, v, h, _, _ => by
      obtain ⟨bs, rfl, hlen⟩ := h
      intro d rest hd
      have hlt : bs.length < uintRange := lt_of_le_of_lt hlen maxsize.toNat_lt
      obtain ⟨o, d', hf, hd', ho⟩ := Finds.bytes failfast halloc hlen hlt d rest hd
      exact ⟨o, d', hf, hd', bs, rfl, ho⟩
  | .string maxsize, v, h, _, hsmall => by
      obtain ⟨bs, rfl, hlen, _⟩ := h
      intro d rest hd
      have hlt : bs.length + 1 < uintRange := by
        simp only [Ty.wire, padded, List.length_append, length_bytesOf] at hsmall
        omega
      obtain ⟨o, d', hf, hd', b, ho⟩ := Finds.string failfast halloc hlen hlt d rest hd
      exact ⟨o, d', hf, hd', bs, b, rfl, ho⟩
  | .array maxsize elsize elem, v, h, hfit, hsmall => by
      obtain ⟨vs, rfl, hlen, hvs⟩ := h
      obtain ⟨vs', heq, hel, hfits⟩ := hfit
      cases heq
      intro d rest hd
      have hlt : vs.length < uintRange := lt_of_le_of_lt hlen maxsize.toNat_lt
      have helem : ∀ x ∈ vs, Finds (elem.decode (listOps failfast) env) (elem.wire x) fun o =>
          elem.Holds o x := by
        intro x hx
        refine elem.finds failfast halloc (hvs x hx) (hfits x hx) (lt_of_le_of_lt ?_ hsmall)
        rw [Ty.wire, List.length_append]
        exact (length_le_flatMap _ hx).trans (Nat.le_add_left _ _)
      obtain ⟨o, d', hf, hd', ho⟩ := Finds.array failfast halloc hlen hel hlt helem d rest hd
      exact ⟨o, d', hf, hd', vs, rfl, ho⟩
  | .vector nelem elem, v, h, hfit, hsmall => by
      obtain ⟨vs, rfl, hlen, hvs⟩ := h
      obtain ⟨vs', heq, hfits⟩ := hfit
      cases heq
      intro d rest hd
      have helem : ∀ x ∈ vs, Finds (elem.decode (listOps failfast) env) (elem.wire x) fun o =>
          elem.Holds o x := by
        intro x hx
        exact elem.finds failfast halloc (hvs x hx) (hfits x hx)
          (lt_of_le_of_lt (length_le_flatMap _ hx) hsmall)
      obtain ⟨os, d', hall, hd', hos⟩ := Finds.all helem d rest hd
      rw [Ty.decode, ← hlen, hall]
      exact ⟨_, _, rfl, hd', vs, os, rfl, rfl, hos⟩
  | .union choices, v, h, hfit, hsmall => by
      obtain ⟨dscm, x, rfl, hdscm, hx⟩ := h
      obtain ⟨_, _, heq, hfits⟩ := hfit
      cases heq
      intro d rest hd
      rw [Ty.wire, List.append_assoc] at hd
      rw [Ty.wire, List.length_append] at hsmall
      have hdiscrim : d.scalar (listOps failfast) xdrEnum = _ :=
        scalar_wire failfast (Scalar.recovers .enum hdscm) hd
      rw [Ty.decode, hdiscrim]
      obtain ⟨o, d', hf, hd', ho⟩ := choices.finds failfast halloc dscm hx hfits (by omega)
        { d with stream := choices.wire dscm x ++ rest } rest rfl
      refine ⟨.union dscm o, d', ?_, hd', dscm, o, x, rfl, rfl, ho⟩
      show (choices.decode (listOps failfast) env dscm _ >>= _ : Res _) = _
      rw [hf]
      rfl
  | .reference size target, v, h, hfit, hsmall => by
      obtain ⟨x, rfl, hx⟩ := h
      obtain ⟨_, heq, hfits⟩ := hfit
      cases heq
      intro d rest hd
      obtain ⟨o, d', hf, hd', b, a, ho, ha⟩ := Finds.reference halloc size.toNat
        (target.finds failfast halloc hx hfits hsmall) d rest hd
      exact ⟨o, d', hf, hd', b, a, x, rfl, ho, ha⟩
  | .pointer size target, v, h, hfit, hsmall => by
      rcases h with rfl | ⟨x, rfl, hx⟩
      · intro d rest hd
        have hmore : d.scalar (listOps failfast) xdrBool = _ :=
          scalar_wire failfast (Scalar.recovers .bool (Or.inl rfl)) hd
        rw [Ty.decode, hmore]
        exact ⟨_, _, rfl, rfl, Or.inl ⟨rfl, rfl⟩⟩
      · rcases hfit with heq | ⟨_, heq, hfits⟩
        · cases heq
        · cases heq
          intro d rest hd
          rw [Ty.wire, List.append_assoc] at hd
          rw [Ty.wire, List.length_append] at hsmall
          have hmore : d.scalar (listOps failfast) xdrBool = _ :=
            scalar_wire failfast (Scalar.recovers .bool (Or.inr rfl)) hd
          rw [Ty.decode, hmore]
          obtain ⟨o, d', hf, hd', b, a, ho, ha⟩ := Finds.reference halloc size.toNat
            (target.finds failfast halloc hx hfits (by omega))
            { d with stream := target.wire x ++ rest } rest rfl
          exact ⟨o, d', hf, hd', Or.inr ⟨b, a, x, rfl, ho, ha⟩⟩
  | .pair t u, v, h, hfit, hsmall => by
      obtain ⟨x, y, rfl, hx, hy⟩ := h
      obtain ⟨_, _, heq, hfx, hfy⟩ := hfit
      cases heq
      intro d rest hd
      rw [Ty.wire, List.append_assoc] at hd
      rw [Ty.wire, List.length_append] at hsmall
      obtain ⟨o, d', hf, hd', ho⟩ := t.finds failfast halloc hx hfx (by omega) d _ hd
      obtain ⟨o', d'', hf', hd'', ho'⟩ := u.finds failfast halloc hy hfy (by omega) d' rest hd'
      refine ⟨.pair o o', d'', ?_, hd'', o, o', x, y, rfl, rfl, ho, ho'⟩
      rw [Ty.decode, hf]
      show (u.decode (listOps failfast) env d' >>= _ : Res _) = _
      rw [hf']
      rfl

theorem Choices.finds {env : XdrEnv} (failfast : Bool) (halloc : ∀ k, env.alloc k = true) :
    (choices : Choices) → (d : Int) → {v : Val} → choices.HasType d v → choices.Fits d v →
    (choices.wire d v).length < uintRange →
    Finds (choices.decode (listOps failfast) env d) (choices.wire d v) fun o => choices.Holds d o v
  | .null, d, v, h, _, _ => h.elim
  | .dfault proc, d, v, h, hfit, hsmall => proc.finds failfast halloc h hfit hsmall
  | .choice value proc rest, d, v, h, hfit, hsmall => by
      intro s bs hs
      unfold Choices.HasType at h
      unfold Choices.Fits at hfit
      unfold Choices.wire at hs hsmall
      unfold Choices.decode Choices.Holds
      by_cases hd : value = d
      · rw [if_pos hd] at h hfit hs hsmall
        simp only [if_pos hd]
        exact proc.finds failfast halloc h hfit hsmall s bs hs
      · rw [if_neg hd] at h hfit hs hsmall
        simp only [if_neg hd]
        exact rest.finds failfast halloc d h hfit hsmall s bs hs
end

/-! ### Round trips -/

/-- Wherever there is room for the external form of the value, encoding writes it and returns TRUE, a
multiple of four bytes; and a decode of the bytes written returns TRUE, takes exactly these bytes and
leaves an object that holds the value, whether or not more bytes follow. -/
def Ty.RoundTrips (ty : Ty) (env : XdrEnv) (v : Val) : Prop :=
  4 ∣ (ty.wire v).length ∧ ∀ w : View, w.Room (ty.wire v).length →
    ty.encode (xdrmemOps env.failfast) env v w = .ok (true, w.write (ty.wire v)) ∧
    ∀ handy calls blocks, (ty.wire v).length ≤ handy → handy ≤ w.handy → ∃ o d,
      ty.decode (xdrmemOps env.failfast) env
        ⟨⟨.decode, (w.write (ty.wire v)).bytes, w.pos, handy⟩, calls, blocks⟩ = .ok (true, o, d) ∧
      d.stream.pos = w.pos + (ty.wire v).length ∧ d.stream.handy = handy - (ty.wire v).length ∧
      ty.Holds o v

theorem View.rest_write {w : View} {bs : List Byte} (h : w.Room bs.length) {handy : Nat}
    (hbs : bs.length ≤ handy) (op : XdrOp) :
    ∃ tail, View.rest ⟨op, (w.write bs).bytes, w.pos, handy⟩ = bs ++ tail ∧
      tail.length = min (handy - bs.length) (w.bytes.length - (w.pos + bs.length)) := by
  have hbounds := h.bounds
  unfold View.InBounds at hbounds
  have htake : (w.bytes.take w.pos).length = w.pos := by
    rw [List.length_take]
    omega
  have hdrop : (w.write bs).bytes.drop w.pos = bs ++ w.bytes.drop (w.pos + bs.length) := by
    have hleft := @List.drop_left _ (w.bytes.take w.pos) (bs ++ w.bytes.drop (w.pos + bs.length))
    rw [htake] at hleft
    show (w.bytes.take w.pos ++ bs ++ w.bytes.drop (w.pos + bs.length)).drop w.pos = _
    rw [List.append_assoc]
    exact hleft
  refine ⟨(w.bytes.drop (w.pos + bs.length)).take (handy - bs.length), ?_, ?_⟩
  · show ((w.write bs).bytes.drop w.pos).take handy = _
    rw [hdrop, List.take_append, List.take_of_length_le hbs]
  · rw [List.length_take, List.length_drop]

/-- Every value within its declared bounds makes the round trip, if its arrays also fit in `UINT_MAX`
bytes, and memory is not refused. -/
theorem xdr_roundTrip {env : XdrEnv} (halloc : ∀ k, env.alloc k = true) {ty : Ty} {v : Val}
    (h : ty.HasType v) (hfit : ty.Fits v) : ty.RoundTrips env v := by
  refine ⟨ty.dvd_wire h, fun w hroom => ⟨ty.puts env env.failfast h hfit w hroom, ?_⟩⟩
  intro handy calls blocks hle hhandy
  have hfits := hroom.fits
  have hbounds := hroom.bounds
  have hsmall : (ty.wire v).length < uintRange := lt_of_le_of_lt hroom.fits hroom.handy
  obtain ⟨tail, hrest, htail⟩ := View.rest_write hroom hle .decode
  have hin : View.InBounds ⟨.decode, (w.write (ty.wire v)).bytes, w.pos, handy⟩ := by
    unfold View.InBounds at hbounds ⊢
    show w.pos + handy ≤ (w.write (ty.wire v)).bytes.length
    rw [View.length_write hroom]
    omega
  obtain ⟨o, d', hf, hd', ho⟩ := ty.finds env.failfast halloc h hfit hsmall
    ⟨View.rest ⟨.decode, (w.write (ty.wire v)).bytes, w.pos, handy⟩, calls, blocks⟩ tail hrest
  have hmem := decode_xdrmem hin env env.failfast ty calls blocks
  rw [hf] at hmem
  obtain ⟨⟨ok, o', d⟩, hdecode, hok, hobj, hread, _⟩ := hmem.of_ok
  cases hok
  cases hobj
  have hread : ReadFrom ⟨.decode, (w.write (ty.wire v)).bytes, w.pos, handy⟩ d.stream tail := hd' ▸ hread
  obtain ⟨hpos, hleft⟩ := hread.pos_eq
  rw [htail] at hpos hleft
  unfold View.InBounds at hbounds
  refine ⟨o, d, hdecode, ?_, ?_, ho⟩
  · simp only at hpos
    omega
  · omega

/-- An environment in which memory is never refused. -/
def XdrEnv.ample : XdrEnv := ⟨true, fun _ => true, fun _ _ => 0⟩

/-- A list of two shorts, a string and a null pointer in a struct. -/
theorem xdr_roundTrip_struct :
    (Ty.pair (.array 8 ⟨2, by decide⟩ (.scalar .short)) (.pair (.string 16) (.pointer 4 (.scalar .int)))).RoundTrips
      .ample (.pair (.seq [.num (-5), .num 7]) (.pair (.bytes [104, 105]) .null)) := by
  refine xdr_roundTrip (fun _ => rfl) ?_ ?_
  · refine ⟨_, _, rfl, ⟨_, rfl, by decide, ?_⟩, _, _, rfl, ⟨_, rfl, by decide, by decide⟩, Or.inl rfl⟩
    intro x hx
    rcases List.mem_cons.mp hx with rfl | hx
    · exact ⟨_, rfl, by decide, by decide⟩
    · rw [List.mem_singleton.mp hx]
      exact ⟨_, rfl, by decide, by decide⟩
  · exact ⟨_, _, rfl, ⟨_, rfl, by decide, fun _ _ => trivial⟩, _, _, rfl, trivial, Or.inl rfl⟩

/-- The guard of `xdr_array` refuses an array whose elements take more than `UINT_MAX` bytes. -/
theorem encode_array_refused {env : XdrEnv} {maxsize : UInt32} {elsize : ElSize} {elem : Ty} {vs : List Val}
    (hbig : uintMax / elsize.val.toNat < vs.length) {w : View} (hroom : w.Room 4) :
    (Ty.array maxsize elsize elem).encode (xdrmemOps env.failfast) env (.seq vs) w =
      .ok (false, w.write (bytesOf vs.length)) := by
  rw [Ty.encode, xdrArrayEncode, Puts.count env.failfast w hroom]
  show (if maxsize.toNat < vs.length ∨ uintMax / elsize.val.toNat < vs.length then _ else _ : Res _) = _
  rw [if_pos (Or.inr hbig)]

/-- An array of `2 ^ 29` null pointers takes 4 GiB in memory and 2 GiB on the wire: it is within its
declared bound, and a stream has room for it, but it is not encoded. -/
theorem xdr_array_not_roundTrip : ∃ (ty : Ty) (v : Val), ty.HasType v ∧ ¬ty.RoundTrips .ample v := by
  have hlen : (List.replicate (2 ^ 29) Val.null).length = 2 ^ 29 := List.length_replicate
  have hwire : (Ty.wire (.array 4294967295 ⟨8, by decide⟩ (.pointer 4 (.scalar .int)))
      (.seq (List.replicate (2 ^ 29) .null))).length = 4 + 2 ^ 29 * 4 := by
    rw [Ty.wire, List.length_append, List.flatMap_replicate, List.length_flatten, List.map_replicate,
      List.sum_replicate_nat]
    rfl
  refine ⟨.array 4294967295 ⟨8, by decide⟩ (.pointer 4 (.scalar .int)), .seq (List.replicate (2 ^ 29) .null),
    ⟨_, rfl, ?_, ?_⟩, ?_⟩
  · rw [hlen]
    decide
  · intro x hx
    exact Or.inl (List.eq_of_mem_replicate hx)
  · rintro ⟨_, htrip⟩
    rw [hwire] at htrip
    have hroom : View.Room ⟨.encode, List.replicate (4 + 2 ^ 29 * 4) 0, 0, 4 + 2 ^ 29 * 4⟩ (4 + 2 ^ 29 * 4) := by
      refine ⟨le_refl _, by decide, ?_⟩
      show 0 + (4 + 2 ^ 29 * 4) ≤ (List.replicate (4 + 2 ^ 29 * 4) (0 : Byte)).length
      rw [List.length_replicate]
      omega
    have hbig : uintMax / (⟨8, by decide⟩ : ElSize).val.toNat < (List.replicate (2 ^ 29) Val.null).length := by
      rw [hlen]
      decide
    have hfalse := @encode_array_refused .ample 4294967295 _ (.pointer 4 (.scalar .int)) _ hbig _
      ⟨by decide, hroom.handy, hroom.bounds⟩
    have htrue := (htrip _ hroom).1
    rw [hfalse] at htrue
    cases htrue

end RpcMt
