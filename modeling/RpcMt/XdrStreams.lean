import RpcMt.XdrFilters

/-! Memory streams as the filters see them, and the plain list of bytes that a decode reads. A filter
looks at a stream through its operations only, so two streams whose operations answer alike give the
same statuses, objects and blocks: a memory stream is decoded as the list of its remaining bytes. -/

namespace RpcMt

/-! ### Results that agree -/

/-- The same fault, or values that are related. -/
inductive ResRel {α β : Type} (Q : α → β → Prop) : Res α → Res β → Prop where
  | ok {a : α} {b : β} (h : Q a b) : ResRel Q (.ok a) (.ok b)
  | error (e : Fault) : ResRel Q (.error e) (.error e)

namespace ResRel

variable {α β γ δ : Type} {Q : α → β → Prop} {Q' : γ → δ → Prop} {x : Res α} {y : Res β}

theorem bind (h : ResRel Q x y) {f : α → Res γ} {g : β → Res δ}
    (hf : ∀ a b, Q a b → ResRel Q' (f a) (g b)) : ResRel Q' (x >>= f) (y >>= g) := by
  cases h with
  | ok hq => exact hf _ _ hq
  | error e => exact .error e

theorem of_ok {b : β} (h : ResRel Q x (.ok b)) : ∃ a, x = .ok a ∧ Q a b := by
  cases h with
  | ok hq => exact ⟨_, rfl, hq⟩

theorem of_error {e : Fault} (h : ResRel Q x (.error e)) : x = .error e := by
  cases h
  rfl

/-- Two results that agree with a third one. -/
theorem join {P : γ → β → Prop} {S : α → γ → Prop} {z : Res γ} (h : ResRel Q x y) (h' : ResRel P z y)
    (hjoin : ∀ a b c, Q a b → P c b → S a c) : ResRel S x z := by
  cases h with
  | ok hq =>
      cases h' with
      | ok hp => exact .ok (hjoin _ _ _ hq hp)
  | error e =>
      cases h'
      exact .error e

theorem isOk_iff (h : ResRel Q x y) : (∃ a, x = .ok a) ↔ ∃ b, y = .ok b := by
  cases h with
  | ok hq => exact ⟨fun _ => ⟨_, rfl⟩, fun _ => ⟨_, rfl⟩⟩
  | error e =>
      constructor
      · rintro ⟨_, h⟩
        cases h
      · rintro ⟨_, h⟩
        cases h

end ResRel

/-- The same answer, and related streams beside it. -/
def Beside {α σ τ : Type} (R : σ → τ → Prop) (p : α × σ) (q : α × τ) : Prop := p.1 = q.1 ∧ R p.2 q.2

/-- The operations of two streams that read alike. -/
structure ReadAlike {σ τ : Type} (R : σ → τ → Prop) (o : XdrOps σ) (o' : XdrOps τ) : Prop where
  getlong : ∀ s t, R s t → ResRel (Beside R) (o.getlong s) (o'.getlong t)
  getbytes : ∀ len s t, R s t → ResRel (Beside R) (o.getbytes len s) (o'.getbytes len t)
  getint32 : ∀ s t, R s t → ResRel (Beside R) (o.getint32 s) (o'.getint32 t)

/-- Decodes that differ in their streams only. -/
def DecodingRel {σ τ : Type} (R : σ → τ → Prop) (d : Decoding σ) (e : Decoding τ) : Prop :=
  R d.stream e.stream ∧ d.calls = e.calls ∧ d.blocks = e.blocks

section Alike

variable {σ τ : Type} {R S : σ → τ → Prop} {o : XdrOps σ} {o' : XdrOps τ} (env : XdrEnv)

/-- What agrees where filters agree: the status, the object and everything but the stream. -/
abbrev DecodedAlike (R : σ → τ → Prop) : Res (Decoded σ) → Res (Decoded τ) → Prop :=
  ResRel (Beside (Beside (DecodingRel R)))

/-- How two streams are related that were read: by `R` as long as all that was asked for was there. -/
def stage (R S : σ → τ → Prop) (ok : Bool) : σ → τ → Prop := if ok then R else S

@[simp]
theorem stage_self (ok : Bool) : stage R R ok = R := ite_self R

/-- The same answer, which is a status or has one, and the streams related by it. -/
def Upto {α : Type} (status : α → Bool) (Q : Bool → σ → τ → Prop) (p : α × σ) (q : α × τ) : Prop :=
  p.1 = q.1 ∧ Q (status p.1) p.2 q.2

/-- The operations of two streams that read alike until one of them is short of bytes, and so is the other. -/
structure ReadUntil (R S : σ → τ → Prop) (o : XdrOps σ) (o' : XdrOps τ) : Prop where
  weaken : ∀ s t, R s t → S s t
  getlong : ∀ s t, R s t → ResRel (Upto Option.isSome (stage R S)) (o.getlong s) (o'.getlong t)
  getbytes : ∀ len s t, R s t → ResRel (Upto Option.isSome (stage R S)) (o.getbytes len s) (o'.getbytes len t)
  getint32 : ∀ s t, R s t → ResRel (Upto Option.isSome (stage R S)) (o.getint32 s) (o'.getint32 t)

/-- What agrees where filters agree that give up at the first shortage. -/
abbrev DecodedUntil (R S : σ → τ → Prop) : Res (Decoded σ) → Res (Decoded τ) → Prop :=
  ResRel fun p q => p.1 = q.1 ∧ p.2.1 = q.2.1 ∧ DecodingRel (stage R S p.1) p.2.2 q.2.2

theorem DecodingRel.stage {d : Decoding σ} {e : Decoding τ} (h : DecodingRel R d e)
    (hRS : ∀ s t, R s t → S s t) (ok : Bool) : DecodingRel (stage R S ok) d e := by
  obtain ⟨hst, hcalls, hblocks⟩ := h
  cases ok with
  | false => exact ⟨hRS _ _ hst, hcalls, hblocks⟩
  | true => exact ⟨hst, hcalls, hblocks⟩

namespace ReadUntil

theorem getWord (h : ReadUntil R S o o') (int32 : Bool) {s : σ} {t : τ} (hst : R s t) :
    ResRel (Upto Option.isSome (stage R S)) (o.getWord int32 s) (o'.getWord int32 t) := by
  cases int32 with
  | false => exact h.getlong s t hst
  | true => exact h.getint32 s t hst

theorem scalar (h : ReadUntil R S o o') (k : XdrScalar) {d : Decoding σ} {e : Decoding τ}
    (hde : DecodingRel R d e) :
    ResRel (Upto Option.isSome fun ok => DecodingRel (stage R S ok)) (d.scalar o k) (e.scalar o' k) := by
  obtain ⟨hst, hcalls, hblocks⟩ := hde
  have hword : ResRel (Upto Option.isSome (stage R S)) (k.decode o d.stream) (k.decode o' e.stream) := by
    cases k with
    | word int32 put get =>
        refine (h.getWord int32 hst).bind ?_
        rintro ⟨l, s⟩ ⟨_, t⟩ ⟨rfl, hst⟩
        refine .ok ⟨rfl, ?_⟩
        rw [Option.isSome_map]
        exact hst
    | hyper int32 put get =>
        refine (h.getWord int32 hst).bind ?_
        rintro ⟨t1, s⟩ ⟨_, t⟩ ⟨rfl, hst⟩
        cases t1 with
        | none => exact .ok ⟨rfl, hst⟩
        | some t1 =>
            refine (h.getWord int32 hst).bind ?_
            rintro ⟨t2, s⟩ ⟨_, t⟩ ⟨rfl, hst⟩
            refine .ok ⟨rfl, ?_⟩
            rw [Option.isSome_map]
            exact hst
  refine hword.bind ?_
  rintro ⟨n, s⟩ ⟨_, t⟩ ⟨rfl, hst⟩
  exact .ok ⟨rfl, hst, hcalls, hblocks⟩

theorem octets (h : ReadUntil R S o o') (cnt : Nat) {d : Decoding σ} {e : Decoding τ}
    (hde : DecodingRel R d e) :
    ResRel (fun p q => p.1 = q.1 ∧ p.2.1 = q.2.1 ∧ DecodingRel (stage R S p.1) p.2.2 q.2.2) (d.octets o cnt)
      (e.octets o' cnt) := by
  obtain ⟨hst, hcalls, hblocks⟩ := hde
  have hbytes : ResRel (fun p q => p.1 = q.1 ∧ p.2.1 = q.2.1 ∧ stage R S p.1 p.2.2 q.2.2)
      (xdrOpaqueDecode o cnt d.stream) (xdrOpaqueDecode o' cnt e.stream) := by
    unfold xdrOpaqueDecode
    split
    · exact .ok ⟨rfl, rfl, hst⟩
    · refine (h.getbytes cnt _ _ hst).bind ?_
      rintro ⟨bs, s⟩ ⟨_, t⟩ ⟨rfl, hst⟩
      cases bs with
      | none => exact .ok ⟨rfl, rfl, hst⟩
      | some bs =>
          dsimp only
          split
          · exact .ok ⟨rfl, rfl, hst⟩
          · refine (h.getbytes (rndup cnt) _ _ hst).bind ?_
            rintro ⟨crud, s⟩ ⟨_, t⟩ ⟨rfl, hst⟩
            exact .ok ⟨rfl, rfl, hst⟩
  refine hbytes.bind ?_
  rintro ⟨ok, bs, s⟩ ⟨_, _, t⟩ ⟨rfl, rfl, hst⟩
  exact .ok ⟨rfl, rfl, hst, hcalls, hblocks⟩

end ReadUntil

theorem xdrAbort_alike {α β : Type} {Q : α → β → Prop} {a : α} {b : β} (h : Q a b) (failfast : Bool) :
    ResRel Q (xdrAbort failfast a) (xdrAbort failfast b) := by
  cases failfast with
  | false => exact .ok h
  | true => exact .error _

namespace ReadUntil

variable {d : Decoding σ} {e : Decoding τ}

theorem withBlock (h : ReadUntil R S o o') (hde : DecodingRel R d e) (size : Nat)
    (obj : Obj) {f : Block → Decoding σ → Res (Decoded σ)} {g : Block → Decoding τ → Res (Decoded τ)}
    (hfg : ∀ b d e, DecodingRel R d e → DecodedUntil R S (f b d) (g b e)) :
    DecodedUntil R S (d.withBlock env size obj f) (e.withBlock env size obj g) := by
  obtain ⟨hst, hcalls, hblocks⟩ := hde
  unfold Decoding.withBlock Decoding.alloc
  rw [hcalls, hblocks]
  by_cases halloc : env.alloc e.calls = true
  · rw [if_pos halloc, if_pos halloc]
    exact hfg _ _ _ ⟨hst, rfl, rfl⟩
  · rw [if_neg halloc, if_neg halloc]
    exact xdrAbort_alike ⟨rfl, rfl, h.weaken _ _ hst, rfl, rfl⟩ _

theorem xdrBytesDecode (h : ReadUntil R S o o') (maxsize : Nat) (hde : DecodingRel R d e) :
    DecodedUntil R S (xdrBytesDecode o env maxsize d) (xdrBytesDecode o' env maxsize e) := by
  refine (h.scalar xdrUInt hde).bind ?_
  rintro ⟨n, d⟩ ⟨_, e⟩ ⟨rfl, hde⟩
  cases n with
  | none => exact .ok ⟨rfl, rfl, hde⟩
  | some n =>
      dsimp only
      split
      · exact .ok ⟨rfl, rfl, DecodingRel.stage hde h.weaken false⟩
      · split
        · exact .ok ⟨rfl, rfl, hde⟩
        · refine h.withBlock env hde n.toNat _ fun b d e hde => ?_
          refine (h.octets n.toNat hde).bind ?_
          rintro ⟨ok, bs, d⟩ ⟨_, _, e⟩ ⟨rfl, rfl, hde⟩
          exact .ok ⟨rfl, rfl, hde⟩

theorem xdrStringDecode (h : ReadUntil R S o o') (maxsize : Nat) (hde : DecodingRel R d e) :
    DecodedUntil R S (xdrStringDecode o env maxsize d) (xdrStringDecode o' env maxsize e) := by
  refine (h.scalar xdrUInt hde).bind ?_
  rintro ⟨n, d⟩ ⟨_, e⟩ ⟨rfl, hde⟩
  cases n with
  | none => exact .ok ⟨rfl, rfl, hde⟩
  | some n =>
      dsimp only
      split
      · exact .ok ⟨rfl, rfl, DecodingRel.stage hde h.weaken false⟩
      · split
        · exact .ok ⟨rfl, rfl, DecodingRel.stage hde h.weaken false⟩
        · refine h.withBlock env hde (n.toNat + 1) _ fun b d e hde => ?_
          refine (h.octets n.toNat hde).bind ?_
          rintro ⟨ok, bs, d⟩ ⟨_, _, e⟩ ⟨rfl, rfl, hde⟩
          exact .ok ⟨rfl, rfl, hde⟩

section Elements

variable {f : Decoding σ → Res (Decoded σ)} {g : Decoding τ → Res (Decoded τ)}

theorem decodeAll (hfg : ∀ d e, DecodingRel R d e → DecodedUntil R S (f d) (g e)) (n : Nat)
    (hde : DecodingRel R d e) :
    ResRel (fun p q => p.1 = q.1 ∧ p.2.1 = q.2.1 ∧ DecodingRel (stage R S p.1) p.2.2 q.2.2) (decodeAll f n d)
      (decodeAll g n e) := by
  induction n generalizing d e with
  | zero => exact .ok ⟨rfl, rfl, hde⟩
  | succ n ih =>
      refine (hfg d e hde).bind ?_
      rintro ⟨ok, obj, d⟩ ⟨_, _, e⟩ ⟨rfl, rfl, hde⟩
      cases ok with
      | false => exact .ok ⟨rfl, rfl, hde⟩
      | true =>
          refine (ih hde).bind ?_
          rintro ⟨ok, os, d⟩ ⟨_, _, e⟩ ⟨rfl, rfl, hde⟩
          exact .ok ⟨rfl, rfl, hde⟩

theorem xdrArrayDecode (h : ReadUntil R S o o') (maxsize : Nat) (elsize : ElSize)
    (hfg : ∀ d e, DecodingRel R d e → DecodedUntil R S (f d) (g e)) (hde : DecodingRel R d e) :
    DecodedUntil R S (xdrArrayDecode o env maxsize elsize f d) (xdrArrayDecode o' env maxsize elsize g e) := by
  refine (h.scalar xdrUInt hde).bind ?_
  rintro ⟨n, d⟩ ⟨_, e⟩ ⟨rfl, hde⟩
  cases n with
  | none => exact .ok ⟨rfl, rfl, hde⟩
  | some n =>
      dsimp only
      split
      · exact .ok ⟨rfl, rfl, DecodingRel.stage hde h.weaken false⟩
      · split
        · exact .ok ⟨rfl, rfl, hde⟩
        · refine h.withBlock env hde (n.toNat * elsize.val.toNat) _ fun b d e hde => ?_
          refine (decodeAll hfg n.toNat hde).bind ?_
          rintro ⟨ok, os, d⟩ ⟨_, _, e⟩ ⟨rfl, rfl, hde⟩
          exact .ok ⟨rfl, rfl, hde⟩

theorem xdrReferenceDecode (h : ReadUntil R S o o') (size : Nat)
    (hfg : ∀ d e, DecodingRel R d e → DecodedUntil R S (f d) (g e)) (hde : DecodingRel R d e) :
    DecodedUntil R S (xdrReferenceDecode env size f d) (xdrReferenceDecode env size g e) := by
  refine h.withBlock env hde size _ fun b d e hde => ?_
  refine (hfg d e hde).bind ?_
  rintro ⟨ok, obj, d⟩ ⟨_, _, e⟩ ⟨rfl, rfl, hde⟩
  exact .ok ⟨rfl, rfl, hde⟩

end Elements

mutual
/-- Streams that read alike until bytes are short are decoded alike. -/
theorem decode (h : ReadUntil R S o o') : (ty : Ty) → (d : Decoding σ) → (e : Decoding τ) →
    DecodingRel R d e → DecodedUntil R S (ty.decode o env d) (ty.decode o' env e)
  | .void, d, e, hde => .ok ⟨rfl, rfl, hde⟩
  | .scalar k, d, e, hde => by
      refine (h.scalar k.filter hde).bind ?_
      rintro ⟨n, d⟩ ⟨_, e⟩ ⟨rfl, hde⟩
      cases n with
      | none => exact .ok ⟨rfl, rfl, hde⟩
      | some n => exact .ok ⟨rfl, rfl, hde⟩
  | .opaqueData cnt, d, e, hde => by
      refine (h.octets cnt.toNat hde).bind ?_
      rintro ⟨ok, bs, d⟩ ⟨_, _, e⟩ ⟨rfl, rfl, hde⟩
      cases bs with
      | none => exact .ok ⟨rfl, rfl, hde⟩
      | some bs => exact .ok ⟨rfl, rfl, hde⟩
  | .bytes maxsize, d, e, hde => h.xdrBytesDecode env maxsize.toNat hde
  | .string maxsize, d, e, hde => h.xdrStringDecode env maxsize.toNat hde
  | .array maxsize elsize elem, d, e, hde =>
      h.xdrArrayDecode env maxsize.toNat elsize (decode h elem) hde
  | .vector nelem elem, d, e, hde => by
      refine (decodeAll (decode h elem) nelem.toNat hde).bind ?_
      rintro ⟨ok, os, d⟩ ⟨_, _, e⟩ ⟨rfl, rfl, hde⟩
      exact .ok ⟨rfl, rfl, hde⟩
  | .union choices, d, e, hde => by
      refine (h.scalar xdrEnum hde).bind ?_
      rintro ⟨n, d⟩ ⟨_, e⟩ ⟨rfl, hde⟩
      cases n with
      | none => exact .ok ⟨rfl, rfl, hde⟩
      | some n =>
          refine (choice h choices n d e hde).bind ?_
          rintro ⟨ok, obj, d⟩ ⟨_, _, e⟩ ⟨rfl, rfl, hde⟩
          exact .ok ⟨rfl, rfl, hde⟩
  | .reference size target, d, e, hde => h.xdrReferenceDecode env size.toNat (decode h target) hde
  | .pointer size target, d, e, hde => by
      refine (h.scalar xdrBool hde).bind ?_
      rintro ⟨n, d⟩ ⟨_, e⟩ ⟨rfl, hde⟩
      cases n with
      | none => exact .ok ⟨rfl, rfl, hde⟩
      | some more =>
          dsimp only
          split
          · exact .ok ⟨rfl, rfl, hde⟩
          · exact h.xdrReferenceDecode env size.toNat (decode h target) hde
  | .pair a b, d, e, hde => by
      refine (decode h a d e hde).bind ?_
      rintro ⟨ok, obj, d⟩ ⟨_, _, e⟩ ⟨rfl, rfl, hde⟩
      cases ok with
      | false => exact .ok ⟨rfl, rfl, hde⟩
      | true =>
          refine (decode h b d e hde).bind ?_
          rintro ⟨ok, obj', d⟩ ⟨_, _, e⟩ ⟨rfl, rfl, hde⟩
          exact .ok ⟨rfl, rfl, hde⟩

theorem choice (h : ReadUntil R S o o') : (choices : Choices) → (dscm : Int) → (d : Decoding σ) →
    (e : Decoding τ) → DecodingRel R d e →
    DecodedUntil R S (choices.decode o env dscm d) (choices.decode o' env dscm e)
  | .null, dscm, d, e, hde => .ok ⟨rfl, rfl, DecodingRel.stage hde h.weaken false⟩
  | .dfault proc, dscm, d, e, hde => decode h proc d e hde
  | .choice value proc rest, dscm, d, e, hde => by
      unfold Choices.decode
      split
      · exact decode h proc d e hde
      · exact choice h rest dscm d e hde
end

end ReadUntil

/-- Streams that read alike, short of bytes or not. -/
theorem ReadAlike.until (h : ReadAlike R o o') : ReadUntil R R o o' := by
  have hbeside : ∀ {α : Type} {x : Res (Option α × σ)} {y : Res (Option α × τ)}, ResRel (Beside R) x y →
      ResRel (Upto Option.isSome (stage R R)) x y := by
    intro α x y hxy
    cases hxy with
    | ok hq => exact .ok ⟨hq.1, by rw [stage_self]; exact hq.2⟩
    | error e => exact .error e
  exact ⟨fun _ _ => id, fun s t hst => hbeside (h.getlong s t hst), fun len s t hst => hbeside (h.getbytes len s t hst),
    fun s t hst => hbeside (h.getint32 s t hst)⟩

/-- Streams that read alike are decoded alike. -/
theorem ReadAlike.decode (h : ReadAlike R o o') (ty : Ty) (d : Decoding σ) (e : Decoding τ)
    (hde : DecodingRel R d e) : DecodedAlike R (ty.decode o env d) (ty.decode o' env e) := by
  have hdecode := h.until.decode env ty d e hde
  simp only [DecodedUntil, stage_self] at hdecode
  exact hdecode

end Alike

/-! ### Memory streams -/

/-- A word off the wire, as the `int32_t` it is. -/
def wordOf (bs : List Byte) : Int := castInt 32 (ntohl bs)

/-- `htonl` of the low word of a `long`. -/
def bytesOf (l : Int) : List Byte := htonl (castUint 32 l).toNat

theorem length_bytesOf (l : Int) : (bytesOf l).length = 4 := rfl

/-- `xdrmem_getbytes`. -/
def xdrmemGetbytes (failfast : Bool) (len : Nat) (v : View) : Res (Option (List Byte) × View) :=
  if v.handy < len then xdrAbort failfast (none, v)
  else if v.bytes.length < v.pos + len then .error .badPointer
  else .ok (some ((v.bytes.drop v.pos).take len), { v with pos := v.pos + len, handy := v.handy - len })

/-- `xdrmem_putbytes`. -/
def xdrmemPutbytes (failfast : Bool) (bs : List Byte) (v : View) : Res (Bool × View) :=
  if v.handy < bs.length then xdrAbort failfast (false, v)
  else if v.bytes.length < v.pos + bs.length then .error .badPointer
  else .ok (true, { v with
    bytes := v.bytes.take v.pos ++ bs ++ v.bytes.drop (v.pos + bs.length)
    pos := v.pos + bs.length
    handy := v.handy - bs.length })

/-- `xdrmem_getlong`, and `xdrmem_getint32`, which differs from it in the type of the result only. -/
def xdrmemGetlong (failfast : Bool) (v : View) : Res (Option Int × View) := do
  let (bs, v) ← xdrmemGetbytes failfast 4 v
  pure (bs.map wordOf, v)

/-- `xdrmem_putlong`, and `xdrmem_putint32`. -/
def xdrmemPutlong (failfast : Bool) (l : Int) (v : View) : Res (Bool × View) :=
  xdrmemPutbytes failfast (bytesOf l) v

def xdrmemOps (failfast : Bool) : XdrOps View where
  getlong := xdrmemGetlong failfast
  putlong := xdrmemPutlong failfast
  getbytes := xdrmemGetbytes failfast
  putbytes := xdrmemPutbytes failfast
  getint32 := xdrmemGetlong failfast
  putint32 := xdrmemPutlong failfast

/-- The bytes that are left in a stream. -/
def View.rest (v : View) : List Byte := (v.bytes.drop v.pos).take v.handy

/-- The stream lies within its buffer. -/
def View.InBounds (v : View) : Prop := v.pos + v.handy ≤ v.bytes.length

theorem View.length_rest {v : View} (h : v.InBounds) : v.rest.length = v.handy := by
  unfold View.InBounds at h
  rw [View.rest, List.length_take, List.length_drop]
  omega

/-- Reading bytes off a plain list. -/
def takeBytes (failfast : Bool) (len : Nat) (bs : List Byte) : Res (Option (List Byte) × List Byte) :=
  if bs.length < len then xdrAbort failfast (none, bs) else .ok (some (bs.take len), bs.drop len)

def takeWord (failfast : Bool) (bs : List Byte) : Res (Option Int × List Byte) := do
  let (word, bs) ← takeBytes failfast 4 bs
  pure (word.map wordOf, bs)

/-- A list of bytes as a stream: it is read from its front and written at its end. -/
def listOps (failfast : Bool) : XdrOps (List Byte) where
  getlong := takeWord failfast
  putlong l out := .ok (true, out ++ bytesOf l)
  getbytes := takeBytes failfast
  putbytes bs out := .ok (true, out ++ bs)
  getint32 := takeWord failfast
  putint32 l out := .ok (true, out ++ bytesOf l)

/-- A memory stream that has come from `v` by reading, with these bytes left. -/
def ReadFrom (v w : View) (bs : List Byte) : Prop :=
  w.xOp = v.xOp ∧ w.bytes = v.bytes ∧ w.pos + w.handy = v.pos + v.handy ∧ w.InBounds ∧ w.rest = bs

theorem readFrom_self {v : View} (h : v.InBounds) : ReadFrom v v v.rest := ⟨rfl, rfl, rfl, h, rfl⟩

theorem ReadFrom.pos_eq {v w : View} {bs : List Byte} (h : ReadFrom v w bs) :
    w.pos + bs.length = v.pos + v.handy ∧ w.handy = bs.length := by
  obtain ⟨_, _, hsum, hin, rfl⟩ := h
  rw [View.length_rest hin]
  exact ⟨hsum, rfl⟩

theorem ReadFrom.getbytes {v w : View} {bs : List Byte} (h : ReadFrom v w bs) (failfast : Bool) (len : Nat) :
    ResRel (Beside (ReadFrom v)) (xdrmemGetbytes failfast len w) (takeBytes failfast len bs) := by
  have hlen := h.pos_eq.2
  obtain ⟨hop, hbytes, hsum, hin, hrest⟩ := h
  unfold View.InBounds at hin
  unfold xdrmemGetbytes takeBytes
  rw [hlen]
  by_cases hshort : bs.length < len
  · rw [if_pos hshort, if_pos hshort]
    exact xdrAbort_alike ⟨rfl, hop, hbytes, hsum, hin, hrest⟩ _
  · rw [if_neg hshort, if_neg hshort, if_neg (by omega)]
    refine .ok ⟨?_, hop, hbytes, ?_, ?_, ?_⟩
    · rw [← hrest, View.rest, List.take_take, Nat.min_eq_left (by omega)]
    · dsimp only
      omega
    · show w.pos + len + (bs.length - len) ≤ w.bytes.length
      omega
    · calc (w.bytes.drop (w.pos + len)).take (bs.length - len)
        _ = (w.bytes.drop (w.pos + len)).take (w.handy - len) := by rw [hlen]
        _ = w.rest.drop len := by rw [View.rest, List.drop_take, List.drop_drop]
        _ = bs.drop len := by rw [hrest]

/-- A memory stream reads as the list of the bytes left in it. -/
theorem xdrmemOps_readAlike (v : View) (failfast : Bool) :
    ReadAlike (ReadFrom v) (xdrmemOps failfast) (listOps failfast) := by
  have hword : ∀ w bs, ReadFrom v w bs →
      ResRel (Beside (ReadFrom v)) (xdrmemGetlong failfast w) (takeWord failfast bs) := by
    intro w bs h
    refine (h.getbytes failfast 4).bind ?_
    rintro ⟨word, w⟩ ⟨_, bs⟩ ⟨rfl, h⟩
    exact .ok ⟨rfl, h⟩
  exact ⟨hword, fun len w bs h => h.getbytes failfast len, hword⟩

/-- Decoding a memory stream is decoding the bytes left in it. -/
theorem decode_xdrmem {v : View} (h : v.InBounds) (env : XdrEnv) (failfast : Bool) (ty : Ty) (calls : Nat)
    (blocks : List Block) :
    DecodedAlike (ReadFrom v) (ty.decode (xdrmemOps failfast) env ⟨v, calls, blocks⟩)
      (ty.decode (listOps failfast) env ⟨v.rest, calls, blocks⟩) :=
  (xdrmemOps_readAlike v failfast).decode env ty _ _ ⟨readFrom_self h, rfl, rfl⟩

end RpcMt
