import RpcMt.XdrStreams

/-! What a decode of bytes that nobody vouches for can come to. It ends with a status and an object, or
in `xdr_abort`, and has looked at no byte outside its stream. The object respects the limits that its
description declares: counts are at most `maxsize`, and every block holds all that is written into it. -/

namespace RpcMt

/-- A result that is within `Q`, or an abort. -/
def Post {α : Type} (Q : α → Prop) : Res α → Prop
  | .ok a => Q a
  | .error e => e = .xdrAbort

namespace Post

variable {α β : Type} {Q : α → Prop} {Q' : β → Prop} {r : Res α}

theorem imp {P : α → Prop} (h : Post Q r) (himp : ∀ a, Q a → P a) : Post P r := by
  cases r with
  | error e => exact h
  | ok a => exact himp a h

theorem bind {f : α → Res β} (h : Post Q r) (hf : ∀ a, Q a → Post Q' (f a)) : Post Q' (r >>= f) := by
  cases r with
  | error e => exact h
  | ok a => exact hf a h

theorem xdrAbort {failfast : Bool} {a : α} (h : Q a) : Post Q (xdrAbort failfast a) := by
  cases failfast with
  | false => exact h
  | true => exact rfl

theorem of_ok {a : α} (h : Post Q (.ok a)) : Q a := h

theorem of_error {e : Fault} (h : Post Q (.error e)) : e = .xdrAbort := h

end Post

/-! ### The limits of a description -/

/-- Memory as it was before, where a decode has been cut short. -/
def Missing (whole : Bool) (o : Obj) : Prop := whole = false ∧ o = .untouched

mutual
/-- The object respects the limits of the type, with its blocks among `mem`. The elements of an array
are `elsize` bytes each. Of a decode that has been cut short a part may be missing, and a count is
within its limit only where it has a block. -/
def Ty.Respects (mem : List Block) (whole : Bool) : Ty → Obj → Prop
  | .void, o => o = .untouched
  | .scalar _, o => Missing whole o ∨ ∃ n, o = .num n
  | .opaqueData cnt, o => Missing whole o ∨ ∃ bs, o = .data bs ∧ bs.length = cnt.toNat
  | .bytes maxsize, o => Missing whole o ∨
      (∃ size, o = .bytes size none ∧ (whole = true → size = 0)) ∨
      ∃ size b bs, o = .bytes size (some (b, bs)) ∧ b ∈ mem ∧ size ≤ maxsize.toNat ∧ bs.length = size ∧
        size ≤ b.size ∧ b.size < uintRange
  | .string maxsize, o => Missing whole o ∨ (whole = false ∧ o = .string none) ∨
      ∃ size b bs, o = .string (some (b, bs ++ [0])) ∧ b ∈ mem ∧ size ≤ maxsize.toNat ∧ bs.length = size ∧
        size + 1 ≤ b.size ∧ b.size < uintRange
  | .array maxsize elsize elem, o => Missing whole o ∨
      (∃ size, o = .array size none [] ∧ (whole = true → size = 0)) ∨
      ∃ size b elems, o = .array size (some b) elems ∧ b ∈ mem ∧ size ≤ maxsize.toNat ∧
        elems.length = size ∧ size * elsize.val.toNat ≤ b.size ∧ b.size < uintRange ∧
        ∀ e ∈ elems, elem.Respects mem whole e
  | .vector nelem elem, o => Missing whole o ∨
      ∃ elems, o = .vector elems ∧ elems.length = nelem.toNat ∧ ∀ e ∈ elems, elem.Respects mem whole e
  | .union choices, o => Missing whole o ∨ ∃ dscm arm, o = .union dscm arm ∧ choices.Respects mem whole dscm arm
  | .reference size target, o => Missing whole o ∨ (whole = false ∧ o = .ptr none .untouched) ∨
      ∃ b t, o = .ptr (some b) t ∧ b ∈ mem ∧ size.toNat ≤ b.size ∧ target.Respects mem whole t
  | .pointer size target, o => Missing whole o ∨ o = .ptr none .untouched ∨
      ∃ b t, o = .ptr (some b) t ∧ b ∈ mem ∧ size.toNat ≤ b.size ∧ target.Respects mem whole t
  | .pair a b, o => Missing whole o ∨ ∃ x y, o = .pair x y ∧ a.Respects mem whole x ∧ b.Respects mem whole y

def Choices.Respects (mem : List Block) (whole : Bool) : Choices → Int → Obj → Prop
  | .null, _, o => Missing whole o
  | .dfault proc, _, o => proc.Respects mem whole o
  | .choice value proc rest, dscm, o =>
      if value = dscm then proc.Respects mem whole o else rest.Respects mem whole dscm o
end

theorem Ty.respects_untouched (mem : List Block) (ty : Ty) : ty.Respects mem false .untouched := by
  cases ty with
  | void => rfl
  | _ => exact Or.inl ⟨rfl, rfl⟩

theorem Missing.mono {whole whole' : Bool} {o : Obj} (hw : whole' = true → whole = true)
    (h : Missing whole o) : Missing whole' o := by
  obtain ⟨hwhole, ho⟩ := h
  refine ⟨?_, ho⟩
  cases whole' with
  | false => rfl
  | true => exact absurd (hw rfl) (by simp [hwhole])

mutual
/-- Limits that are respected stay so as more blocks are handed out, and where less is asked for. -/
theorem Ty.Respects.mono {mem mem' : List Block} {whole whole' : Bool} (hmem : mem ⊆ mem')
    (hw : whole' = true → whole = true) : (ty : Ty) → {o : Obj} → ty.Respects mem whole o →
    ty.Respects mem' whole' o
  | .void, o, h => h
  | .scalar k, o, h => h.imp_left (Missing.mono hw)
  | .opaqueData cnt, o, h => h.imp_left (Missing.mono hw)
  | .bytes maxsize, o, h => by
      refine h.imp (Missing.mono hw) (Or.imp ?_ ?_)
      · rintro ⟨size, ho, hsize⟩
        exact ⟨size, ho, fun htrue => hsize (hw htrue)⟩
      · rintro ⟨size, b, bs, ho, hb, hrest⟩
        exact ⟨size, b, bs, ho, hmem hb, hrest⟩
  | .string maxsize, o, h => by
      refine h.imp (Missing.mono hw) (Or.imp ?_ ?_)
      · rintro ⟨hwhole, ho⟩
        cases whole' with
        | false => exact ⟨rfl, ho⟩
        | true => exact absurd (hw rfl) (by simp [hwhole])
      · rintro ⟨size, b, bs, ho, hb, hrest⟩
        exact ⟨size, b, bs, ho, hmem hb, hrest⟩
  | .array maxsize elsize elem, o, h => by
      refine h.imp (Missing.mono hw) (Or.imp ?_ ?_)
      · rintro ⟨size, ho, hsize⟩
        exact ⟨size, ho, fun htrue => hsize (hw htrue)⟩
      · rintro ⟨size, b, elems, ho, hb, hmax, hlen, hfit, hlt, helems⟩
        exact ⟨size, b, elems, ho, hmem hb, hmax, hlen, hfit, hlt, fun e he =>
          Ty.Respects.mono hmem hw elem (helems e he)⟩
  | .vector nelem elem, o, h => by
      refine h.imp (Missing.mono hw) ?_
      rintro ⟨elems, ho, hlen, helems⟩
      exact ⟨elems, ho, hlen, fun e he => Ty.Respects.mono hmem hw elem (helems e he)⟩
  | .union choices, o, h => by
      refine h.imp (Missing.mono hw) ?_
      rintro ⟨dscm, arm, ho, harm⟩
      exact ⟨dscm, arm, ho, Choices.Respects.mono hmem hw choices dscm harm⟩
  | .reference size target, o, h => by
      refine h.imp (Missing.mono hw) (Or.imp ?_ ?_)
      · rintro ⟨hwhole, ho⟩
        cases whole' with
        | false => exact ⟨rfl, ho⟩
        | true => exact absurd (hw rfl) (by simp [hwhole])
      · rintro ⟨b, t, ho, hb, hsize, ht⟩
        exact ⟨b, t, ho, hmem hb, hsize, Ty.Respects.mono hmem hw target ht⟩
  | .pointer size target, o, h => by
      refine h.imp (Missing.mono hw) (Or.imp_right ?_)
      rintro ⟨b, t, ho, hb, hsize, ht⟩
      exact ⟨b, t, ho, hmem hb, hsize, Ty.Respects.mono hmem hw target ht⟩
  | .pair a b, o, h => by
      refine h.imp (Missing.mono hw) ?_
      rintro ⟨x, y, ho, hx, hy⟩
      exact ⟨x, y, ho, Ty.Respects.mono hmem hw a hx, Ty.Respects.mono hmem hw b hy⟩

theorem Choices.Respects.mono {mem mem' : List Block} {whole whole' : Bool} (hmem : mem ⊆ mem')
    (hw : whole' = true → whole = true) : (choices : Choices) → (dscm : Int) → {o : Obj} →
    choices.Respects mem whole dscm o → choices.Respects mem' whole' dscm o
  | .null, dscm, o, h => Missing.mono hw h
  | .dfault proc, dscm, o, h => Ty.Respects.mono hmem hw proc h
  | .choice value proc rest, dscm, o, h => by
      unfold Choices.Respects at h ⊢
      by_cases hv : value = dscm
      · rw [if_pos hv] at h ⊢
        exact Ty.Respects.mono hmem hw proc h
      · rw [if_neg hv] at h ⊢
        exact Choices.Respects.mono hmem hw rest dscm h
end

/-! ### What each step of a decode comes to -/

section Steps

variable {σ : Type} {ops : XdrOps σ} {inv : σ → Prop} {env : XdrEnv} {d : Decoding σ}

/-- A stream whose reading operations never go wrong, and hand out as many bytes as were asked for. -/
structure Careful (ops : XdrOps σ) (inv : σ → Prop) : Prop where
  getlong : ∀ s, inv s → Post (fun p => inv p.2) (ops.getlong s)
  getbytes : ∀ len s, inv s →
    Post (fun p => inv p.2 ∧ ∀ bs, p.1 = some bs → bs.length = len) (ops.getbytes len s)
  getint32 : ∀ s, inv s → Post (fun p => inv p.2) (ops.getint32 s)

theorem Careful.getWord (h : Careful ops inv) (int32 : Bool) {s : σ} (hs : inv s) :
    Post (fun p => inv p.2) (ops.getWord int32 s) := by
  cases int32 with
  | false => exact h.getlong s hs
  | true => exact h.getint32 s hs

theorem Careful.scalar (h : Careful ops inv) (k : XdrScalar) (hd : inv d.stream) :
    Post (fun p => inv p.2.stream ∧ p.2.blocks = d.blocks) (d.scalar ops k) := by
  have hdecode : Post (fun p => inv p.2) (k.decode ops d.stream) := by
    cases k with
    | word int32 put get => exact (h.getWord int32 hd).bind fun p hp => hp
    | hyper int32 put get =>
        apply (h.getWord int32 hd).bind
        rintro ⟨t1, s⟩ hs
        cases t1 with
        | none => exact hs
        | some t1 => exact (h.getWord int32 hs).bind fun p hp => hp
  exact hdecode.bind fun p hp => ⟨hp, rfl⟩

/-- A count off the wire is a `u_int`. -/
theorem Careful.count (h : Careful ops inv) (hd : inv d.stream) :
    Post (fun p => (inv p.2.stream ∧ p.2.blocks = d.blocks) ∧ ∀ n, p.1 = some n → n.toNat < uintRange)
      (d.scalar ops xdrUInt) := by
  have hdecode : Post (fun p => inv p.2 ∧ ∀ n, p.1 = some n → n.toNat < uintRange)
      (xdrUInt.decode ops d.stream) := by
    apply (h.getlong d.stream hd).bind
    rintro ⟨l, s⟩ hs
    refine ⟨hs, fun n hn => ?_⟩
    obtain ⟨l', _, rfl⟩ := Option.map_eq_some_iff.mp hn
    unfold castUint uintRange
    omega
  exact hdecode.bind fun p hp => ⟨⟨hp.1, rfl⟩, hp.2⟩

/-- `xdr_opaque` that returns TRUE has written its bytes. -/
theorem Careful.octets (h : Careful ops inv) (cnt : Nat) (hd : inv d.stream) :
    Post (fun p => (inv p.2.2.stream ∧ p.2.2.blocks = d.blocks) ∧
      (∀ bs, p.2.1 = some bs → bs.length = cnt) ∧ (p.1 = true → p.2.1 ≠ none)) (d.octets ops cnt) := by
  have hdecode : Post (fun p => inv p.2.2 ∧ (∀ bs, p.2.1 = some bs → bs.length = cnt) ∧
      (p.1 = true → p.2.1 ≠ none)) (xdrOpaqueDecode ops cnt d.stream) := by
    unfold xdrOpaqueDecode
    split
    · rename_i hzero
      exact ⟨hd, by simp [hzero], by simp⟩
    · apply (h.getbytes cnt d.stream hd).bind
      rintro ⟨bs, s⟩ ⟨hs, hlen⟩
      cases bs with
      | none => exact ⟨hs, by simp, by simp⟩
      | some bs =>
          dsimp only
          split
          · exact ⟨hs, hlen, by simp⟩
          · apply (h.getbytes (rndup cnt) s hs).bind
            rintro ⟨crud, s'⟩ ⟨hs', _⟩
            exact ⟨hs', hlen, by simp⟩
  exact hdecode.bind fun p hp => ⟨⟨hp.1, rfl⟩, hp.2⟩

/-- A filter on the way from `d` ends with an object that is `P` of the blocks handed out by then. -/
def Ends (inv : σ → Prop) (d : Decoding σ) (P : List Block → Bool → Obj → Prop) (r : Res (Decoded σ)) : Prop :=
  Post (fun p => inv p.2.2.stream ∧ d.blocks ⊆ p.2.2.blocks ∧ P p.2.2.blocks p.1 p.2.1) r

variable {P : List Block → Bool → Obj → Prop} {r : Res (Decoded σ)}

theorem Ends.done {d₁ : Decoding σ} {ok : Bool} {o : Obj} (hd : inv d₁.stream) (hsub : d.blocks ⊆ d₁.blocks)
    (h : P d₁.blocks ok o) : Ends inv d P (.ok (ok, o, d₁)) := ⟨hd, hsub, h⟩

theorem Ends.after {d₁ : Decoding σ} (hsub : d.blocks ⊆ d₁.blocks) (h : Ends inv d₁ P r) : Ends inv d P r :=
  h.imp fun _ ⟨hd, hsub', hp⟩ => ⟨hd, List.Subset.trans hsub hsub', hp⟩

theorem Ends.bind {α : Type} {Q : α → Prop} {x : Res α} {f : α → Res (Decoded σ)} (h : Post Q x)
    (hf : ∀ a, Q a → Ends inv d P (f a)) : Ends inv d P (x >>= f) := Post.bind h hf

/-- A filter that asks for a block goes on with it, or returns FALSE. -/
theorem Ends.withBlock {size : Nat} {o : Obj} {f : Block → Decoding σ → Res (Decoded σ)} (hd : inv d.stream)
    (hnone : ∀ mem, P mem false o)
    (hf : ∀ b d₁, inv d₁.stream → b ∈ d₁.blocks → b.size = size → Ends inv d₁ P (f b d₁)) :
    Ends inv d P (d.withBlock env size o f) := by
  unfold Decoding.withBlock Decoding.alloc
  by_cases halloc : env.alloc d.calls = true
  · rw [if_pos halloc]
    let b : Block := ⟨d.calls, size⟩
    have hblock := hf b ⟨d.stream, d.calls + 1, d.blocks ++ [b]⟩ hd (List.mem_append_right _ List.mem_cons_self) rfl
    exact hblock.after (List.subset_append_left d.blocks [b])
  · rw [if_neg halloc]
    exact Post.xdrAbort ⟨hd, List.Subset.refl d.blocks, hnone _⟩

/-- A filter that asks for a block and reads its octets into it. -/
theorem Ends.filled (h : Careful ops inv) {size n : Nat} {o : Obj} (mk : Block → List Byte → Obj)
    (hd : inv d.stream) (hnone : ∀ mem, P mem false o)
    (hfull : ∀ mem ok b bs, b ∈ mem → b.size = size → bs.length = n → P mem ok (mk b bs)) :
    Ends inv d P (d.withBlock env size o fun b s => do
      let r ← s.octets ops n
      pure (r.1, mk b (r.2.1.getD (env.fresh b n)), r.2.2)) := by
  apply Ends.withBlock hd hnone
  intro b d₁ hd₁ hb hbsize
  apply Ends.bind (h.octets n hd₁)
  rintro ⟨ok, bs, d₂⟩ ⟨⟨hd₂, hsame⟩, hlen, _⟩
  have hfresh : (bs.getD (env.fresh b n)).length = n := by
    cases bs with
    | none => simp [XdrEnv.fresh]
    | some bs => exact hlen bs rfl
  exact ⟨hd₂, hsame ▸ List.Subset.refl d₁.blocks, hfull _ ok b _ (hsame ▸ hb) hbsize hfresh⟩

/-! ### Each filter -/

theorem ends_bytes (h : Careful ops inv) (maxsize : UInt32) (hd : inv d.stream) :
    Ends inv d (fun mem ok o => (Ty.bytes maxsize).Respects mem ok o)
      (xdrBytesDecode ops env maxsize.toNat d) := by
  apply Ends.bind (h.count hd)
  rintro ⟨n, d₁⟩ ⟨⟨hd₁, hsame⟩, hlt⟩
  have hsub : d.blocks ⊆ d₁.blocks := hsame ▸ List.Subset.refl d.blocks
  cases n with
  | none => exact Ends.done hd₁ hsub (Or.inl ⟨rfl, rfl⟩)
  | some n =>
      have hsize := hlt n rfl
      dsimp only
      split
      · exact Ends.done hd₁ hsub (Or.inr (Or.inl ⟨_, rfl, by simp⟩))
      · split
        · exact Ends.done hd₁ hsub (Or.inr (Or.inl ⟨_, rfl, fun _ => rfl⟩))
        · rename_i hmax hpos
          apply Ends.after hsub
          apply Ends.filled h (fun b bs => .bytes n.toNat (some (b, bs))) hd₁
            (fun mem => Or.inr (Or.inl ⟨_, rfl, by simp⟩))
          intro mem ok b bs hb hbsize hlen
          refine Or.inr (Or.inr ⟨n.toNat, b, bs, rfl, hb, Nat.le_of_not_lt hmax, hlen, hbsize.ge, ?_⟩)
          exact hbsize ▸ hsize

theorem ends_string (h : Careful ops inv) (maxsize : UInt32) (hd : inv d.stream) :
    Ends inv d (fun mem ok o => (Ty.string maxsize).Respects mem ok o)
      (xdrStringDecode ops env maxsize.toNat d) := by
  apply Ends.bind (h.count hd)
  rintro ⟨n, d₁⟩ ⟨⟨hd₁, hsame⟩, hlt⟩
  have hsub : d.blocks ⊆ d₁.blocks := hsame ▸ List.Subset.refl d.blocks
  cases n with
  | none => exact Ends.done hd₁ hsub (Or.inl ⟨rfl, rfl⟩)
  | some n =>
      have hsize := hlt n rfl
      dsimp only
      split
      · exact Ends.done hd₁ hsub (Or.inl ⟨rfl, rfl⟩)
      · split
        · exact Ends.done hd₁ hsub (Or.inl ⟨rfl, rfl⟩)
        · rename_i hmax hwrap
          -- The guard is what keeps `size + 1` from wrapping around.
          have hnode := succ_lt_uintRange hsize hwrap
          apply Ends.after hsub
          apply Ends.filled h (fun b bs => .string (some (b, bs ++ [0]))) hd₁
            (fun mem => Or.inr (Or.inl ⟨rfl, rfl⟩))
          intro mem ok b bs hb hbsize hlen
          refine Or.inr (Or.inr ⟨n.toNat, b, bs, rfl, hb, Nat.le_of_not_lt hmax, hlen, hbsize.ge, ?_⟩)
          exact hbsize ▸ hnode

section Elements

variable {elem : Ty} {f : Decoding σ → Res (Decoded σ)}

/-- The elements of an array or a vector, as many as there are to be. -/
theorem ends_all (hf : ∀ d, inv d.stream → Ends inv d (fun mem ok o => elem.Respects mem ok o) (f d)) (n : Nat)
    (hd : inv d.stream) :
    Post (fun p => inv p.2.2.stream ∧ d.blocks ⊆ p.2.2.blocks ∧ p.2.1.length = n ∧
      ∀ e ∈ p.2.1, elem.Respects p.2.2.blocks p.1 e) (decodeAll f n d) := by
  induction n generalizing d with
  | zero => exact ⟨hd, List.Subset.refl d.blocks, rfl, by simp⟩
  | succ n ih =>
      apply Post.bind (hf d hd)
      rintro ⟨ok, o, d₁⟩ ⟨hd₁, hsub, ho⟩
      cases ok with
      | false =>
          refine ⟨hd₁, hsub, by simp, fun e he => ?_⟩
          rcases List.mem_cons.mp he with rfl | he
          · exact ho
          · rw [List.eq_of_mem_replicate he]
            exact elem.respects_untouched d₁.blocks
      | true =>
          apply Post.bind (ih hd₁)
          rintro ⟨ok, os, d₂⟩ ⟨hd₂, hsub₂, hlen, hos⟩
          refine ⟨hd₂, List.Subset.trans hsub hsub₂, congrArg Nat.succ hlen, fun e he => ?_⟩
          rcases List.mem_cons.mp he with rfl | he
          · exact Ty.Respects.mono hsub₂ (fun _ => rfl) elem ho
          · exact hos e he

theorem ends_array (h : Careful ops inv) (maxsize : UInt32) (elsize : ElSize)
    (hf : ∀ d, inv d.stream → Ends inv d (fun mem ok o => elem.Respects mem ok o) (f d)) (hd : inv d.stream) :
    Ends inv d (fun mem ok o => (Ty.array maxsize elsize elem).Respects mem ok o)
      (xdrArrayDecode ops env maxsize.toNat elsize f d) := by
  apply Ends.bind (h.count hd)
  rintro ⟨n, d₁⟩ ⟨⟨hd₁, hsame⟩, _⟩
  have hsub : d.blocks ⊆ d₁.blocks := hsame ▸ List.Subset.refl d.blocks
  cases n with
  | none => exact Ends.done hd₁ hsub (Or.inl ⟨rfl, rfl⟩)
  | some n =>
      dsimp only
      split
      · exact Ends.done hd₁ hsub (Or.inr (Or.inl ⟨_, rfl, by simp⟩))
      · split
        · exact Ends.done hd₁ hsub (Or.inr (Or.inl ⟨_, rfl, fun _ => rfl⟩))
        · rename_i hguard hpos
          -- The guard is what keeps `c * elsize` from wrapping around.
          have hfit : n.toNat * elsize.val.toNat < uintRange := by
            have hle : n.toNat * elsize.val.toNat ≤ uintMax :=
              (Nat.le_div_iff_mul_le elsize.pos).mp (by omega)
            unfold uintMax at hle
            unfold uintRange at hle ⊢
            omega
          apply Ends.after hsub
          apply Ends.withBlock hd₁ (fun mem => Or.inr (Or.inl ⟨_, rfl, by simp⟩))
          intro b d₂ hd₂ hb hbsize
          apply Ends.bind (ends_all hf n.toNat hd₂)
          rintro ⟨ok, os, d₃⟩ ⟨hd₃, hsub₃, hlen, hos⟩
          refine ⟨hd₃, hsub₃, Or.inr (Or.inr ⟨_, b, os, rfl, hsub₃ hb, by omega, hlen, hbsize.ge, ?_, hos⟩)⟩
          exact hbsize ▸ hfit

/-- The target of a pointer, in a new block. -/
theorem ends_reference (size : UInt32)
    (hf : ∀ d, inv d.stream → Ends inv d (fun mem ok o => elem.Respects mem ok o) (f d)) (hd : inv d.stream) :
    Ends inv d (fun mem ok o => (ok = false ∧ o = .ptr none .untouched) ∨
      ∃ b t, o = .ptr (some b) t ∧ b ∈ mem ∧ size.toNat ≤ b.size ∧ elem.Respects mem ok t)
      (xdrReferenceDecode env size.toNat f d) := by
  apply Ends.withBlock hd (fun mem => Or.inl ⟨rfl, rfl⟩)
  intro b d₁ hd₁ hb hsize
  apply Ends.bind (hf d₁ hd₁)
  rintro ⟨ok, o, d₂⟩ ⟨hd₂, hsub, ho⟩
  exact ⟨hd₂, hsub, Or.inr ⟨b, o, rfl, hsub hb, hsize.ge, ho⟩⟩

end Elements

mutual
/-- Every decode ends with an object that respects the limits of its type. -/
theorem Ty.ends (h : Careful ops inv) : (ty : Ty) → (d : Decoding σ) → inv d.stream →
    Ends inv d (fun mem ok o => ty.Respects mem ok o) (ty.decode ops env d)
  | .void, d, hd => Ends.done hd (List.Subset.refl d.blocks) rfl
  | .scalar k, d, hd => by
      apply Ends.bind (h.scalar k.filter hd)
      rintro ⟨n, d₁⟩ ⟨hd₁, hsame⟩
      have hsub : d.blocks ⊆ d₁.blocks := hsame ▸ List.Subset.refl d.blocks
      cases n with
      | none => exact ⟨hd₁, hsub, Or.inl ⟨rfl, rfl⟩⟩
      | some n => exact ⟨hd₁, hsub, Or.inr ⟨n, rfl⟩⟩
  | .opaqueData cnt, d, hd => by
      apply Ends.bind (h.octets cnt.toNat hd)
      rintro ⟨ok, bs, d₁⟩ ⟨⟨hd₁, hsame⟩, hlen, hok⟩
      have hsub : d.blocks ⊆ d₁.blocks := hsame ▸ List.Subset.refl d.blocks
      cases bs with
      | none =>
          have hfalse : ok = false := by
            cases ok with
            | false => rfl
            | true => exact absurd rfl (hok rfl)
          exact ⟨hd₁, hsub, Or.inl ⟨hfalse, rfl⟩⟩
      | some bs => exact ⟨hd₁, hsub, Or.inr ⟨bs, rfl, hlen bs rfl⟩⟩
  | .bytes maxsize, d, hd => ends_bytes h maxsize hd
  | .string maxsize, d, hd => ends_string h maxsize hd
  | .array maxsize elsize elem, d, hd => ends_array h maxsize elsize (Ty.ends h elem) hd
  | .vector nelem elem, d, hd => by
      apply Ends.bind (ends_all (Ty.ends h elem) nelem.toNat hd)
      rintro ⟨ok, os, d₁⟩ ⟨hd₁, hsub, hlen, hos⟩
      exact ⟨hd₁, hsub, Or.inr ⟨os, rfl, hlen, hos⟩⟩
  | .union choices, d, hd => by
      apply Ends.bind (h.scalar xdrEnum hd)
      rintro ⟨n, d₁⟩ ⟨hd₁, hsame⟩
      have hsub : d.blocks ⊆ d₁.blocks := hsame ▸ List.Subset.refl d.blocks
      cases n with
      | none => exact ⟨hd₁, hsub, Or.inl ⟨rfl, rfl⟩⟩
      | some dscm =>
          apply Ends.after hsub
          apply Ends.bind (Choices.ends h choices dscm d₁ hd₁)
          rintro ⟨ok, o, d₂⟩ ⟨hd₂, hsub₂, ho⟩
          exact ⟨hd₂, hsub₂, Or.inr ⟨dscm, o, rfl, ho⟩⟩
  | .reference size target, d, hd =>
      (ends_reference size (Ty.ends h target) hd).imp fun _ ⟨hd₁, hsub, ho⟩ => ⟨hd₁, hsub, Or.inr ho⟩
  | .pointer size target, d, hd => by
      apply Ends.bind (h.scalar xdrBool hd)
      rintro ⟨n, d₁⟩ ⟨hd₁, hsame⟩
      have hsub : d.blocks ⊆ d₁.blocks := hsame ▸ List.Subset.refl d.blocks
      cases n with
      | none => exact ⟨hd₁, hsub, Or.inl ⟨rfl, rfl⟩⟩
      | some more =>
          dsimp only
          split
          · exact ⟨hd₁, hsub, Or.inr (Or.inl rfl)⟩
          · apply Ends.after hsub
            apply (ends_reference size (Ty.ends h target) hd₁).imp
            rintro ⟨ok, o, d₂⟩ ⟨hd₂, hsub₂, ho⟩
            exact ⟨hd₂, hsub₂, Or.inr (ho.imp_left And.right)⟩
  | .pair a b, d, hd => by
      apply Ends.bind (Ty.ends h a d hd)
      rintro ⟨ok, o, d₁⟩ ⟨hd₁, hsub, ho⟩
      cases ok with
      | false => exact ⟨hd₁, hsub, Or.inr ⟨o, _, rfl, ho, b.respects_untouched d₁.blocks⟩⟩
      | true =>
          apply Ends.bind (Ty.ends h b d₁ hd₁)
          rintro ⟨ok, o', d₂⟩ ⟨hd₂, hsub₂, ho'⟩
          exact ⟨hd₂, List.Subset.trans hsub hsub₂, Or.inr ⟨o, o', rfl, Ty.Respects.mono hsub₂ (fun _ => rfl) a ho, ho'⟩⟩

theorem Choices.ends (h : Careful ops inv) : (choices : Choices) → (dscm : Int) → (d : Decoding σ) →
    inv d.stream → Ends inv d (fun mem ok o => choices.Respects mem ok dscm o) (choices.decode ops env dscm d)
  | .null, dscm, d, hd => Ends.done hd (List.Subset.refl d.blocks) ⟨rfl, rfl⟩
  | .dfault proc, dscm, d, hd => Ty.ends h proc d hd
  | .choice value proc rest, dscm, d, hd => by
      unfold Choices.decode Choices.Respects
      by_cases hv : value = dscm
      · simp only [if_pos hv]
        exact Ty.ends h proc d hd
      · simp only [if_neg hv]
        exact Choices.ends h rest dscm d hd
end

end Steps

/-! ### Memory streams -/

/-- A stream over the `n` bytes `bs` within a larger memory. -/
def View.amid (before bs after : List Byte) : View := ⟨.decode, before ++ bs ++ after, before.length, bs.length⟩

theorem View.inBounds_amid (before bs after : List Byte) : (View.amid before bs after).InBounds := by
  simp [View.InBounds, View.amid]

theorem View.rest_amid (before bs after : List Byte) : (View.amid before bs after).rest = bs := by
  simp [View.rest, View.amid]

/-- A stream that has come from `v` by reading: over the same memory, at or past `v` and up to its end. -/
def View.Onward (v w : View) : Prop :=
  w.bytes = v.bytes ∧ v.pos ≤ w.pos ∧ w.pos + w.handy = v.pos + v.handy

/-- A memory stream within its buffer never looks outside it. -/
theorem xdrmemOps_careful {v : View} (hv : v.InBounds) (failfast : Bool) :
    Careful (xdrmemOps failfast) v.Onward := by
  have hbytes : ∀ len w, v.Onward w →
      Post (fun p => v.Onward p.2 ∧ ∀ bs, p.1 = some bs → bs.length = len) (xdrmemGetbytes failfast len w) := by
    rintro len w ⟨hsame, hpos, hsum⟩
    unfold View.InBounds at hv
    unfold xdrmemGetbytes
    by_cases hshort : w.handy < len
    · rw [if_pos hshort]
      exact Post.xdrAbort ⟨⟨hsame, hpos, hsum⟩, by simp⟩
    · rw [if_neg hshort, hsame, if_neg (by omega)]
      refine ⟨⟨rfl, Nat.le_add_right_of_le hpos, ?_⟩, fun bs hbs => ?_⟩
      · dsimp only
        omega
      · cases hbs
        rw [List.length_take, List.length_drop]
        omega
  have hword : ∀ w, v.Onward w → Post (fun p => v.Onward p.2) (xdrmemGetlong failfast w) := by
    intro w hw
    apply (hbytes 4 w hw).bind
    rintro ⟨bs, w'⟩ ⟨hw', _⟩
    exact hw'
  exact ⟨hword, hbytes, hword⟩

/-- The same status, object, blocks and count of bytes left. -/
def SameDecoded (p q : Decoded View) : Prop :=
  p.1 = q.1 ∧ p.2.1 = q.2.1 ∧ p.2.2.blocks = q.2.2.blocks ∧ p.2.2.stream.handy = q.2.2.stream.handy

/-- A decode of the bytes `bs` ends in `xdr_abort` or with a status, an object that respects the limits of
its type and a stream that is still within these bytes; and what is around them makes no difference. -/
theorem Ty.decode_bounded (ty : Ty) (env : XdrEnv) (before bs after : List Byte) (calls : Nat) :
    Ends (View.amid before bs after).Onward ⟨.amid before bs after, calls, []⟩
        (fun mem ok o => ty.Respects mem ok o)
        (ty.decode (xdrmemOps env.failfast) env ⟨.amid before bs after, calls, []⟩) ∧
      ∀ before' after', ResRel SameDecoded
        (ty.decode (xdrmemOps env.failfast) env ⟨.amid before bs after, calls, []⟩)
        (ty.decode (xdrmemOps env.failfast) env ⟨.amid before' bs after', calls, []⟩) := by
  refine ⟨?_, fun before' after' => ?_⟩
  · exact ty.ends (xdrmemOps_careful (View.inBounds_amid before bs after) env.failfast) _
      ⟨rfl, le_refl _, rfl⟩
  · have hlist := decode_xdrmem (View.inBounds_amid before bs after) env env.failfast ty calls []
    have hlist' := decode_xdrmem (View.inBounds_amid before' bs after') env env.failfast ty calls []
    rw [View.rest_amid] at hlist hlist'
    apply hlist.join hlist'
    rintro ⟨ok, o, d⟩ ⟨_, _, e⟩ ⟨_, _, d'⟩ ⟨rfl, rfl, hread, _, hblocks⟩ ⟨rfl, rfl, hread', _, hblocks'⟩
    refine ⟨rfl, rfl, hblocks.trans hblocks'.symm, ?_⟩
    exact hread.pos_eq.2.trans hread'.pos_eq.2.symm

end RpcMt
