import RpcMt.XdrRoundTrip

/-! `xdr_sizeof.c`: an encoding that only counts. Its stream operations add up what they are given and
answer TRUE. A filter sees of a stream no more than these answers, so the count is the length of what
the same filter writes to a memory stream that has the room. -/

namespace RpcMt

/-- The operations that `xdr_sizeof` puts into its stream; the state is `x_handy`, a `u_int`. Those that
get something are `harmless`. -/
def sizeofOps : XdrOps Nat where
  getlong xHandy := .ok (none, xHandy)
  putlong _ xHandy := .ok (true, (xHandy + 4) % uintRange)
  getbytes _ xHandy := .ok (none, xHandy)
  putbytes bp xHandy := .ok (true, (xHandy + bp.length % uintRange) % uintRange)
  getint32 xHandy := .ok (none, xHandy)
  putint32 _ xHandy := .ok (true, (xHandy + 4) % uintRange)

/-- `xdr_sizeof`. -/
def xdrSizeof (env : XdrEnv) (func : Ty) (data : Val) : Res Nat := do
  let (stat, xHandy) ← func.encode sizeofOps env data 0
  pure (if stat then xHandy else 0)

/-- `xdr_float`, as far as it encodes: it puts the `int` that has the bits of the `float`. -/
def xdrFloat : Ty := .scalar .int

/-- `xdr_double`, as far as it encodes: it puts the two words that hold its bits, the high one first. -/
def xdrDouble : Ty := .scalar .hyper

/-- A stream without end, for what an encoding consists of. -/
def endlessOps : XdrOps (List Byte) where
  getlong out := .ok (none, out)
  putlong l out := .ok (true, out ++ bytesOf l)
  getbytes _ out := .ok (none, out)
  putbytes bs out := .ok (true, out ++ bs)
  getint32 out := .ok (none, out)
  putint32 l out := .ok (true, out ++ bytesOf l)

/-- What encoding a value amounts to: the status of the filter and the bytes it puts. -/
def Ty.encoding (ty : Ty) (env : XdrEnv) (v : Val) : Res (Bool × List Byte) := ty.encode endlessOps env v []

/-! ### Following an encoding -/

variable {σ : Type}

/-- A stream that takes all that is put to it as long as the whole `fits`. `R` relates it to what has
been put. -/
structure Takes (fits : Nat → Prop) (R : List Byte → σ → Prop) (o : XdrOps σ) : Prop where
  fits_of_le : ∀ {m n}, m ≤ n → fits n → fits m
  putlong : ∀ {l out s}, R out s → fits (out ++ bytesOf l).length →
    ∃ s', o.putlong l s = .ok (true, s') ∧ R (out ++ bytesOf l) s'
  putbytes : ∀ {bs out s}, R out s → fits (out ++ bs).length →
    ∃ s', o.putbytes bs s = .ok (true, s') ∧ R (out ++ bs) s'
  putint32 : ∀ {l out s}, R out s → fits (out ++ bytesOf l).length →
    ∃ s', o.putint32 l s = .ok (true, s') ∧ R (out ++ bytesOf l) s'

/-- An encoder that goes on a stream as it goes on the endless one. What it does there when the endless
one faults is said only of a stream that takes everything. -/
structure Follows (fits : Nat → Prop) (R : List Byte → σ → Prop) (f : List Byte → Res (Bool × List Byte))
    (g : σ → Res (Bool × σ)) : Prop where
  grows : ∀ {out ok out'}, f out = .ok (ok, out') → out.length ≤ out'.length
  follows : ∀ {out s ok out'}, R out s → f out = .ok (ok, out') → fits out'.length →
    ∃ s', g s = .ok (ok, s') ∧ R out' s'
  faults : ∀ {out s e}, R out s → (∀ n, fits n) → f out = .error e → g s = .error e

namespace Follows

variable {fits : Nat → Prop} {R : List Byte → σ → Prop} {o : XdrOps σ}
  {f f' : List Byte → Res (Bool × List Byte)} {g g' : σ → Res (Bool × σ)}

theorem done (ok : Bool) : Follows fits R (fun out => .ok (ok, out)) fun s => .ok (ok, s) where
  grows h := by
    cases h
    exact Nat.le_refl _
  follows hR h _ := by
    cases h
    exact ⟨_, rfl, hR⟩
  faults _ _ h := nomatch h

theorem fault (e : Fault) : Follows fits R (fun _ => .error e) fun _ => .error e where
  grows h := nomatch h
  follows _ h _ := nomatch h
  faults _ _ h := by
    cases h
    rfl

theorem aborts (failfast : Bool) :
    Follows fits R (fun out => xdrAbort failfast (false, out)) fun s => xdrAbort failfast (false, s) := by
  cases failfast with
  | true => exact fault .xdrAbort
  | false => exact done false

theorem ite {c : Prop} [Decidable c] (h : Follows fits R f g) (h' : Follows fits R f' g') :
    Follows fits R (fun out => if c then f out else f' out) fun s => if c then g s else g' s := by
  by_cases hc : c
  · simp only [if_pos hc]
    exact h
  · simp only [if_neg hc]
    exact h'

theorem andThen (ho : Takes fits R o) (h : Follows fits R f g) (h' : Follows fits R f' g') :
    Follows fits R (fun out => andThen (f out) f') fun s => andThen (g s) g' where
  grows {out ok out'} hrun := by
    obtain ⟨⟨ok₁, mid⟩, hf, hrest⟩ := bind_ok hrun
    cases ok₁ with
    | true => exact (h.grows hf).trans (h'.grows hrest)
    | false =>
        cases hrest
        exact h.grows hf
  follows {out s ok out'} hR hrun hfits := by
    obtain ⟨⟨ok₁, mid⟩, hf, hrest⟩ := bind_ok hrun
    cases ok₁ with
    | true =>
        obtain ⟨s₁, hg, hR₁⟩ := h.follows hR hf (ho.fits_of_le (h'.grows hrest) hfits)
        obtain ⟨s₂, hg', hR₂⟩ := h'.follows hR₁ hrest hfits
        refine ⟨s₂, ?_, hR₂⟩
        rw [RpcMt.andThen, hg]
        exact hg'
    | false =>
        cases hrest
        obtain ⟨s₁, hg, hR₁⟩ := h.follows hR hf hfits
        refine ⟨s₁, ?_, hR₁⟩
        rw [RpcMt.andThen, hg]
        rfl
  faults {out s e} hR hall hrun := by
    rcases bind_error hrun with hf | ⟨⟨ok₁, mid⟩, hf, hrest⟩
    · rw [RpcMt.andThen, h.faults hR hall hf]
      rfl
    · cases ok₁ with
      | true =>
          obtain ⟨s₁, hg, hR₁⟩ := h.follows hR hf (hall _)
          rw [RpcMt.andThen, hg]
          exact h'.faults hR₁ hall hrest
      | false => cases hrest

theorem putWord (ho : Takes fits R o) (int32 : Bool) (l : Int) :
    Follows fits R (endlessOps.putWord int32 l) (o.putWord int32 l) := by
  cases int32 with
  | false =>
      refine ⟨fun h => ?_, fun hR h hfits => ?_, fun _ _ h => nomatch h⟩
      · cases h
        simp
      · cases h
        exact ho.putlong hR hfits
  | true =>
      refine ⟨fun h => ?_, fun hR h hfits => ?_, fun _ _ h => nomatch h⟩
      · cases h
        simp
      · cases h
        exact ho.putint32 hR hfits

theorem putbytes (ho : Takes fits R o) (bs : List Byte) :
    Follows fits R (endlessOps.putbytes bs) (o.putbytes bs) := by
  refine ⟨fun h => ?_, fun hR h hfits => ?_, fun _ _ h => nomatch h⟩
  · cases h
    simp
  · cases h
    exact ho.putbytes hR hfits

theorem scalar (ho : Takes fits R o) (k : XdrScalar) (n : Int) :
    Follows fits R (k.encode endlessOps n) (k.encode o n) := by
  cases k with
  | word int32 put get =>
      cases hput : put n with
      | none =>
          have hendless : XdrScalar.encode endlessOps (.word int32 put get) n = fun out => .ok (false, out) := by
            funext out
            rw [XdrScalar.encode, hput]
          have hstream : XdrScalar.encode o (.word int32 put get) n = fun s => .ok (false, s) := by
            funext s
            rw [XdrScalar.encode, hput]
          rw [hendless, hstream]
          exact done false
      | some l =>
          have hendless : XdrScalar.encode endlessOps (.word int32 put get) n = endlessOps.putWord int32 l := by
            funext out
            rw [XdrScalar.encode, hput]
          have hstream : XdrScalar.encode o (.word int32 put get) n = o.putWord int32 l := by
            funext s
            rw [XdrScalar.encode, hput]
          rw [hendless, hstream]
          exact putWord ho int32 l
  | hyper int32 put get => exact (putWord ho int32 _).andThen ho (putWord ho int32 _)

theorem octets (ho : Takes fits R o) (bs : List Byte) :
    Follows fits R (xdrOpaqueEncode endlessOps bs) (xdrOpaqueEncode o bs) :=
  ite (done true) ((putbytes ho bs).andThen ho (ite (done true) (putbytes ho _)))

theorem all (ho : Takes fits R o) {f : Val → List Byte → Res (Bool × List Byte)}
    {g : Val → σ → Res (Bool × σ)} {vs : List Val} (h : ∀ v ∈ vs, Follows fits R (f v) (g v)) :
    Follows fits R (encodeAll f vs) (encodeAll g vs) := by
  induction vs with
  | nil => exact done true
  | cons v vs ih =>
      exact (h v List.mem_cons_self).andThen ho (ih fun x hx => h x (List.mem_cons_of_mem _ hx))

end Follows

section Encoders

variable {fits : Nat → Prop} {R : List Byte → σ → Prop} {o : XdrOps σ}

mutual
/-- Every filter goes on every stream as it goes on the endless one. -/
theorem Ty.follows (ho : Takes fits R o) (env : XdrEnv) : (ty : Ty) → (v : Val) →
    Follows fits R (ty.encode endlessOps env v) (ty.encode o env v)
  | .void, _ => Follows.done true
  | .scalar k, v => by
      cases v with
      | num n => exact Follows.scalar ho k.filter n
      | _ => exact Follows.fault .badPointer
  | .opaqueData cnt, v => by
      cases v with
      | bytes bs => exact (Follows.octets ho bs).ite (Follows.fault .badPointer)
      | _ => exact Follows.fault .badPointer
  | .bytes maxsize, v => by
      cases v with
      | bytes bs =>
          exact (Follows.scalar ho xdrUInt _).andThen ho ((Follows.done false).ite (Follows.octets ho bs))
      | _ => exact Follows.fault .badPointer
  | .string maxsize, v => by
      cases v with
      | null => exact Follows.done false
      | bytes bs =>
          have hbody := (Follows.done false).ite (c := (strlen bs % uintRange + 1) % uintRange = 0)
            (Follows.octets ho (bs.take (strlen bs % uintRange)))
          exact (Follows.scalar ho xdrUInt _).andThen ho ((Follows.done false).ite hbody)
      | _ => exact Follows.fault .badPointer
  | .array maxsize elsize elem, v => by
      cases v with
      | seq vs =>
          have hall : Follows fits R (encodeAll (elem.encode endlessOps env) vs)
              (encodeAll (elem.encode o env) vs) := Follows.all ho fun x _ => elem.follows ho env x
          exact (Follows.scalar ho xdrUInt _).andThen ho ((Follows.done false).ite hall)
      | _ => exact Follows.fault .badPointer
  | .vector nelem elem, v => by
      cases v with
      | seq vs => exact (Follows.all ho fun x _ => elem.follows ho env x).ite (Follows.fault .badPointer)
      | _ => exact Follows.fault .badPointer
  | .union choices, v => by
      cases v with
      | union d x => exact (Follows.scalar ho xdrEnum d).andThen ho (choices.follows ho env d x)
      | _ => exact Follows.fault .badPointer
  | .reference size target, v => by
      cases v with
      | null => exact Follows.aborts env.failfast
      | ref x => exact target.follows ho env x
      | _ => exact Follows.fault .badPointer
  | .pointer size target, v => by
      cases v with
      | null => exact Follows.scalar ho xdrBool 0
      | ref x => exact (Follows.scalar ho xdrBool 1).andThen ho (target.follows ho env x)
      | _ => exact Follows.fault .badPointer
  | .pair a b, v => by
      cases v with
      | pair x y => exact (a.follows ho env x).andThen ho (b.follows ho env y)
      | _ => exact Follows.fault .badPointer

theorem Choices.follows (ho : Takes fits R o) (env : XdrEnv) : (choices : Choices) → (d : Int) → (v : Val) →
    Follows fits R (choices.encode endlessOps env d v) (choices.encode o env d v)
  | .null, _, _ => Follows.done false
  | .dfault proc, _, v => proc.follows ho env v
  | .choice _ proc rest, d, v => (proc.follows ho env v).ite (rest.follows ho env d v)
end

end Encoders

/-! ### The two streams -/

theorem sizeofOps_takes : Takes (fun _ => True) (fun out n => n = out.length % uintRange) sizeofOps where
  fits_of_le _ _ := trivial
  putlong hR _ := by
    refine ⟨_, rfl, ?_⟩
    rw [hR, List.length_append, length_bytesOf, Nat.mod_add_mod]
  putbytes hR _ := by
    refine ⟨_, rfl, ?_⟩
    rw [hR, List.length_append, ← Nat.add_mod]
  putint32 hR _ := by
    refine ⟨_, rfl, ?_⟩
    rw [hR, List.length_append, length_bytesOf, Nat.mod_add_mod]

theorem xdrmemOps_takes (failfast : Bool) {w : View} {n : Nat} (hroom : w.Room n) :
    Takes (fun len => len ≤ n) (fun out v => v = w.write out) (xdrmemOps failfast) := by
  have hput : ∀ {bs out : List Byte} {v : View}, v = w.write out → (out ++ bs).length ≤ n →
      ∃ v', xdrmemPutbytes failfast bs v = .ok (true, v') ∧ v' = w.write (out ++ bs) := by
    intro bs out v hv hle
    have hall : w.Room (out ++ bs).length := ⟨hle.trans hroom.fits, hroom.handy, hroom.bounds⟩
    have hrest : (w.write out).Room bs.length := by
      apply View.Room.write
      rw [← List.length_append]
      exact hall
    refine ⟨(w.write out).write bs, ?_, View.write_append hall⟩
    rw [hv]
    exact Puts.putbytes failfast bs _ hrest
  exact ⟨fun hle hn => Nat.le_trans hle hn, hput, hput, hput⟩

/-- `xdr_sizeof` gives the number of bytes that the same filter writes to a memory stream that has room
for them, or 0 if the filter fails there; and it faults where encoding does. -/
theorem xdrSizeof_agrees (env : XdrEnv) (ty : Ty) (v : Val) :
    (∀ ok out, ty.encoding env v = .ok (ok, out) → out.length < uintRange →
      ∀ (failfast : Bool) (w : View), w.Room out.length →
        ∃ w', ty.encode (xdrmemOps failfast) env v w = .ok (ok, w') ∧ w' = w.write out ∧
          xdrSizeof env ty v = .ok (if ok then w'.pos - w.pos else 0)) ∧
      ∀ e, ty.encoding env v = .error e → xdrSizeof env ty v = .error e := by
  have hsizeof := ty.follows sizeofOps_takes env v
  refine ⟨?_, ?_⟩
  · intro ok out henc hshort failfast w hroom
    have hmem := ty.follows (xdrmemOps_takes failfast hroom) env v
    obtain ⟨n, hn, hlen⟩ := hsizeof.follows (s := 0) rfl henc trivial
    obtain ⟨w', hw', hwrite⟩ := hmem.follows (w.write_nil).symm henc (Nat.le_refl _)
    refine ⟨w', hw', hwrite, ?_⟩
    have hpos : w'.pos - w.pos = out.length := by
      rw [hwrite]
      exact Nat.add_sub_cancel_left _ _
    rw [xdrSizeof, hpos, hn, hlen, Nat.mod_eq_of_lt hshort]
    rfl
  · intro e henc
    rw [xdrSizeof, hsizeof.faults (s := 0) rfl (fun _ => trivial) henc]
    rfl

/-- A name, a `float` and a `double`. -/
def record : Ty := .pair (.string 8) (.pair xdrFloat xdrDouble)

def recordVal : Val := .pair (.bytes [104, 105]) (.pair (.num 1065353216) (.num 4607182418800017408))

theorem xdrSizeof_record :
    ∃ w', record.encode (xdrmemOps true) .ample recordVal ⟨.encode, List.replicate 64 0, 0, 64⟩ =
        .ok (true, w') ∧ xdrSizeof .ample record recordVal = .ok w'.pos := by
  have henc : record.encoding .ample recordVal =
      .ok (true, [0, 0, 0, 2, 104, 105, 0, 0, 63, 128, 0, 0, 63, 240, 0, 0, 0, 0, 0, 0]) := rfl
  have hroom : (⟨.encode, List.replicate 64 0, 0, 64⟩ : View).Room 20 :=
    ⟨by decide, by decide, by unfold View.InBounds; simp⟩
  obtain ⟨w', hw', _, hsize⟩ := (xdrSizeof_agrees .ample record recordVal).1 _ _ henc (by decide) true _ hroom
  exact ⟨w', hw', hsize⟩

end RpcMt
