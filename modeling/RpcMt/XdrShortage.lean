import RpcMt.XdrStreams

/-! Shortage with `xdr_failfast` on, as shipped: a memory stream that runs out calls `xdr_abort`, and so
does a filter that is refused memory. Which bytes run out is read off the type and the bytes alone: an
item reaches its end, or a count above its maximum, or a discriminant that no choice covers; or the
bytes end, or memory does, before. -/

namespace RpcMt

/-- How far an item goes: whether it is accepted, the calls for memory made and the bytes behind it. -/
structure Extent where
  accepted : Bool
  calls : Nat
  rest : List Byte

/-- Step over `n` bytes. -/
def skipBytes (n : Nat) (bs : List Byte) : Option (List Byte) := if bs.length < n then none else some (bs.drop n)

/-- The word at the front. -/
def frontWord (bs : List Byte) : Option (Int × List Byte) := (skipBytes 4 bs).map fun rest => (wordOf (bs.take 4), rest)

def XdrScalar.size : XdrScalar → Nat
  | .word .. => 4
  | .hyper .. => 8

/-- Step over an item, and then go on with what is behind it if it is accepted. -/
def Extent.next (e : Extent) (f : Nat → List Byte → Option Extent) : Option Extent :=
  if e.accepted then f e.calls e.rest else some e

/-- A number of items one after the other. -/
def scanAll (f : Nat → List Byte → Option Extent) : Nat → Nat → List Byte → Option Extent
  | 0, calls, bs => some ⟨true, calls, bs⟩
  | n + 1, calls, bs => do
      let e ← f calls bs
      e.next (scanAll f n)

section Scan

variable (alloc : Nat → Bool)

/-- Go on if memory is not refused. -/
def scanBlock (f : Nat → List Byte → Option Extent) (calls : Nat) (bs : List Byte) : Option Extent :=
  if alloc calls then f (calls + 1) bs else none

def scanOctets (cnt calls : Nat) (bs : List Byte) : Option Extent := do
  let rest ← skipBytes (cnt + rndup cnt) bs
  pure ⟨true, calls, rest⟩

/-- A count, and what it counts. -/
def scanCounted (refused : Nat → Bool) (f : Nat → Nat → List Byte → Option Extent) (calls : Nat)
    (bs : List Byte) : Option Extent := do
  let (l, rest) ← frontWord bs
  let c := (castUint 32 l).toNat
  if refused c then some ⟨false, calls, rest⟩ else f c calls rest

mutual
/-- How far an item of the type goes in these bytes; `none` if the bytes or memory end before. -/
def Ty.scan : Ty → Nat → List Byte → Option Extent
  | .void, calls, bs => some ⟨true, calls, bs⟩
  | .scalar k, calls, bs => (skipBytes k.filter.size bs).map fun rest => ⟨true, calls, rest⟩
  | .opaqueData cnt, calls, bs => scanOctets cnt.toNat calls bs
  | .bytes maxsize, calls, bs =>
      scanCounted (fun c => maxsize.toNat < c) (fun c =>
        if c = 0 then fun calls bs => some ⟨true, calls, bs⟩ else scanBlock alloc (scanOctets c)) calls bs
  | .string maxsize, calls, bs =>
      scanCounted (fun c => maxsize.toNat < c || (c + 1) % uintRange = 0)
        (fun c => scanBlock alloc (scanOctets c)) calls bs
  | .array maxsize elsize elem, calls, bs =>
      scanCounted (fun c => maxsize.toNat < c || uintMax / elsize.val.toNat < c) (fun c =>
        if c = 0 then fun calls bs => some ⟨true, calls, bs⟩
        else scanBlock alloc (scanAll elem.scan c)) calls bs
  | .vector nelem elem, calls, bs => scanAll elem.scan nelem.toNat calls bs
  | .union choices, calls, bs => do
      let (l, rest) ← frontWord bs
      choices.scan (castInt 32 l) calls rest
  | .reference _ target, calls, bs => scanBlock alloc target.scan calls bs
  | .pointer _ target, calls, bs => do
      let (l, rest) ← frontWord bs
      if l = 0 then some ⟨true, calls, rest⟩ else scanBlock alloc target.scan calls rest
  | .pair a b, calls, bs => do
      let e ← a.scan calls bs
      e.next b.scan

def Choices.scan : Choices → Int → Nat → List Byte → Option Extent
  | .null, _, calls, bs => some ⟨false, calls, bs⟩
  | .dfault proc, _, calls, bs => proc.scan calls bs
  | .choice value proc rest, d, calls, bs => if value = d then proc.scan calls bs else rest.scan d calls bs
end

end Scan

/-! ### Decoding goes as far as the scan does -/

/-- An abort where there is nothing, and related values elsewhere. -/
inductive AbortsAt {α β : Type} (Q : α → β → Prop) : Res α → Option β → Prop where
  | ok {a : α} {b : β} (h : Q a b) : AbortsAt Q (.ok a) (some b)
  | aborted : AbortsAt Q (.error .xdrAbort) none

namespace AbortsAt

variable {α β γ δ : Type} {Q : α → β → Prop} {Q' : γ → δ → Prop} {x : Res α} {y : Option β}

theorem bind (h : AbortsAt Q x y) {f : α → Res γ} {g : β → Option δ}
    (hf : ∀ a b, Q a b → AbortsAt Q' (f a) (g b)) : AbortsAt Q' (x >>= f) (y >>= g) := by
  cases h with
  | ok hq => exact hf _ _ hq
  | aborted => exact .aborted

theorem map (h : AbortsAt Q x y) {f : α → Res γ} {g : β → δ}
    (hf : ∀ a b, Q a b → AbortsAt Q' (f a) (some (g b))) : AbortsAt Q' (x >>= f) (y.map g) := by
  cases h with
  | ok hq => exact hf _ _ hq
  | aborted => exact .aborted

/-- Something more is done that never aborts. -/
theorem finish {Q' : γ → β → Prop} (h : AbortsAt Q x y) {f : α → Res γ}
    (hf : ∀ a b, Q a b → AbortsAt Q' (f a) (some b)) : AbortsAt Q' (x >>= f) y := by
  cases h with
  | ok hq => exact hf _ _ hq
  | aborted => exact .aborted

theorem eq_aborted (h : AbortsAt Q x none) : x = .error .xdrAbort := by
  cases h
  rfl

theorem isOk_iff (h : AbortsAt Q x y) : (∃ a, x = .ok a) ↔ y.isSome = true := by
  cases h with
  | ok hq => exact ⟨fun _ => rfl, fun _ => ⟨_, rfl⟩⟩
  | aborted =>
      constructor
      · rintro ⟨_, h⟩
        cases h
      · intro h
        cases h

end AbortsAt

/-- A decode that has come to these bytes, with so many calls for memory. -/
def CameTo (d : Decoding (List Byte)) (calls : Nat) (rest : List Byte) : Prop :=
  d.calls = calls ∧ d.stream = rest

/-- A filter that has returned the status and come to the end that the scan gives. -/
def Reaches {α : Type} (r : Bool × α × Decoding (List Byte)) (e : Extent) : Prop :=
  r.1 = e.accepted ∧ CameTo r.2.2 e.calls e.rest

theorem takeBytes_aborts (n : Nat) (bs : List Byte) :
    AbortsAt (fun r rest => r = (some (bs.take n), rest)) (takeBytes true n bs) (skipBytes n bs) := by
  unfold takeBytes skipBytes
  split
  · exact .aborted
  · exact .ok rfl

theorem getWord_aborts (int32 : Bool) (bs : List Byte) :
    AbortsAt (fun r rest => r = (some (wordOf (bs.take 4)), rest)) ((listOps true).getWord int32 bs)
      (skipBytes 4 bs) := by
  have hword : AbortsAt (fun r rest => r = (some (wordOf (bs.take 4)), rest)) (takeWord true bs)
      (skipBytes 4 bs) := by
    unfold takeWord takeBytes skipBytes
    split
    · exact .aborted
    · exact .ok rfl
  cases int32 with
  | false => exact hword
  | true => exact hword

theorem skipBytes_skipBytes (m n : Nat) (bs : List Byte) :
    (skipBytes m bs >>= skipBytes n) = skipBytes (m + n) bs := by
  unfold skipBytes
  by_cases hm : bs.length < m
  · rw [if_pos hm, if_pos (by omega)]
    rfl
  · rw [if_neg hm]
    show (if (bs.drop m).length < n then none else some ((bs.drop m).drop n)) = _
    rw [List.length_drop, List.drop_drop]
    by_cases hn : bs.length < m + n
    · rw [if_pos hn, if_pos (by omega)]
    · rw [if_neg hn, if_neg (by omega)]

section Decode

variable (d : Decoding (List Byte))

theorem word_aborts (int32 : Bool) (put : Int → Option Int) (get : Int → Int) :
    AbortsAt (fun r lr => r = (some (get lr.1), { d with stream := lr.2 }))
      (d.scalar (listOps true) (.word int32 put get)) (frontWord d.stream) := by
  have hword : AbortsAt (fun r lr => r = (some (get lr.1), lr.2))
      (XdrScalar.decode (listOps true) (.word int32 put get) d.stream) (frontWord d.stream) := by
    refine (getWord_aborts int32 d.stream).map ?_
    rintro _ rest rfl
    exact .ok rfl
  unfold Decoding.scalar
  refine hword.finish ?_
  rintro _ lr rfl
  exact .ok rfl

theorem scalar_aborts (k : XdrScalar) :
    AbortsAt (fun r rest => ∃ n, r = (some n, { d with stream := rest })) (d.scalar (listOps true) k)
      (skipBytes k.size d.stream) := by
  have hscalar : AbortsAt (fun (r : Option Int × List Byte) rest => ∃ n, r = (some n, rest))
      (k.decode (listOps true) d.stream) (skipBytes k.size d.stream) := by
    cases k with
    | word int32 put get =>
        refine (getWord_aborts int32 d.stream).finish ?_
        rintro _ rest rfl
        exact .ok ⟨_, rfl⟩
    | hyper int32 put get =>
        show AbortsAt _ _ (skipBytes (4 + 4) d.stream)
        rw [← skipBytes_skipBytes]
        refine (getWord_aborts int32 d.stream).bind ?_
        rintro _ rest rfl
        refine (getWord_aborts int32 rest).finish ?_
        rintro _ rest' rfl
        exact .ok ⟨_, rfl⟩
  unfold Decoding.scalar
  refine hscalar.finish ?_
  rintro _ rest ⟨n, rfl⟩
  exact .ok ⟨n, rfl⟩

theorem octets_aborts (cnt : Nat) :
    AbortsAt (fun r e => (∃ bs, r.2.1 = some bs) ∧ Reaches r e) (d.octets (listOps true) cnt)
      (scanOctets cnt d.calls d.stream) := by
  have hopaque : AbortsAt (fun r rest => ∃ bs, r = (true, some bs, rest))
      (xdrOpaqueDecode (listOps true) cnt d.stream) (skipBytes (cnt + rndup cnt) d.stream) := by
    unfold xdrOpaqueDecode
    by_cases hcnt : cnt = 0
    · subst hcnt
      rw [if_pos rfl]
      exact .ok ⟨_, rfl⟩
    · rw [if_neg hcnt, ← skipBytes_skipBytes]
      refine (takeBytes_aborts cnt d.stream).bind ?_
      rintro _ rest rfl
      dsimp only
      by_cases hr : rndup cnt = 0
      · rw [if_pos hr, hr]
        exact .ok ⟨_, rfl⟩
      · rw [if_neg hr]
        refine (takeBytes_aborts (rndup cnt) rest).finish ?_
        rintro _ rest' rfl
        exact .ok ⟨_, rfl⟩
  unfold Decoding.octets scanOctets
  refine hopaque.bind ?_
  rintro _ rest ⟨bs, rfl⟩
  exact .ok ⟨⟨bs, rfl⟩, rfl, rfl, rfl⟩

end Decode

/-- A filter that goes as far as the scan does, from wherever it starts. -/
def Scans {α : Type} (f : Decoding (List Byte) → Res (Bool × α × Decoding (List Byte)))
    (g : Nat → List Byte → Option Extent) : Prop :=
  ∀ d, AbortsAt Reaches (f d) (g d.calls d.stream)

section Filters

variable {env : XdrEnv} (hff : env.failfast = true)

include hff

theorem Scans.withBlock (size : Nat) (o : Obj) {f : Block → Decoding (List Byte) → Res (Decoded (List Byte))}
    {g : Nat → List Byte → Option Extent} (hf : ∀ b, Scans (f b) g) :
    Scans (Decoding.withBlock env size o f) (scanBlock env.alloc g) := by
  intro d
  unfold Decoding.withBlock Decoding.alloc scanBlock
  by_cases halloc : env.alloc d.calls = true
  · rw [if_pos halloc, if_pos halloc]
    exact hf _ _
  · rw [if_neg halloc, if_neg halloc]
    show AbortsAt _ (xdrAbort env.failfast _) _
    rw [hff]
    exact .aborted

omit hff in
/-- A filter that starts with a count, which it refuses or goes on with. -/
theorem counted_scans (refused : Nat → Bool) (g : Nat → Nat → List Byte → Option Extent)
    {k : Option Int × Decoding (List Byte) → Res (Decoded (List Byte))}
    (hrefused : ∀ c d, refused c.toNat = true → ∃ o, k (some c, d) = .ok (false, o, d))
    (hcounted : ∀ c d, refused c.toNat = false → AbortsAt Reaches (k (some c, d)) (g c.toNat d.calls d.stream)) :
    Scans (fun d => d.scalar (listOps true) xdrUInt >>= k) (scanCounted refused g) := by
  intro d
  unfold scanCounted
  refine (word_aborts d _ _ _).bind ?_
  rintro _ ⟨l, rest⟩ rfl
  dsimp only
  by_cases href : refused (castUint 32 l).toNat = true
  · obtain ⟨o, ho⟩ := hrefused (castUint 32 l) { d with stream := rest } href
    rw [if_pos href, ho]
    exact .ok ⟨rfl, rfl, rfl⟩
  · rw [if_neg href]
    exact hcounted _ _ (Bool.eq_false_iff.mpr href)

theorem xdrBytesDecode_scans (maxsize : UInt32) :
    Scans (xdrBytesDecode (listOps true) env maxsize.toNat) (Ty.scan env.alloc (.bytes maxsize)) := by
  refine counted_scans _ _ (fun c d href => ?_) fun c d href => ?_
  · exact ⟨_, if_pos (of_decide_eq_true href)⟩
  · dsimp only
    rw [if_neg (of_decide_eq_false href)]
    by_cases hzero : c.toNat = 0
    · rw [if_pos hzero, if_pos hzero]
      exact .ok ⟨rfl, rfl, rfl⟩
    · rw [if_neg hzero, if_neg hzero]
      refine Scans.withBlock hff _ _ (fun b d => ?_) d
      refine (octets_aborts d _).finish ?_
      rintro ⟨ok, bs, d'⟩ e ⟨_, hreach⟩
      exact .ok hreach

theorem xdrStringDecode_scans (maxsize : UInt32) :
    Scans (xdrStringDecode (listOps true) env maxsize.toNat) (Ty.scan env.alloc (.string maxsize)) := by
  refine counted_scans _ _ (fun c d href => ?_) fun c d href => ?_
  · dsimp only
    by_cases hmax : maxsize.toNat < c.toNat
    · exact ⟨_, if_pos hmax⟩
    · rw [Bool.or_eq_true, decide_eq_true_eq, decide_eq_true_eq] at href
      rw [if_neg hmax]
      exact ⟨_, if_pos (href.resolve_left hmax)⟩
  · dsimp only
    obtain ⟨hmax, hwrap⟩ := Bool.or_eq_false_iff.mp href
    rw [if_neg (of_decide_eq_false hmax), if_neg (of_decide_eq_false hwrap)]
    refine Scans.withBlock hff _ _ (fun b d => ?_) d
    refine (octets_aborts d _).finish ?_
    rintro ⟨ok, bs, d'⟩ e ⟨_, hreach⟩
    exact .ok hreach

omit hff in
theorem decodeAll_scans {f : Decoding (List Byte) → Res (Decoded (List Byte))}
    {g : Nat → List Byte → Option Extent} (hf : Scans f g) (n : Nat) :
    Scans (decodeAll f n) (scanAll g n) := by
  induction n with
  | zero => exact fun d => .ok ⟨rfl, rfl, rfl⟩
  | succ n ih =>
      intro d
      unfold decodeAll scanAll
      refine (hf d).bind ?_
      rintro ⟨ok, o, d'⟩ ⟨_, _, _⟩ ⟨rfl, rfl, rfl⟩
      cases ok with
      | false => exact .ok ⟨rfl, rfl, rfl⟩
      | true =>
          refine (ih d').finish ?_
          rintro ⟨ok, os, d⟩ e hreach
          exact .ok hreach

theorem xdrArrayDecode_scans (maxsize : UInt32) (elsize : ElSize) {elem : Ty}
    {f : Decoding (List Byte) → Res (Decoded (List Byte))} (hf : Scans f (elem.scan env.alloc)) :
    Scans (xdrArrayDecode (listOps true) env maxsize.toNat elsize f)
      (Ty.scan env.alloc (.array maxsize elsize elem)) := by
  refine counted_scans _ _ (fun c d href => ?_) fun c d href => ?_
  · rw [Bool.or_eq_true, decide_eq_true_eq, decide_eq_true_eq] at href
    exact ⟨_, if_pos href⟩
  · obtain ⟨hmax, hsize⟩ := Bool.or_eq_false_iff.mp href
    dsimp only
    rw [if_neg (not_or.mpr ⟨of_decide_eq_false hmax, of_decide_eq_false hsize⟩)]
    by_cases hzero : c.toNat = 0
    · rw [if_pos hzero, if_pos hzero]
      exact .ok ⟨rfl, rfl, rfl⟩
    · rw [if_neg hzero, if_neg hzero]
      refine Scans.withBlock hff _ _ (fun b d => ?_) d
      refine (decodeAll_scans hf _ d).finish ?_
      rintro ⟨ok, os, d'⟩ e hreach
      exact .ok hreach

theorem xdrReferenceDecode_scans (size : Nat) {f : Decoding (List Byte) → Res (Decoded (List Byte))}
    {g : Nat → List Byte → Option Extent} (hf : Scans f g) :
    Scans (xdrReferenceDecode env size f) (scanBlock env.alloc g) := by
  refine Scans.withBlock hff _ _ fun b d => ?_
  refine (hf d).finish ?_
  rintro ⟨ok, o, d'⟩ e hreach
  exact .ok hreach

end Filters

mutual
/-- With `xdr_failfast` on, a decode ends where the scan does. -/
theorem Ty.scans {env : XdrEnv} (hff : env.failfast = true) : (ty : Ty) → Scans (ty.decode (listOps true) env) (ty.scan env.alloc)
  | .void => fun d => .ok ⟨rfl, rfl, rfl⟩
  | .scalar k => by
      intro d
      unfold Ty.decode Ty.scan
      refine (scalar_aborts d k.filter).map ?_
      rintro _ rest ⟨n, rfl⟩
      exact .ok ⟨rfl, rfl, rfl⟩
  | .opaqueData cnt => by
      intro d
      unfold Ty.decode Ty.scan
      refine (octets_aborts d _).finish ?_
      rintro ⟨ok, _, d'⟩ e ⟨⟨bs, rfl⟩, hreach⟩
      exact .ok hreach
  | .bytes maxsize => xdrBytesDecode_scans hff maxsize
  | .string maxsize => xdrStringDecode_scans hff maxsize
  | .array maxsize elsize elem => xdrArrayDecode_scans hff maxsize elsize (elem.scans hff)
  | .vector nelem elem => by
      intro d
      unfold Ty.decode Ty.scan
      refine (decodeAll_scans (elem.scans hff) _ d).finish ?_
      rintro ⟨ok, os, d'⟩ e hreach
      exact .ok hreach
  | .union choices => by
      intro d
      unfold Ty.decode Ty.scan
      refine (word_aborts d _ _ _).bind ?_
      rintro _ ⟨l, rest⟩ rfl
      refine (choices.scans hff (castInt 32 l) _).finish ?_
      rintro ⟨ok, o, d'⟩ e hreach
      exact .ok hreach
  | .reference size target => xdrReferenceDecode_scans hff size.toNat (target.scans hff)
  | .pointer size target => by
      intro d
      unfold Ty.decode Ty.scan
      refine (word_aborts d _ _ _).bind ?_
      rintro _ ⟨l, rest⟩ rfl
      dsimp only
      by_cases hl : l = 0
      · rw [if_pos hl, if_pos hl]
        exact .ok ⟨rfl, rfl, rfl⟩
      · rw [if_neg hl, if_neg hl]
        exact xdrReferenceDecode_scans hff size.toNat (target.scans hff) _
  | .pair a b => by
      intro d
      unfold Ty.decode Ty.scan
      refine (a.scans hff d).bind ?_
      rintro ⟨ok, o, d'⟩ ⟨_, _, _⟩ ⟨rfl, rfl, rfl⟩
      cases ok with
      | false => exact .ok ⟨rfl, rfl, rfl⟩
      | true =>
          refine (b.scans hff d').finish ?_
          rintro ⟨ok, o', d⟩ e hreach
          exact .ok hreach

theorem Choices.scans {env : XdrEnv} (hff : env.failfast = true) : (choices : Choices) → (dscm : Int) →
    Scans (choices.decode (listOps true) env dscm) (choices.scan env.alloc dscm)
  | .null, _ => fun d => .ok ⟨rfl, rfl, rfl⟩
  | .dfault proc, _ => proc.scans hff
  | .choice value proc rest, dscm => by
      intro d
      unfold Choices.decode Choices.scan
      split
      · exact proc.scans hff d
      · exact rest.scans hff dscm d
end

section

variable {env : XdrEnv} (hff : env.failfast = true) (ty : Ty) {v : View} (hv : v.InBounds) (calls : Nat)
  (blocks : List Block)

include hff hv

/-- With `xdr_failfast` on, decoding a memory stream returns, with TRUE or FALSE, exactly if its bytes go
as far as the item does, and memory too. -/
theorem decode_returns_iff :
    (∃ ok o d, ty.decode (xdrmemOps true) env ⟨v, calls, blocks⟩ = .ok (ok, o, d)) ↔
      (ty.scan env.alloc calls v.rest).isSome = true := by
  have halike := (decode_xdrmem hv env true ty calls blocks).isOk_iff
  have hscan := (ty.scans hff ⟨v.rest, calls, blocks⟩).isOk_iff
  constructor
  · rintro ⟨ok, o, d, hdec⟩
    exact hscan.mp (halike.mp ⟨_, hdec⟩)
  · intro h
    obtain ⟨⟨ok, o, d⟩, hdec⟩ := halike.mpr (hscan.mpr h)
    exact ⟨ok, o, d, hdec⟩

theorem decode_aborts_of_scan (h : ty.scan env.alloc calls v.rest = none) :
    ty.decode (xdrmemOps true) env ⟨v, calls, blocks⟩ = .error .xdrAbort := by
  have hlist : ty.decode (listOps true) env ⟨v.rest, calls, blocks⟩ = .error .xdrAbort := by
    have hscans := ty.scans hff ⟨v.rest, calls, blocks⟩
    rw [h] at hscans
    exact hscans.eq_aborted
  have halike := decode_xdrmem hv env true ty calls blocks
  rw [hlist] at halike
  exact halike.of_error

end

/-- Three bytes behind a header of 40 bytes, in a buffer that ends with them. -/
theorem decode_returns_bytes : ∃ ok o d,
    (Ty.bytes 16).decode (xdrmemOps true) ⟨true, fun _ => true, fun _ _ => 0⟩
      ⟨⟨.decode, List.replicate 40 0 ++ [0, 0, 0, 3, 1, 2, 3, 0], 40, 8⟩, 0, []⟩ = .ok (ok, o, d) := by
  have hin : View.InBounds ⟨.decode, List.replicate 40 0 ++ [0, 0, 0, 3, 1, 2, 3, 0], 40, 8⟩ := by
    unfold View.InBounds
    decide
  refine (@decode_returns_iff ⟨true, fun _ => true, fun _ _ => 0⟩ rfl (.bytes 16) _ hin 0 []).mpr ?_
  decide +kernel

/-- A count of `2 ^ 32 - 4` bytes with nothing behind it terminates the server, with memory for them all
and a filter that sets no bound of its own. -/
theorem decode_aborts_on_count : ∃ (ty : Ty) (v : View), v.InBounds ∧
    ty.decode (xdrmemOps true) ⟨true, fun _ => true, fun _ _ => 0⟩ ⟨v, 0, []⟩ = .error .xdrAbort := by
  have hin : View.InBounds ⟨.decode, List.replicate 40 0 ++ [255, 255, 255, 252], 40, 4⟩ := by
    unfold View.InBounds
    decide
  refine ⟨.bytes 4294967295, _, hin, decode_aborts_of_scan rfl _ hin 0 [] ?_⟩
  exact Option.isNone_iff_eq_none.mp (by decide +kernel)

end RpcMt
