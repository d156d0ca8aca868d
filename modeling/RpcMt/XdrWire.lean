import Mathlib.Data.List.TakeWhile
import RpcMt.XdrStreams

/-! The external form of a value, and that encoding writes it. Both modes of a filter meet in the bytes
on the wire; a memory stream with room for them gets exactly these bytes. -/

namespace RpcMt

/-! ### Words and scalars -/

theorem wordOf_bytesOf (l : Int) : wordOf (bytesOf l) = castInt 32 l := by
  have hlt : (castUint 32 l).toNat < 2 ^ 32 := by
    unfold castUint
    omega
  rw [wordOf, bytesOf, ntohl_htonl hlt]
  simp only [castInt, castUint]
  omega

/-- The filter makes of the words it has put the number it put them for. -/
def XdrScalar.Recovers : XdrScalar → Int → Prop
  | .word _ put get, n => ∃ l, put n = some l ∧ get (castInt 32 l) = n
  | .hyper _ put get, n => get (castInt 32 (put n).1) (castInt 32 (put n).2) = n

theorem castInt_word {w : Nat} (hw : w = 8 ∨ w = 16 ∨ w = 32) {n : Int} (h : Scalar.Signed w n) :
    castInt w (castInt 32 n) = n := by
  obtain ⟨hlo, hhi⟩ := h
  rcases hw with rfl | rfl | rfl <;> simp only [castInt] <;> omega

theorem castUint_word {w : Nat} (hw : w = 8 ∨ w = 16 ∨ w = 32) {n : Int} (h : Scalar.Unsigned w n) :
    castUint w (castInt 32 n) = n := by
  obtain ⟨hlo, hhi⟩ := h
  rcases hw with rfl | rfl | rfl <;> simp only [castInt, castUint] <;> omega

theorem joinWords_signed {n : Int} (h : Scalar.Signed 64 n) :
    joinWords (castInt 64) (castInt 32 (splitWords n).1) (castInt 32 (splitWords n).2) = n := by
  obtain ⟨hlo, hhi⟩ := h
  simp only [joinWords, splitWords, castInt, castUint]
  omega

theorem joinWords_unsigned {n : Int} (h : Scalar.Unsigned 64 n) :
    joinWords (castUint 64) (castInt 32 (splitWords n).1) (castInt 32 (splitWords n).2) = n := by
  obtain ⟨hlo, hhi⟩ := h
  simp only [joinWords, splitWords, castInt, castUint]
  omega

theorem Scalar.recovers (k : Scalar) {n : Int} (h : k.InRange n) : k.filter.Recovers n := by
  cases k with
  | int => exact ⟨n, rfl, castInt_word (by simp) h⟩
  | uInt => exact ⟨n, rfl, castUint_word (by simp) h⟩
  | long =>
      have hfix : castInt 32 n = n := by
        obtain ⟨hlo, hhi⟩ := h
        simp only [castInt]
        omega
      exact ⟨n, if_pos hfix, hfix⟩
  | uLong =>
      have hfix : castUint 32 n = n := by
        obtain ⟨hlo, hhi⟩ := h
        simp only [castUint]
        omega
      exact ⟨n, if_pos hfix, castUint_word (by simp) h⟩
  | hyper => exact joinWords_signed h
  | uHyper => exact joinWords_unsigned h
  | short => exact ⟨n, rfl, castInt_word (by simp) h⟩
  | uShort => exact ⟨n, rfl, castUint_word (by simp) h⟩
  | char =>
      obtain ⟨hlo, hhi⟩ := h
      refine ⟨n, rfl, ?_⟩
      simp only [castInt]
      omega
  | uChar =>
      obtain ⟨hlo, hhi⟩ := h
      refine ⟨n, rfl, ?_⟩
      simp only [castInt, castUint]
      omega
  | bool =>
      rcases h with rfl | rfl
      · exact ⟨0, rfl, rfl⟩
      · exact ⟨1, rfl, rfl⟩
  | enum => exact ⟨n, rfl, castInt_word (by simp) h⟩
  | int8T => exact ⟨n, rfl, castInt_word (by simp) h⟩
  | uint8T => exact ⟨n, rfl, castUint_word (by simp) h⟩
  | int16T => exact ⟨n, rfl, castInt_word (by simp) h⟩
  | uint16T => exact ⟨n, rfl, castUint_word (by simp) h⟩
  | int32T => exact ⟨n, rfl, castInt_word (by simp) h⟩
  | uint32T => exact ⟨n, rfl, castUint_word (by simp) h⟩
  | int64T => exact joinWords_signed h
  | uint64T => exact joinWords_unsigned h

/-! ### The wire -/

def XdrScalar.wire : XdrScalar → Int → List Byte
  | .word _ put _, n => ((put n).map bytesOf).getD []
  | .hyper _ put _, n => bytesOf (put n).1 ++ bytesOf (put n).2

/-- Bytes with the zeros that fill their last unit. -/
def padded (bs : List Byte) : List Byte := bs ++ List.replicate (rndup bs.length) 0

mutual
/-- The external form of a value. -/
def Ty.wire : Ty → Val → List Byte
  | .scalar k, .num n => k.filter.wire n
  | .opaqueData _, .bytes bs => padded bs
  | .bytes _, .bytes bs => bytesOf bs.length ++ padded bs
  | .string _, .bytes bs => bytesOf bs.length ++ padded bs
  | .array _ _ elem, .seq vs => bytesOf vs.length ++ vs.flatMap elem.wire
  | .vector _ elem, .seq vs => vs.flatMap elem.wire
  | .union choices, .union d x => bytesOf d ++ choices.wire d x
  | .reference _ target, .ref x => target.wire x
  | .pointer _ _, .null => bytesOf 0
  | .pointer _ target, .ref x => bytesOf 1 ++ target.wire x
  | .pair a b, .pair x y => a.wire x ++ b.wire y
  | _, _ => []

def Choices.wire : Choices → Int → Val → List Byte
  | .null, _, _ => []
  | .dfault proc, _, v => proc.wire v
  | .choice value proc rest, d, v => if value = d then proc.wire v else rest.wire d v
end

theorem dvd_length_append {as bs : List Byte} (ha : 4 ∣ as.length) (hb : 4 ∣ bs.length) :
    4 ∣ (as ++ bs).length := by
  rw [List.length_append]
  exact Nat.dvd_add ha hb

theorem length_padded (bs : List Byte) : 4 ∣ (padded bs).length := by
  simp only [padded, List.length_append, List.length_replicate, rndup]
  split <;> omega

theorem XdrScalar.dvd_wire {k : XdrScalar} {n : Int} (h : k.Recovers n) : 4 ∣ (k.wire n).length := by
  cases k with
  | word int32 put get =>
      obtain ⟨l, hl, _⟩ := h
      rw [XdrScalar.wire, hl]
      exact ⟨1, rfl⟩
  | hyper int32 put get => exact ⟨2, rfl⟩

theorem dvd_flatMap {f : Val → List Byte} {vs : List Val} (h : ∀ v ∈ vs, 4 ∣ (f v).length) :
    4 ∣ (vs.flatMap f).length := by
  induction vs with
  | nil => exact ⟨0, rfl⟩
  | cons v vs ih =>
      rw [List.flatMap_cons]
      exact dvd_length_append (h v (by simp)) (ih fun x hx => h x (by simp [hx]))

theorem length_le_flatMap (f : Val → List Byte) {vs : List Val} {v : Val} (h : v ∈ vs) :
    (f v).length ≤ (vs.flatMap f).length := by
  rw [List.flatMap_def]
  exact (List.sublist_flatten_of_mem (List.mem_map_of_mem h)).length_le

mutual
/-- The wire form of every value is a number of full units. -/
theorem Ty.dvd_wire : (ty : Ty) → {v : Val} → ty.HasType v → 4 ∣ (ty.wire v).length
  | .void, v, h => by
      rw [h]
      exact ⟨0, rfl⟩
  | .scalar k, v, h => by
      obtain ⟨n, rfl, hn⟩ := h
      exact XdrScalar.dvd_wire (k.recovers hn)
  | .opaqueData cnt, v, h => by
      obtain ⟨bs, rfl, _⟩ := h
      exact length_padded bs
  | .bytes maxsize, v, h => by
      obtain ⟨bs, rfl, _⟩ := h
      exact dvd_length_append ⟨1, rfl⟩ (length_padded bs)
  | .string maxsize, v, h => by
      obtain ⟨bs, rfl, _⟩ := h
      exact dvd_length_append ⟨1, rfl⟩ (length_padded bs)
  | .array maxsize elsize elem, v, h => by
      obtain ⟨vs, rfl, _, hvs⟩ := h
      exact dvd_length_append ⟨1, rfl⟩ (dvd_flatMap fun x hx => elem.dvd_wire (hvs x hx))
  | .vector nelem elem, v, h => by
      obtain ⟨vs, rfl, _, hvs⟩ := h
      exact dvd_flatMap fun x hx => elem.dvd_wire (hvs x hx)
  | .union choices, v, h => by
      obtain ⟨d, x, rfl, _, hx⟩ := h
      exact dvd_length_append ⟨1, rfl⟩ (choices.dvd_wire d hx)
  | .reference size target, v, h => by
      obtain ⟨x, rfl, hx⟩ := h
      exact target.dvd_wire hx
  | .pointer size target, v, h => by
      rcases h with rfl | ⟨x, rfl, hx⟩
      · exact ⟨1, rfl⟩
      · exact dvd_length_append ⟨1, rfl⟩ (target.dvd_wire hx)
  | .pair a b, v, h => by
      obtain ⟨x, y, rfl, hx, hy⟩ := h
      exact dvd_length_append (a.dvd_wire hx) (b.dvd_wire hy)

theorem Choices.dvd_wire : (choices : Choices) → (d : Int) → {v : Val} → choices.HasType d v →
    4 ∣ (choices.wire d v).length
  | .null, d, v, h => h.elim
  | .dfault proc, d, v, h => proc.dvd_wire h
  | .choice value proc rest, d, v, h => by
      unfold Choices.HasType at h
      unfold Choices.wire
      split at h
      · rename_i hd
        rw [if_pos hd]
        exact proc.dvd_wire h
      · rename_i hd
        rw [if_neg hd]
        exact rest.dvd_wire d h
end

/-! ### Encoding writes the wire -/

/-- The stream after these bytes have been put. -/
def View.write (v : View) (bs : List Byte) : View :=
  { v with
    bytes := v.bytes.take v.pos ++ bs ++ v.bytes.drop (v.pos + bs.length)
    pos := v.pos + bs.length
    handy := v.handy - bs.length }

/-- A stream with room for `n` bytes, in its buffer and in its `u_int` count. -/
structure View.Room (v : View) (n : Nat) : Prop where
  fits : n ≤ v.handy
  handy : v.handy < uintRange
  bounds : v.InBounds

theorem View.write_nil (v : View) : v.write [] = v := by
  simp [View.write]

theorem View.length_write {v : View} {bs : List Byte} (h : v.Room bs.length) :
    (v.write bs).bytes.length = v.bytes.length := by
  have hfits := h.fits
  have hbounds := h.bounds
  unfold View.InBounds at hbounds
  simp only [View.write, List.length_append, List.length_take, List.length_drop]
  omega

theorem View.Room.write {v : View} {bs : List Byte} {n : Nat} (h : v.Room (bs.length + n)) :
    (v.write bs).Room n := by
  have hfits := h.fits
  have hhandy := h.handy
  have hbounds := h.bounds
  have hlen : (v.write bs).bytes.length = v.bytes.length :=
    View.length_write ⟨by omega, hhandy, hbounds⟩
  unfold View.InBounds at hbounds
  refine ⟨?_, ?_, ?_⟩
  · show n ≤ v.handy - bs.length
    omega
  · show v.handy - bs.length < uintRange
    omega
  · show v.pos + bs.length + (v.handy - bs.length) ≤ (v.write bs).bytes.length
    omega

theorem View.write_append {v : View} {as bs : List Byte} (h : v.Room (as ++ bs).length) :
    (v.write as).write bs = v.write (as ++ bs) := by
  have hfits := h.fits
  have hbounds := h.bounds
  unfold View.InBounds at hbounds
  rw [List.length_append] at hfits
  have htake : (v.bytes.take v.pos ++ as).length = v.pos + as.length := by
    rw [List.length_append, List.length_take]
    omega
  have hbytes : (v.write as).bytes.take (v.pos + as.length) = v.bytes.take v.pos ++ as := by
    rw [← htake]
    exact List.take_left
  have hdrop : (v.write as).bytes.drop (v.pos + as.length + bs.length) =
      v.bytes.drop (v.pos + (as ++ bs).length) := by
    rw [← List.drop_drop, ← htake]
    show ((v.bytes.take v.pos ++ as ++ v.bytes.drop (v.pos + as.length)).drop _).drop _ = _
    rw [List.drop_left, List.drop_drop, List.length_append, Nat.add_assoc]
  have hpos : v.pos + as.length + bs.length = v.pos + (as ++ bs).length := by
    rw [List.length_append, Nat.add_assoc]
  have hhandy : v.handy - as.length - bs.length = v.handy - (as ++ bs).length := by
    rw [List.length_append, Nat.sub_sub]
  calc (v.write as).write bs
    _ = { v with
          bytes := (v.write as).bytes.take (v.pos + as.length) ++ bs ++
            (v.write as).bytes.drop (v.pos + as.length + bs.length)
          pos := v.pos + as.length + bs.length
          handy := v.handy - as.length - bs.length } := rfl
    _ = v.write (as ++ bs) := by rw [hbytes, hdrop, hpos, hhandy, View.write, List.append_assoc _ as bs]

/-- An encoder that puts these bytes and returns TRUE, wherever there is room for them. -/
def Puts (f : View → Res (Bool × View)) (bs : List Byte) : Prop :=
  ∀ v : View, v.Room bs.length → f v = .ok (true, v.write bs)

namespace Puts

variable {f g : View → Res (Bool × View)} {as bs : List Byte}

theorem nil : Puts (fun v => .ok (true, v)) [] := by
  intro v _
  rw [View.write_nil]

theorem append (hf : Puts f as) (hg : Puts g bs) : Puts (fun v => andThen (f v) g) (as ++ bs) := by
  intro v hroom
  have hroom' : v.Room (as.length + bs.length) := by
    rw [← List.length_append]
    exact hroom
  have hfst : v.Room as.length := ⟨by have := hroom'.fits; omega, hroom.handy, hroom.bounds⟩
  show andThen (f v) g = _
  rw [hf v hfst, andThen]
  show g (v.write as) = _
  rw [hg _ hroom'.write, View.write_append hroom]

variable (failfast : Bool)

theorem putbytes (bs : List Byte) : Puts (xdrmemPutbytes failfast bs) bs := by
  intro v hroom
  have hfits := hroom.fits
  have hbounds := hroom.bounds
  unfold View.InBounds at hbounds
  rw [xdrmemPutbytes, if_neg (by omega), if_neg (by omega)]
  rfl

theorem putWord (int32 : Bool) (l : Int) : Puts ((xdrmemOps failfast).putWord int32 l) (bytesOf l) := by
  cases int32 with
  | false => exact putbytes failfast (bytesOf l)
  | true => exact putbytes failfast (bytesOf l)

theorem octets (bs : List Byte) : Puts (xdrOpaqueEncode (xdrmemOps failfast) bs) (padded bs) := by
  intro v hroom
  unfold xdrOpaqueEncode
  split
  · rename_i hzero
    rw [List.eq_nil_of_length_eq_zero hzero]
    exact nil v ⟨Nat.zero_le _, hroom.handy, hroom.bounds⟩
  · have hpad : Puts (fun v => if rndup bs.length = 0 then .ok (true, v)
        else xdrmemPutbytes failfast (List.replicate (rndup bs.length) 0) v)
        (List.replicate (rndup bs.length) 0) := by
      by_cases hzero : rndup bs.length = 0
      · rw [hzero]
        exact nil
      · simp only [if_neg hzero]
        exact putbytes failfast _
    exact ((putbytes failfast bs).append hpad) v hroom

/-- A count goes out as it is, whatever its type, as long as it is a `u_int`. -/
theorem count {n : Nat} : Puts (xdrUInt.encode (xdrmemOps failfast) n) (bytesOf n) :=
  putWord failfast false n

end Puts

theorem strlen_eq {bs : List Byte} (h : 0 ∉ bs) : strlen bs = bs.length := by
  rw [strlen, List.takeWhile_eq_self_iff.mpr]
  intro b hb
  rw [decide_eq_true_iff]
  rintro rfl
  exact h hb

section Encodes

variable {σ : Type}

/-- A relation between encoders for a stream and the bytes they put that holds of the units encoders are made
of, and of what is made of them. -/
structure Encodes (o : XdrOps σ) (P : (σ → Res (Bool × σ)) → List Byte → Prop) : Prop where
  nil : P (fun s => .ok (true, s)) []
  append : ∀ {f g : σ → Res (Bool × σ)} {as bs : List Byte}, P f as → P g bs →
    P (fun s => andThen (f s) g) (as ++ bs)
  putWord : ∀ (int32 : Bool) (l : Int), P (o.putWord int32 l) (bytesOf l)
  octets : ∀ bs, P (xdrOpaqueEncode o bs) (padded bs)

namespace Encodes

variable {o : XdrOps σ} {P : (σ → Res (Bool × σ)) → List Byte → Prop}

theorem scalar (h : Encodes o P) {k : XdrScalar} {n : Int} (hn : k.Recovers n) : P (k.encode o n) (k.wire n) := by
  cases k with
  | word int32 put get =>
      obtain ⟨l, hl, _⟩ := hn
      have hwire : (XdrScalar.word int32 put get).wire n = bytesOf l := by
        rw [XdrScalar.wire, hl]
        rfl
      have hencode : (XdrScalar.word int32 put get).encode o n = o.putWord int32 l := by
        funext s
        simp only [XdrScalar.encode, hl]
      rw [hwire, hencode]
      exact h.putWord int32 l
  | hyper int32 put get => exact h.append (h.putWord int32 _) (h.putWord int32 _)

/-- A count goes out as it is, whatever its type, as long as it is a `u_int`. -/
theorem count (h : Encodes o P) (n : Nat) : P (xdrUInt.encode o n) (bytesOf n) := h.putWord false n

theorem all (h : Encodes o P) {f : Val → σ → Res (Bool × σ)} {wire : Val → List Byte} {vs : List Val}
    (hf : ∀ v ∈ vs, P (f v) (wire v)) : P (encodeAll f vs) (vs.flatMap wire) := by
  induction vs with
  | nil => exact h.nil
  | cons v vs ih =>
      rw [List.flatMap_cons]
      exact h.append (hf v List.mem_cons_self) (ih fun x hx => hf x (List.mem_cons_of_mem v hx))

end Encodes

variable {o : XdrOps σ} {P : (σ → Res (Bool × σ)) → List Byte → Prop}

mutual
/-- Every filter puts the wire form of its value, in units. -/
theorem Ty.encodes (h : Encodes o P) (env : XdrEnv) : (ty : Ty) → {v : Val} → ty.HasType v → ty.Fits v →
    (ty.wire v).length < uintRange → P (ty.encode o env v) (ty.wire v)
  | .void, v, hv, _, _ => by
      rw [hv]
      exact h.nil
  | .scalar k, v, hv, _, _ => by
      obtain ⟨n, rfl, hn⟩ := hv
      exact h.scalar (k.recovers hn)
  | .opaqueData cnt, v, hv, _, _ => by
      obtain ⟨bs, rfl, hlen⟩ := hv
      have hencode : (Ty.opaqueData cnt).encode o env (.bytes bs) = xdrOpaqueEncode o bs := by
        funext s
        rw [Ty.encode, if_pos hlen]
      rw [hencode]
      exact h.octets bs
  | .bytes maxsize, v, hv, _, _ => by
      obtain ⟨bs, rfl, hlen⟩ := hv
      have hrest : P (fun s => if maxsize.toNat < bs.length then .ok (false, s) else xdrOpaqueEncode o bs s)
          (padded bs) := by
        simp only [if_neg (Nat.not_lt.mpr hlen)]
        exact h.octets bs
      exact h.append (h.count bs.length) hrest
  | .string maxsize, v, hv, _, hsmall => by
      obtain ⟨bs, rfl, hlen, hnul⟩ := hv
      have hlt : bs.length + 1 < uintRange := by
        simp only [Ty.wire, padded, List.length_append, length_bytesOf] at hsmall
        omega
      have hsize : strlen bs % uintRange = bs.length := by
        rw [strlen_eq hnul, Nat.mod_eq_of_lt (by omega)]
      have hrest : P (fun s => if maxsize.toNat < bs.length then .ok (false, s)
          else if (bs.length + 1) % uintRange = 0 then .ok (false, s)
          else xdrOpaqueEncode o (bs.take bs.length) s) (padded bs) := by
        simp only [if_neg (Nat.not_lt.mpr hlen), Nat.mod_eq_of_lt hlt, Nat.succ_ne_zero, if_false,
          List.take_length]
        exact h.octets bs
      have hencode : (Ty.string maxsize).encode o env (.bytes bs) = xdrStringEncode o maxsize.toNat bs := rfl
      unfold xdrStringEncode at hencode
      rw [hsize] at hencode
      rw [hencode]
      exact h.append (h.count bs.length) hrest
  | .array maxsize elsize elem, v, hv, hfit, hsmall => by
      obtain ⟨vs, rfl, hlen, hvs⟩ := hv
      obtain ⟨vs', heq, hmax, hfits⟩ := hfit
      cases heq
      rw [Ty.wire, List.length_append] at hsmall
      have hguard : ¬(maxsize.toNat < vs.length ∨ uintMax / elsize.val.toNat < vs.length) := by
        omega
      have hrest : P (fun s => if maxsize.toNat < vs.length ∨ uintMax / elsize.val.toNat < vs.length
          then .ok (false, s) else encodeAll (elem.encode o env) vs s) (vs.flatMap elem.wire) := by
        simp only [if_neg hguard]
        refine h.all fun x hx => elem.encodes h env (hvs x hx) (hfits x hx) (lt_of_le_of_lt ?_ hsmall)
        exact (length_le_flatMap _ hx).trans (Nat.le_add_left _ _)
      exact h.append (h.count vs.length) hrest
  | .vector nelem elem, v, hv, hfit, hsmall => by
      obtain ⟨vs, rfl, hlen, hvs⟩ := hv
      obtain ⟨vs', heq, hfits⟩ := hfit
      cases heq
      have hencode : (Ty.vector nelem elem).encode o env (.seq vs) = encodeAll (elem.encode o env) vs := by
        funext s
        rw [Ty.encode, if_pos hlen]
      rw [hencode]
      exact h.all fun x hx => elem.encodes h env (hvs x hx) (hfits x hx)
        (lt_of_le_of_lt (length_le_flatMap _ hx) hsmall)
  | .union choices, v, hv, hfit, hsmall => by
      obtain ⟨d, x, rfl, hd, hx⟩ := hv
      obtain ⟨d', x', heq, hfits⟩ := hfit
      cases heq
      rw [Ty.wire, List.length_append] at hsmall
      exact h.append (h.putWord false d) (choices.encodes h env d hx hfits (by omega))
  | .reference size target, v, hv, hfit, hsmall => by
      obtain ⟨x, rfl, hx⟩ := hv
      obtain ⟨x', heq, hfits⟩ := hfit
      cases heq
      exact target.encodes h env hx hfits hsmall
  | .pointer size target, v, hv, hfit, hsmall => by
      rcases hv with rfl | ⟨x, rfl, hx⟩
      · exact h.putWord false 0
      · rcases hfit with heq | ⟨x', heq, hfits⟩
        · cases heq
        · cases heq
          rw [Ty.wire, List.length_append] at hsmall
          exact h.append (h.putWord false 1) (target.encodes h env hx hfits (by omega))
  | .pair a b, v, hv, hfit, hsmall => by
      obtain ⟨x, y, rfl, hx, hy⟩ := hv
      obtain ⟨x', y', heq, hfx, hfy⟩ := hfit
      cases heq
      rw [Ty.wire, List.length_append] at hsmall
      exact h.append (a.encodes h env hx hfx (by omega)) (b.encodes h env hy hfy (by omega))

theorem Choices.encodes (h : Encodes o P) (env : XdrEnv) : (choices : Choices) → (d : Int) → {v : Val} →
    choices.HasType d v → choices.Fits d v → (choices.wire d v).length < uintRange →
    P (choices.encode o env d v) (choices.wire d v)
  | .null, d, v, hv, _, _ => hv.elim
  | .dfault proc, d, v, hv, hfit, hsmall => proc.encodes h env hv hfit hsmall
  | .choice value proc rest, d, v, hv, hfit, hsmall => by
      unfold Choices.HasType at hv
      unfold Choices.Fits at hfit
      unfold Choices.wire at hsmall ⊢
      by_cases hd : value = d
      · rw [if_pos hd] at hv hfit hsmall
        have hencode : (Choices.choice value proc rest).encode o env d v = proc.encode o env v := by
          funext s
          rw [Choices.encode, if_pos hd]
        rw [hencode, if_pos hd]
        exact proc.encodes h env hv hfit hsmall
      · rw [if_neg hd] at hv hfit hsmall
        have hencode : (Choices.choice value proc rest).encode o env d v = rest.encode o env d v := by
          funext s
          rw [Choices.encode, if_neg hd]
        rw [hencode, if_neg hd]
        exact rest.encodes h env d hv hfit hsmall
end

end Encodes

theorem Puts.encodes (failfast : Bool) : Encodes (xdrmemOps failfast) Puts :=
  ⟨Puts.nil, Puts.append, Puts.putWord failfast, Puts.octets failfast⟩

/-- Encoding a value writes its wire form. -/
theorem Ty.puts (env : XdrEnv) (failfast : Bool) (ty : Ty) {v : Val} (h : ty.HasType v) (hfit : ty.Fits v) :
    Puts (ty.encode (xdrmemOps failfast) env v) (ty.wire v) := by
  intro w hroom
  have hsmall : (ty.wire v).length < uintRange := lt_of_le_of_lt hroom.fits hroom.handy
  exact ty.encodes (Puts.encodes failfast) env h hfit hsmall w hroom

end RpcMt
