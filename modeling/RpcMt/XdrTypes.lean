import Mathlib.Data.List.Basic
import RpcMt.XdrMem

/-! Type descriptions over the filters of `xdr.c`, `xdr_intXX_t.c`, `xdr_array.c` and `xdr_ref.c`: the
scalar filters, each with the casts its C text makes, and the filters that nest. A value is what an
object holds, read through its pointers; an object is memory as a decode leaves it, with the blocks its
pointers point to. -/

namespace RpcMt

/-- A cast to a signed integer of `w` bits. -/
def castInt (w : Nat) (n : Int) : Int := (n + 2 ^ (w - 1)) % 2 ^ w - 2 ^ (w - 1)

/-- A cast to an unsigned integer of `w` bits. -/
def castUint (w : Nat) (n : Int) : Int := n % 2 ^ w

/-- A scalar filter: the words that go to the stream and what is made of the words that come from it.
`int32` tells whether it uses `x_putint32` and `x_getint32` or `x_putlong` and `x_getlong`. Where the
object does not fit, nothing is put and the filter returns FALSE. -/
inductive XdrScalar where
  | word (int32 : Bool) (put : Int → Option Int) (get : Int → Int)
  | hyper (int32 : Bool) (put : Int → Int × Int) (get : Int → Int → Int)

/-- The low word takes no part in the sign: `|=` with a `uint32_t`, where `<< 32` has left zeros. -/
def joinWords (cast : Int → Int) (t1 t2 : Int) : Int := cast (t1 * 2 ^ 32) + castUint 32 t2

def splitWords (n : Int) : Int × Int := (n / 2 ^ 32, n)

def xdrInt : XdrScalar := .word false some (castInt 32)
def xdrUInt : XdrScalar := .word false some (castUint 32)
def xdrLong : XdrScalar := .word false (fun n => if castInt 32 n = n then some n else none) id
def xdrULong : XdrScalar :=
  .word false (fun n => if castUint 32 n = n then some n else none) (castUint 32)
def xdrHyper : XdrScalar := .hyper false splitWords (joinWords (castInt 64))
def xdrUHyper : XdrScalar := .hyper false splitWords (joinWords (castUint 64))
def xdrShort : XdrScalar := .word false some (castInt 16)
def xdrUShort : XdrScalar := .word false some (castUint 16)
/-- Through `xdr_int` on a local `int`. -/
def xdrChar : XdrScalar := .word false some fun l => castInt 8 (castInt 32 l)
/-- Through `xdr_u_int` on a local `u_int`. -/
def xdrUChar : XdrScalar := .word false some fun l => castUint 8 (castUint 32 l)
def xdrBool : XdrScalar :=
  .word false (fun n => some (if n ≠ 0 then 1 else 0)) fun l => if l = 0 then 0 else 1
def xdrEnum : XdrScalar := .word false some (castInt 32)
def xdrInt8T : XdrScalar := .word true some (castInt 8)
def xdrUint8T : XdrScalar := .word true some (castUint 8)
def xdrInt16T : XdrScalar := .word true some (castInt 16)
def xdrUint16T : XdrScalar := .word true some (castUint 16)
def xdrInt32T : XdrScalar := .word true some (castInt 32)
def xdrUint32T : XdrScalar := .word true some (castUint 32)
def xdrInt64T : XdrScalar := .hyper true splitWords (joinWords (castInt 64))
def xdrUint64T : XdrScalar := .hyper true splitWords (joinWords (castUint 64))

/-- The C types that have a scalar filter. -/
inductive Scalar where
  | int | uInt | long | uLong | hyper | uHyper | short | uShort | char | uChar | bool | enum
  | int8T | uint8T | int16T | uint16T | int32T | uint32T | int64T | uint64T
  deriving DecidableEq, Repr

namespace Scalar

def filter : Scalar → XdrScalar
  | .int => xdrInt
  | .uInt => xdrUInt
  | .long => xdrLong
  | .uLong => xdrULong
  | .hyper => xdrHyper
  | .uHyper => xdrUHyper
  | .short => xdrShort
  | .uShort => xdrUShort
  | .char => xdrChar
  | .uChar => xdrUChar
  | .bool => xdrBool
  | .enum => xdrEnum
  | .int8T => xdrInt8T
  | .uint8T => xdrUint8T
  | .int16T => xdrInt16T
  | .uint16T => xdrUint16T
  | .int32T => xdrInt32T
  | .uint32T => xdrUint32T
  | .int64T => xdrInt64T
  | .uint64T => xdrUint64T

/-- The values of a signed type of `w` bits. -/
def Signed (w : Nat) (n : Int) : Prop := -2 ^ (w - 1) ≤ n ∧ n < 2 ^ (w - 1)

/-- The values of an unsigned type of `w` bits. -/
def Unsigned (w : Nat) (n : Int) : Prop := 0 ≤ n ∧ n < 2 ^ w

/-- The values of each type; a `long` and an `unsigned long` as far as they fit 32 bits, a `bool_t` as
far as it is TRUE or FALSE. -/
def InRange : Scalar → Int → Prop
  | .int => Signed 32
  | .uInt => Unsigned 32
  | .long => Signed 32
  | .uLong => Unsigned 32
  | .hyper => Signed 64
  | .uHyper => Unsigned 64
  | .short => Signed 16
  | .uShort => Unsigned 16
  | .char => Signed 8
  | .uChar => Unsigned 8
  | .bool => fun n => n = 0 ∨ n = 1
  | .enum => Signed 32
  | .int8T => Signed 8
  | .uint8T => Unsigned 8
  | .int16T => Signed 16
  | .uint16T => Unsigned 16
  | .int32T => Signed 32
  | .uint32T => Unsigned 32
  | .int64T => Signed 64
  | .uint64T => Unsigned 64

end Scalar

/-- A `u_int` that is not zero: what `sizeof` makes of an element. -/
structure ElSize where
  val : UInt32
  pos : 0 < val.toNat

mutual
/-- A type description: which filter is applied to an object, with the arguments it is given. A struct
is its members in order. -/
inductive Ty where
  | void
  | scalar (k : Scalar)
  | opaqueData (cnt : UInt32)
  | bytes (maxsize : UInt32)
  | string (maxsize : UInt32)
  | array (maxsize : UInt32) (elsize : ElSize) (elem : Ty)
  | vector (nelem : UInt32) (elem : Ty)
  | union (choices : Choices)
  | reference (size : UInt32) (target : Ty)
  | pointer (size : UInt32) (target : Ty)
  | pair (fst snd : Ty)

/-- The `choices` of `xdr_union` up to the null entry, with `dfault` behind them. -/
inductive Choices where
  | null
  | dfault (proc : Ty)
  | choice (value : Int) (proc : Ty) (rest : Choices)
end

/-- What an object holds. -/
inductive Val where
  | void
  | num (n : Int)
  | bytes (bs : List Byte)
  | seq (vs : List Val)
  | union (dscm : Int) (arm : Val)
  | null
  | ref (target : Val)
  | pair (fst snd : Val)

mutual
/-- The values of a type, within the bounds that its description declares. A union's discriminant is
covered by its choices. -/
def Ty.HasType : Ty → Val → Prop
  | .void, v => v = .void
  | .scalar k, v => ∃ n, v = .num n ∧ k.InRange n
  | .opaqueData cnt, v => ∃ bs, v = .bytes bs ∧ bs.length = cnt.toNat
  | .bytes maxsize, v => ∃ bs, v = .bytes bs ∧ bs.length ≤ maxsize.toNat
  | .string maxsize, v => ∃ bs, v = .bytes bs ∧ bs.length ≤ maxsize.toNat ∧ 0 ∉ bs
  | .array maxsize _ elem, v => ∃ vs, v = .seq vs ∧ vs.length ≤ maxsize.toNat ∧ ∀ x ∈ vs, elem.HasType x
  | .vector nelem elem, v => ∃ vs, v = .seq vs ∧ vs.length = nelem.toNat ∧ ∀ x ∈ vs, elem.HasType x
  | .union choices, v => ∃ d x, v = .union d x ∧ Scalar.enum.InRange d ∧ choices.HasType d x
  | .reference _ target, v => ∃ x, v = .ref x ∧ target.HasType x
  | .pointer _ target, v => v = .null ∨ ∃ x, v = .ref x ∧ target.HasType x
  | .pair a b, v => ∃ x y, v = .pair x y ∧ a.HasType x ∧ b.HasType y

def Choices.HasType : Choices → Int → Val → Prop
  | .null, _, _ => False
  | .dfault proc, _, v => proc.HasType v
  | .choice value proc rest, d, v => if value = d then proc.HasType v else rest.HasType d v
end

/-- `UINT_MAX`. -/
def uintMax : Nat := uintRange - 1

mutual
/-- Every array's elements, at their declared size, fit in `UINT_MAX` bytes. -/
def Ty.Fits : Ty → Val → Prop
  | .array _ elsize elem, v => ∃ vs, v = .seq vs ∧ vs.length ≤ uintMax / elsize.val.toNat ∧
      ∀ x ∈ vs, elem.Fits x
  | .vector _ elem, v => ∃ vs, v = .seq vs ∧ ∀ x ∈ vs, elem.Fits x
  | .union choices, v => ∃ d x, v = .union d x ∧ choices.Fits d x
  | .reference _ target, v => ∃ x, v = .ref x ∧ target.Fits x
  | .pointer _ target, v => v = .null ∨ ∃ x, v = .ref x ∧ target.Fits x
  | .pair a b, v => ∃ x y, v = .pair x y ∧ a.Fits x ∧ b.Fits y
  | _, _ => True

def Choices.Fits : Choices → Int → Val → Prop
  | .null, _, _ => True
  | .dfault proc, _, v => proc.Fits v
  | .choice value proc rest, d, v => if value = d then proc.Fits v else rest.Fits d v
end

/-- A block that `malloc` or `calloc` has handed out: which call it was, and how many bytes it has. -/
structure Block where
  id : Nat
  size : Nat
  deriving DecidableEq, Repr

/-- An object as a decode leaves it. `untouched` is memory as it was before. A null pointer to elements
or to a target has none behind it. -/
inductive Obj where
  | untouched
  | num (n : Int)
  | data (bs : List Byte)
  | bytes (size : Nat) (ptr : Option (Block × List Byte))
  | string (ptr : Option (Block × List Byte))
  | array (size : Nat) (ptr : Option Block) (elems : List Obj)
  | vector (elems : List Obj)
  | union (dscm : Int) (arm : Obj)
  | ptr (ptr : Option Block) (target : Obj)
  | pair (fst snd : Obj)

mutual
/-- The blocks that the pointers of an object point to. -/
def Obj.blocks : Obj → List Block
  | .untouched => []
  | .num _ => []
  | .data _ => []
  | .bytes _ p => p.toList.map Prod.fst
  | .string p => p.toList.map Prod.fst
  | .array _ p elems => Obj.blocksAll elems ++ p.toList
  | .vector elems => Obj.blocksAll elems
  | .union _ arm => arm.blocks
  | .ptr p target => target.blocks ++ p.toList
  | .pair a b => a.blocks ++ b.blocks

def Obj.blocksAll : List Obj → List Block
  | [] => []
  | o :: os => o.blocks ++ Obj.blocksAll os
end

mutual
/-- The object holds the value. An empty run of bytes or of elements has a null pointer. -/
def Ty.Holds : Ty → Obj → Val → Prop
  | .void, _, v => v = .void
  | .scalar _, o, v => ∃ n, o = .num n ∧ v = .num n
  | .opaqueData _, o, v => ∃ bs, o = .data bs ∧ v = .bytes bs
  | .bytes _, o, v => ∃ bs, v = .bytes bs ∧
      (bs = [] ∧ o = .bytes 0 none ∨ ∃ b, o = .bytes bs.length (some (b, bs)))
  | .string _, o, v => ∃ bs b, v = .bytes bs ∧ o = .string (some (b, bs ++ [0]))
  | .array _ _ elem, o, v => ∃ vs, v = .seq vs ∧ (vs = [] ∧ o = .array 0 none [] ∨
      ∃ b os, o = .array vs.length (some b) os ∧ List.Forall₂ elem.Holds os vs)
  | .vector _ elem, o, v => ∃ vs os, v = .seq vs ∧ o = .vector os ∧ List.Forall₂ elem.Holds os vs
  | .union choices, o, v => ∃ d a x, v = .union d x ∧ o = .union d a ∧ choices.Holds d a x
  | .reference _ target, o, v => ∃ b a x, v = .ref x ∧ o = .ptr (some b) a ∧ target.Holds a x
  | .pointer _ target, o, v => v = .null ∧ o = .ptr none .untouched ∨
      ∃ b a x, v = .ref x ∧ o = .ptr (some b) a ∧ target.Holds a x
  | .pair t u, o, v => ∃ a b x y, v = .pair x y ∧ o = .pair a b ∧ t.Holds a x ∧ u.Holds b y

def Choices.Holds : Choices → Int → Obj → Val → Prop
  | .null, _, _, _ => False
  | .dfault proc, _, o, v => proc.Holds o v
  | .choice value proc rest, d, o, v => if value = d then proc.Holds o v else rest.Holds d o v
end

end RpcMt
