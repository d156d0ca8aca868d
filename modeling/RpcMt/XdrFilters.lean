import RpcMt.XdrTypes

/-! The filters in their three modes, over any stream operations. The operations are the ones of
`struct xdr_ops` that filters use; a filter that an operation answers with FALSE returns FALSE and
leaves its object as far as it has got. The memory that a decode asks for may be refused, and whether
shortage aborts the program is the setting `xdr_failfast`. -/

namespace RpcMt

/-- The operations of a stream that filters use. `none` and `false` are FALSE. -/
structure XdrOps (σ : Type) where
  getlong : σ → Res (Option Int × σ)
  putlong : Int → σ → Res (Bool × σ)
  getbytes : Nat → σ → Res (Option (List Byte) × σ)
  putbytes : List Byte → σ → Res (Bool × σ)
  getint32 : σ → Res (Option Int × σ)
  putint32 : Int → σ → Res (Bool × σ)

/-- `xdr_failfast`, which of the calls of `malloc` and `calloc` succeed, and what is in the memory that
`malloc` hands out. -/
structure XdrEnv where
  failfast : Bool
  alloc : Nat → Bool
  garbage : Nat → Nat → Byte

/-- `xdr_abort`, and the return of FALSE that follows it. -/
def xdrAbort {α : Type} (failfast : Bool) (r : α) : Res α :=
  if failfast then .error .xdrAbort else .ok r

/-- A stream that is decoded from, the calls made for memory so far, and the blocks that they gave. -/
structure Decoding (σ : Type) where
  stream : σ
  calls : Nat
  blocks : List Block

/-- `malloc` or `calloc` of `size` bytes. -/
def Decoding.alloc {σ : Type} (env : XdrEnv) (size : Nat) (s : Decoding σ) : Option Block × Decoding σ :=
  if env.alloc s.calls then
    (some ⟨s.calls, size⟩, { s with calls := s.calls + 1, blocks := s.blocks ++ [⟨s.calls, size⟩] })
  else (none, { s with calls := s.calls + 1 })

/-- What fresh memory of a block holds. -/
def XdrEnv.fresh (env : XdrEnv) (b : Block) (len : Nat) : List Byte :=
  (List.range len).map (env.garbage b.id)

/-- The bytes that pad `cnt` bytes to full units. -/
def rndup (cnt : Nat) : Nat := if 0 < cnt % 4 then 4 - cnt % 4 else 0

/-- `strlen` of what a block holds. -/
def strlen (bs : List Byte) : Nat := (bs.takeWhile (· ≠ 0)).length

variable {σ : Type} (ops : XdrOps σ) (env : XdrEnv)

/-- The second operation, if the first one has returned TRUE. -/
def andThen (r : Res (Bool × σ)) (f : σ → Res (Bool × σ)) : Res (Bool × σ) := do
  let (ok, s) ← r
  if ok then f s else pure (false, s)

def XdrOps.putWord (int32 : Bool) (l : Int) (s : σ) : Res (Bool × σ) :=
  if int32 then ops.putint32 l s else ops.putlong l s

def XdrOps.getWord (int32 : Bool) (s : σ) : Res (Option Int × σ) :=
  if int32 then ops.getint32 s else ops.getlong s

/-! ### Encoding -/

def XdrScalar.encode (k : XdrScalar) (n : Int) (s : σ) : Res (Bool × σ) :=
  match k with
  | .word int32 put _ => match put n with
      | none => .ok (false, s)
      | some l => ops.putWord int32 l s
  | .hyper int32 put _ =>
      andThen (ops.putWord int32 (put n).1 s) (ops.putWord int32 (put n).2)

def xdrOpaqueEncode (bs : List Byte) (s : σ) : Res (Bool × σ) :=
  if bs.length = 0 then .ok (true, s)
  else andThen (ops.putbytes bs s) fun s =>
    if rndup bs.length = 0 then .ok (true, s)
    else ops.putbytes (List.replicate (rndup bs.length) 0) s

def xdrBytesEncode (maxsize : Nat) (bs : List Byte) (s : σ) : Res (Bool × σ) :=
  andThen (xdrUInt.encode ops bs.length s) fun s =>
    if maxsize < bs.length then .ok (false, s) else xdrOpaqueEncode ops bs s

def xdrStringEncode (maxsize : Nat) (bs : List Byte) (s : σ) : Res (Bool × σ) :=
  let size := strlen bs % uintRange
  andThen (xdrUInt.encode ops size s) fun s =>
    if maxsize < size then .ok (false, s)
    else if (size + 1) % uintRange = 0 then .ok (false, s)
    else xdrOpaqueEncode ops (bs.take size) s

/-- The loop of `xdr_array` and `xdr_vector`, which ends with the first element that fails. -/
def encodeAll (f : Val → σ → Res (Bool × σ)) : List Val → σ → Res (Bool × σ)
  | [], s => .ok (true, s)
  | v :: vs, s => andThen (f v s) (encodeAll f vs)

def xdrArrayEncode (maxsize : Nat) (elsize : ElSize) (f : Val → σ → Res (Bool × σ)) (vs : List Val)
    (s : σ) : Res (Bool × σ) :=
  andThen (xdrUInt.encode ops vs.length s) fun s =>
    if maxsize < vs.length ∨ uintMax / elsize.val.toNat < vs.length then .ok (false, s)
    else encodeAll f vs s

mutual
/-- Encoding the value of an object. What is not of the type has no such object in memory. -/
def Ty.encode : Ty → Val → σ → Res (Bool × σ)
  | .void, _, s => .ok (true, s)
  | .scalar k, .num n, s => k.filter.encode ops n s
  | .opaqueData cnt, .bytes bs, s =>
      if bs.length = cnt.toNat then xdrOpaqueEncode ops bs s else .error .badPointer
  | .bytes maxsize, .bytes bs, s => xdrBytesEncode ops maxsize.toNat bs s
  | .string _, .null, s => .ok (false, s)
  | .string maxsize, .bytes bs, s => xdrStringEncode ops maxsize.toNat bs s
  | .array maxsize elsize elem, .seq vs, s => xdrArrayEncode ops maxsize.toNat elsize elem.encode vs s
  | .vector nelem elem, .seq vs, s =>
      if vs.length = nelem.toNat then encodeAll elem.encode vs s else .error .badPointer
  | .union choices, .union d x, s => andThen (xdrEnum.encode ops d s) (choices.encode d x)
  | .reference _ _, .null, s => xdrAbort env.failfast (false, s)
  | .reference _ target, .ref x, s => target.encode x s
  | .pointer _ _, .null, s => xdrBool.encode ops 0 s
  | .pointer _ target, .ref x, s => andThen (xdrBool.encode ops 1 s) (target.encode x)
  | .pair a b, .pair x y, s => andThen (a.encode x s) (b.encode y)
  | _, _, _ => .error .badPointer

def Choices.encode : Choices → Int → Val → σ → Res (Bool × σ)
  | .null, _, _, s => .ok (false, s)
  | .dfault proc, _, v, s => proc.encode v s
  | .choice value proc rest, d, v, s => if value = d then proc.encode v s else rest.encode d v s
end

/-! ### Decoding -/

def XdrScalar.decode (k : XdrScalar) (s : σ) : Res (Option Int × σ) :=
  match k with
  | .word int32 _ get => do
      let (l, s) ← ops.getWord int32 s
      pure (l.map get, s)
  | .hyper int32 _ get => do
      let (t1, s) ← ops.getWord int32 s
      match t1 with
      | none => pure (none, s)
      | some t1 => do
          let (t2, s) ← ops.getWord int32 s
          pure (t2.map (get t1), s)

/-- `xdr_opaque` into memory at `cp`: its status, and the bytes written there, if any. -/
def xdrOpaqueDecode (cnt : Nat) (s : σ) : Res (Bool × Option (List Byte) × σ) :=
  if cnt = 0 then .ok (true, some [], s)
  else do
    let (bs, s) ← ops.getbytes cnt s
    match bs with
    | none => pure (false, none, s)
    | some bs =>
        if rndup cnt = 0 then pure (true, some bs, s)
        else do
          let (crud, s) ← ops.getbytes (rndup cnt) s
          pure (crud.isSome, some bs, s)

/-- A scalar filter within a decode. -/
def Decoding.scalar (k : XdrScalar) (s : Decoding σ) : Res (Option Int × Decoding σ) := do
  let (n, st) ← k.decode ops s.stream
  pure (n, { s with stream := st })

def Decoding.octets (cnt : Nat) (s : Decoding σ) : Res (Bool × Option (List Byte) × Decoding σ) := do
  let (ok, bs, st) ← xdrOpaqueDecode ops cnt s.stream
  pure (ok, bs, { s with stream := st })

/-- The status of a filter that decodes, the object and the state it leaves. -/
abbrev Decoded (σ : Type) := Bool × Obj × Decoding σ

/-- Go on with a new block; without memory, `xdr_out_of_memory` and FALSE, with the object as it is. -/
def Decoding.withBlock (size : Nat) (o : Obj) (f : Block → Decoding σ → Res (Decoded σ)) (s : Decoding σ) :
    Res (Decoded σ) :=
  match s.alloc env size with
  | (none, s) => xdrAbort env.failfast (false, o, s)
  | (some b, s) => f b s

def xdrBytesDecode (maxsize : Nat) (s : Decoding σ) : Res (Decoded σ) := do
  let (n, s) ← s.scalar ops xdrUInt
  match n with
  | none => pure (false, .untouched, s)
  | some n =>
      let nodesize := n.toNat
      if maxsize < nodesize then pure (false, .bytes nodesize none, s)
      else if nodesize = 0 then pure (true, .bytes 0 none, s)
      else s.withBlock env nodesize (.bytes nodesize none) fun b s => do
        let (ok, bs, s) ← s.octets ops nodesize
        pure (ok, .bytes nodesize (some (b, bs.getD (env.fresh b nodesize))), s)

def xdrStringDecode (maxsize : Nat) (s : Decoding σ) : Res (Decoded σ) := do
  let (n, s) ← s.scalar ops xdrUInt
  match n with
  | none => pure (false, .untouched, s)
  | some n =>
      let size := n.toNat
      if maxsize < size then pure (false, .untouched, s)
      else if (size + 1) % uintRange = 0 then pure (false, .untouched, s)
      else s.withBlock env (size + 1) (.string none) fun b s => do
        let (ok, bs, s) ← s.octets ops size
        pure (ok, .string (some (b, bs.getD (env.fresh b size) ++ [0])), s)

/-- The loop of `xdr_array` and `xdr_vector`. Past the first element that fails, memory is untouched. -/
def decodeAll (f : Decoding σ → Res (Decoded σ)) : Nat → Decoding σ → Res (Bool × List Obj × Decoding σ)
  | 0, s => .ok (true, [], s)
  | n + 1, s => do
      let (ok, o, s) ← f s
      if ok then do
        let (ok, os, s) ← decodeAll f n s
        pure (ok, o :: os, s)
      else pure (false, o :: List.replicate n .untouched, s)

def xdrArrayDecode (maxsize : Nat) (elsize : ElSize) (f : Decoding σ → Res (Decoded σ)) (s : Decoding σ) :
    Res (Decoded σ) := do
  let (n, s) ← s.scalar ops xdrUInt
  match n with
  | none => pure (false, .untouched, s)
  | some n =>
      let c := n.toNat
      if maxsize < c ∨ uintMax / elsize.val.toNat < c then pure (false, .array c none [], s)
      else if c = 0 then pure (true, .array 0 none [], s)
      else s.withBlock env (c * elsize.val.toNat) (.array c none []) fun b s => do
        let (ok, os, s) ← decodeAll f c s
        pure (ok, .array c (some b) os, s)

def xdrReferenceDecode (size : Nat) (f : Decoding σ → Res (Decoded σ)) (s : Decoding σ) :
    Res (Decoded σ) :=
  s.withBlock env size (.ptr none .untouched) fun b s => do
    let (ok, o, s) ← f s
    pure (ok, .ptr (some b) o, s)

mutual
/-- Decoding into memory whose pointers are null. -/
def Ty.decode : Ty → Decoding σ → Res (Decoded σ)
  | .void, s => .ok (true, .untouched, s)
  | .scalar k, s => do
      let (n, s) ← s.scalar ops k.filter
      match n with
      | none => pure (false, .untouched, s)
      | some n => pure (true, .num n, s)
  | .opaqueData cnt, s => do
      let (ok, bs, s) ← s.octets ops cnt.toNat
      match bs with
      | none => pure (ok, .untouched, s)
      | some bs => pure (ok, .data bs, s)
  | .bytes maxsize, s => xdrBytesDecode ops env maxsize.toNat s
  | .string maxsize, s => xdrStringDecode ops env maxsize.toNat s
  | .array maxsize elsize elem, s => xdrArrayDecode ops env maxsize.toNat elsize elem.decode s
  | .vector nelem elem, s => do
      let (ok, os, s) ← decodeAll elem.decode nelem.toNat s
      pure (ok, .vector os, s)
  | .union choices, s => do
      let (d, s) ← s.scalar ops xdrEnum
      match d with
      | none => pure (false, .untouched, s)
      | some d => do
          let (ok, o, s) ← choices.decode d s
          pure (ok, .union d o, s)
  | .reference size target, s => xdrReferenceDecode env size.toNat target.decode s
  | .pointer size target, s => do
      let (moreData, s) ← s.scalar ops xdrBool
      match moreData with
      | none => pure (false, .untouched, s)
      | some more =>
          if more = 0 then pure (true, .ptr none .untouched, s)
          else xdrReferenceDecode env size.toNat target.decode s
  | .pair a b, s => do
      let (ok, o, s) ← a.decode s
      if ok then do
        let (ok, o', s) ← b.decode s
        pure (ok, .pair o o', s)
      else pure (false, .pair o .untouched, s)

def Choices.decode : Choices → Int → Decoding σ → Res (Decoded σ)
  | .null, _, s => .ok (false, .untouched, s)
  | .dfault proc, _, s => proc.decode s
  | .choice value proc rest, d, s => if value = d then proc.decode s else rest.decode d s
end

/-! ### Freeing -/

/-- The status of a filter that frees, the object it leaves and the blocks it has given back. -/
abbrev Freed := Bool × Obj × List Block

/-- The loop of `xdr_array` and `xdr_vector`, which leaves what is past the first element that fails. -/
def freeAll (f : Obj → Res Freed) : List Obj → Res (Bool × List Obj × List Block)
  | [] => .ok (true, [], [])
  | o :: os => do
      let (ok, o', freed) ← f o
      if ok then do
        let (ok, os', freed') ← freeAll f os
        pure (ok, o' :: os', freed ++ freed')
      else pure (false, o' :: os, freed)

def xdrBytesFree : Obj → Res Freed
  | .untouched => .ok (true, .untouched, [])
  | .bytes size none => .ok (true, .bytes size none, [])
  | .bytes size (some (b, _)) => .ok (true, .bytes size none, [b])
  | _ => .error .badPointer

def xdrStringFree (maxsize : Nat) : Obj → Res Freed
  | .untouched => .ok (true, .untouched, [])
  | .string none => .ok (true, .string none, [])
  | .string (some (b, sp)) =>
      let size := strlen sp % uintRange
      if maxsize < size then .ok (false, .string (some (b, sp)), [])
      else if (size + 1) % uintRange = 0 then .ok (false, .string (some (b, sp)), [])
      else .ok (true, .string none, [b])
  | _ => .error .badPointer

def xdrArrayFree (f : Obj → Res Freed) : Obj → Res Freed
  | .untouched => .ok (true, .untouched, [])
  | .array size none elems => .ok (true, .array size none elems, [])
  | .array size (some b) elems => do
      let (ok, _, freed) ← freeAll f elems
      pure (ok, .array size none [], freed ++ [b])
  | _ => .error .badPointer

def xdrVectorFree (nelem : Nat) (f : Obj → Res Freed) (o : Obj) : Res Freed := do
  let elems ← match o with
    | .untouched => .ok (List.replicate nelem .untouched)
    | .vector elems => .ok elems
    | _ => .error .badPointer
  let (ok, elems, freed) ← freeAll f elems
  pure (ok, .vector elems, freed)

def xdrReferenceFree (f : Obj → Res Freed) : Obj → Res Freed
  | .untouched => .ok (true, .untouched, [])
  | .ptr none target => .ok (true, .ptr none target, [])
  | .ptr (some b) target => do
      let (ok, _, freed) ← f target
      pure (ok, .ptr none .untouched, freed ++ [b])
  | _ => .error .badPointer

mutual
/-- Freeing an object: `untouched` memory is all zero. -/
def Ty.free : Ty → Obj → Res Freed
  | .void, o => .ok (true, o, [])
  | .scalar _, o => .ok (true, o, [])
  | .opaqueData _, o => .ok (true, o, [])
  | .bytes _, o => xdrBytesFree o
  | .string maxsize, o => xdrStringFree maxsize.toNat o
  | .array _ _ elem, o => xdrArrayFree elem.free o
  | .vector nelem elem, o => xdrVectorFree nelem.toNat elem.free o
  | .union choices, o => do
      let (d, arm) ← match o with
        | .untouched => .ok (0, .untouched)
        | .union d arm => .ok (d, arm)
        | _ => .error .badPointer
      let (ok, arm, freed) ← choices.free d arm
      pure (ok, .union d arm, freed)
  | .reference _ target, o => xdrReferenceFree target.free o
  | .pointer _ target, o => xdrReferenceFree target.free o
  | .pair a b, o => do
      let (x, y) ← match o with
        | .untouched => .ok (.untouched, .untouched)
        | .pair x y => .ok (x, y)
        | _ => .error .badPointer
      let (ok, x, freed) ← a.free x
      if ok then do
        let (ok, y, freed') ← b.free y
        pure (ok, .pair x y, freed ++ freed')
      else pure (false, .pair x y, freed)

def Choices.free : Choices → Int → Obj → Res Freed
  | .null, _, o => .ok (false, o, [])
  | .dfault proc, _, o => proc.free o
  | .choice value proc rest, d, o => if value = d then proc.free o else rest.free d o
end

end RpcMt
