import RpcMt.XdrStreams
import RpcMt.XdrRec

/-! The encoding half of the record streams of `xdr_rec.c`. Fragments are built in an output buffer, each
behind room for its header, which is filled in when the fragment ends. Short records are batched in the
buffer; a fragment that fills it is sent in the middle of its record. -/

namespace RpcMt

/-- What `writeit` returns when it is passed these bytes, after those it was passed before. -/
abbrev Writeit := List (List Byte) → List Byte → Int

/-- The outgoing half of a `RECSTREAM`, with pointers as distances from `out_base`, and what has been
passed to `writeit` so far. -/
structure OutStream where
  buf : List Byte
  outFinger : Nat
  outBoundry : Nat
  fragHeader : Nat
  fragSent : Bool
  written : List (List Byte)
  deriving DecidableEq, Repr

namespace XdrRec

/-- The outgoing half as `xdrrec_create` sets it up, with whatever the memory holds. -/
def createOut (sendsize : Nat) (garbage : Nat → Byte) : OutStream :=
  { buf := (List.range (fixBufSize sendsize)).map garbage
    outFinger := 4
    outBoundry := fixBufSize sendsize
    fragHeader := 0
    fragSent := false
    written := [] }

/-- A buffer with bytes stored at a position. -/
def overwrite (buf : List Byte) (pos : Nat) (bs : List Byte) : List Byte :=
  buf.take pos ++ bs ++ buf.drop (pos + bs.length)

/-- A store of bytes into the output buffer. -/
def store (pos : Nat) (bs : List Byte) (s : OutStream) : Res OutStream :=
  if s.buf.length < pos + bs.length then .error .badPointer
  else .ok { s with buf := overwrite s.buf pos bs }

section Calls

variable (writeit : Writeit)

def flushOut (eor : Bool) (s : OutStream) : Res (Bool × OutStream) := do
  let eormask := if eor then 2 ^ 31 else 0
  let len := s.outFinger - s.fragHeader - 4
  let s ← store s.fragHeader (htonl (len ||| eormask)) s
  let len := s.outFinger
  let bytes := s.buf.take len
  let r := writeit s.written bytes
  let s := { s with written := s.written ++ [bytes] }
  if r ≠ castInt 32 len then pure (false, s)
  else pure (true, { s with fragHeader := 0, outFinger := 4 })

/-- A word at the finger. -/
def putAtFinger (bs : List Byte) (s : OutStream) : Res (Bool × OutStream) := do
  let s' ← store s.outFinger bs s
  pure (true, { s' with outFinger := s.outFinger + 4 })

/-- What `xdrrec_putlong` and `xdrrec_putint32` do with the bytes of their word. -/
def putWord (bs : List Byte) (s : OutStream) : Res (Bool × OutStream) :=
  if s.outBoundry < s.outFinger + 4 then do
    let (ok, s) ← flushOut writeit false { s with fragSent := true }
    if ok then putAtFinger bs s else pure (false, s)
  else putAtFinger bs s

def xdrrecPutlong (l : Int) : OutStream → Res (Bool × OutStream) := putWord writeit (bytesOf l)

def xdrrecPutint32 (i : Int) : OutStream → Res (Bool × OutStream) := putWord writeit (bytesOf i)

/-- The loop of `xdrrec_putbytes`, with the bytes still to be put and a bound on its turns. -/
def putbytesLoop : Nat → List Byte → OutStream → Res (Bool × OutStream)
  | 0, _, _ => .error .noReturn
  | turns + 1, addr, s =>
      if addr = [] then .ok (true, s)
      else do
        let current := min addr.length (s.outBoundry - s.outFinger)
        let s' ← store s.outFinger (addr.take current) s
        let s := { s' with outFinger := s.outFinger + current }
        if s.outFinger = s.outBoundry ∧ addr.drop current ≠ [] then do
          let (ok, s) ← flushOut writeit false { s with fragSent := true }
          if ok then putbytesLoop turns (addr.drop current) s else pure (false, s)
        else putbytesLoop turns (addr.drop current) s

def xdrrecPutbytes (bs : List Byte) : OutStream → Res (Bool × OutStream) :=
  putbytesLoop writeit (bs.length + 2) bs

/-- `xdrrec_inline` on a stream that encodes: a pointer into the buffer, or NULL. -/
def xdrrecInline (len : Nat) (s : OutStream) : Option Nat × OutStream :=
  if s.outFinger + len ≤ s.outBoundry then
    (some s.outFinger, { s with outFinger := s.outFinger + len })
  else (none, s)

def xdrrecEndofrecord (sendnow : Bool) (s : OutStream) : Res (Bool × OutStream) :=
  if sendnow || s.fragSent || decide (s.outBoundry ≤ s.outFinger + 4) then
    flushOut writeit true { s with fragSent := false }
  else do
    let len := s.outFinger - s.fragHeader - 4
    let s ← store s.fragHeader (htonl (len ||| 2 ^ 31)) s
    pure (true, { s with fragHeader := s.outFinger, outFinger := s.outFinger + 4 })

/-! ### Records -/

/-- The calls that put bytes into a record. A caller of `xdrrec_inline` fills in what it is given. -/
inductive PutCall where
  | putlong (l : Int)
  | putint32 (i : Int)
  | putbytes (bs : List Byte)
  | inline (bs : List Byte)
  deriving DecidableEq, Repr

/-- The bytes of a call. -/
def PutCall.bytes : PutCall → List Byte
  | .putlong l => bytesOf l
  | .putint32 i => bytesOf i
  | .putbytes bs => bs
  | .inline bs => bs

/-- A call: the bytes it puts, which are none if `xdrrec_inline` returns NULL, and the stream. -/
def PutCall.run : PutCall → OutStream → Res (List Byte × OutStream)
  | .putlong l, s => do
      let (_, s) ← xdrrecPutlong writeit l s
      pure (bytesOf l, s)
  | .putint32 i, s => do
      let (_, s) ← xdrrecPutint32 writeit i s
      pure (bytesOf i, s)
  | .putbytes bs, s => do
      let (_, s) ← xdrrecPutbytes writeit bs s
      pure (bs, s)
  | .inline bs, s =>
      match xdrrecInline bs.length s with
      | (none, s) => pure ([], s)
      | (some buf, s) => do
          let s ← store buf bs s
          pure (bs, s)

/-- The calls of one record, and the bytes they put. -/
def runCalls : List PutCall → OutStream → Res (List Byte × OutStream)
  | [], s => .ok ([], s)
  | call :: calls, s => do
      let (put, s) ← call.run writeit s
      let (puts, s) ← runCalls calls s
      pure (put ++ puts, s)

/-- Records, each the calls that put it and the flag it is ended with: the bytes put for each. -/
def runRecords : List (List PutCall × Bool) → OutStream → Res (List (List Byte) × OutStream)
  | [], s => .ok ([], s)
  | (calls, sendnow) :: records, s => do
      let (put, s) ← runCalls writeit calls s
      let (_, s) ← xdrrecEndofrecord writeit sendnow s
      let (puts, s) ← runRecords records s
      pure (put :: puts, s)

end Calls

end XdrRec

end RpcMt
