import RpcMt.XdrStreams

/-! What a filter can do to a memory stream, call by call. A filter reaches the buffer through the
operations of `struct xdr_ops` only, and each of them checks the count of bytes left before it touches
the buffer; so a filter on a stream that lies within its buffer never leaves the buffer, whatever it
calls and in whatever order. -/

namespace RpcMt

/-- A call of an operation of `xdr_mem.c`. What `xdrmem_inline` hands out is read or written by the
filter itself. -/
inductive StreamCall where
  | getlong
  | putlong (l : Int)
  | getint32
  | putint32 (l : Int)
  | getbytes (len : Nat)
  | putbytes (bs : List Byte)
  | getpos
  | setpos (pos : Nat)
  | inlineGet (len : Nat)
  | inlinePut (bs : List Byte)

/-- What a call tells the filter. -/
structure StreamAnswer where
  ok : Bool
  word : Int
  bytes : List Byte
  pos : Nat

namespace StreamAnswer

def ofBool (ok : Bool) : StreamAnswer := ⟨ok, 0, [], 0⟩

def ofWord (word : Option Int) : StreamAnswer := ⟨word.isSome, word.getD 0, [], 0⟩

def ofBytes (bs : Option (List Byte)) : StreamAnswer := ⟨bs.isSome, 0, bs.getD [], 0⟩

end StreamAnswer

/-- `xdrmem_setpos` on a view. -/
def View.setpos (failfast : Bool) (pos : Nat) (v : View) : Res (Bool × View) :=
  if v.pos + v.handy < pos ∨ uintRange ≤ v.pos + v.handy - pos then xdrAbort failfast (false, v)
  else .ok (true, { v with pos := pos, handy := v.pos + v.handy - pos })

/-- `xdrmem_inline` on a view, and the access to the `len` bytes behind the pointer it returns. Shortage
is reported by a null pointer. -/
def View.inline (len : Nat) (put : List Byte → List Byte) (v : View) : Res (Option (List Byte) × View) :=
  if v.handy < len then .ok (none, v)
  else if v.bytes.length < v.pos + len then .error .badPointer
  else
    let old := (v.bytes.drop v.pos).take len
    .ok (some old, { v with
      bytes := v.bytes.take v.pos ++ put old ++ v.bytes.drop (v.pos + len)
      pos := v.pos + len
      handy := v.handy - len })

def StreamCall.run (failfast : Bool) (v : View) : StreamCall → Res (StreamAnswer × View)
  | .getlong => do
      let (l, w) ← xdrmemGetlong failfast v
      pure (.ofWord l, w)
  | .putlong l => do
      let (ok, w) ← xdrmemPutlong failfast l v
      pure (.ofBool ok, w)
  | .getint32 => do
      let (l, w) ← xdrmemGetlong failfast v
      pure (.ofWord l, w)
  | .putint32 l => do
      let (ok, w) ← xdrmemPutlong failfast l v
      pure (.ofBool ok, w)
  | .getbytes len => do
      let (bs, w) ← xdrmemGetbytes failfast len v
      pure (.ofBytes bs, w)
  | .putbytes bs => do
      let (ok, w) ← xdrmemPutbytes failfast bs v
      pure (.ofBool ok, w)
  | .getpos => .ok (⟨true, 0, [], v.pos % uintRange⟩, v)
  | .setpos pos => do
      let (ok, w) ← v.setpos failfast pos
      pure (.ofBool ok, w)
  | .inlineGet len => do
      let (bs, w) ← v.inline len fun old => old
      pure (.ofBytes bs, w)
  | .inlinePut bs => do
      let (old, w) ← v.inline bs.length fun _ => bs
      pure (.ofBool old.isSome, w)

/-- A filter as a tree of calls: it returns, or it makes a call and goes on with the answer. -/
inductive StreamProg (α : Type) where
  | ret (ok : Bool) (a : α)
  | call (c : StreamCall) (next : StreamAnswer → StreamProg α)

def StreamProg.run {α : Type} (failfast : Bool) : StreamProg α → View → Res (Bool × α × View)
  | .ret ok a, v => .ok (ok, a, v)
  | .call c next, v => do
      let (answer, w) ← c.run failfast v
      (next answer).run failfast w

/-! ### Every call keeps the stream where it is -/

/-- The stream over the same bytes, moved within them. -/
structure Moved (v w : View) : Prop where
  xOp : w.xOp = v.xOp
  length : w.bytes.length = v.bytes.length
  room : w.pos + w.handy = v.pos + v.handy

/-- A computation on a stream that has left no bounds: the stream has moved within its bytes, or the
program has been aborted for want of them. -/
def Keeps {β : Type} (v : View) : Res (β × View) → Prop
  | .ok (_, w) => Moved v w
  | .error e => v.InBounds → e = .xdrAbort

theorem Moved.refl (v : View) : Moved v v := ⟨rfl, rfl, rfl⟩

theorem Moved.inBounds {v w : View} (h : Moved v w) (hv : v.InBounds) : w.InBounds := by
  unfold View.InBounds at *
  rw [h.room, h.length]
  exact hv

theorem Moved.trans {u v w : View} (h : Moved u v) (h' : Moved v w) : Moved u w :=
  ⟨h'.xOp.trans h.xOp, h'.length.trans h.length, h'.room.trans h.room⟩

theorem Keeps.map {β γ : Type} {v : View} {r : Res (β × View)} (h : Keeps v r) (f : β → γ) :
    Keeps v (r >>= fun p => pure (f p.1, p.2)) := by
  cases r with
  | error e => exact h
  | ok p => exact h

theorem xdrAbort_keeps {β : Type} (failfast : Bool) (b : β) (v : View) :
    Keeps v (xdrAbort failfast (b, v)) := by
  cases failfast with
  | false => exact Moved.refl v
  | true =>
      intro _
      rfl

theorem xdrmemGetbytes_keeps (failfast : Bool) (len : Nat) (v : View) :
    Keeps v (xdrmemGetbytes failfast len v) := by
  unfold xdrmemGetbytes
  split
  · exact xdrAbort_keeps failfast none v
  · split
    · intro hin
      unfold View.InBounds at hin
      omega
    · refine ⟨rfl, rfl, ?_⟩
      dsimp only
      omega

/-- Bytes put in the place of as many others. -/
theorem length_splice {bytes new : List Byte} {pos : Nat} (h : pos + new.length ≤ bytes.length) :
    (bytes.take pos ++ new ++ bytes.drop (pos + new.length)).length = bytes.length := by
  simp only [List.length_append, List.length_take, List.length_drop]
  omega

theorem xdrmemPutbytes_keeps (failfast : Bool) (bs : List Byte) (v : View) :
    Keeps v (xdrmemPutbytes failfast bs v) := by
  unfold xdrmemPutbytes
  split
  · exact xdrAbort_keeps failfast false v
  · split
    · intro hin
      unfold View.InBounds at hin
      omega
    · refine ⟨rfl, length_splice (by omega), ?_⟩
      dsimp only
      omega

theorem setpos_keeps (failfast : Bool) (pos : Nat) (v : View) : Keeps v (v.setpos failfast pos) := by
  unfold View.setpos
  split
  · exact xdrAbort_keeps failfast false v
  · refine ⟨rfl, rfl, ?_⟩
    dsimp only
    omega

theorem inline_keeps {len : Nat} {put : List Byte → List Byte}
    (hput : ∀ old, old.length = len → (put old).length = len) (v : View) : Keeps v (v.inline len put) := by
  unfold View.inline
  split
  · exact Moved.refl v
  · split
    · intro hin
      unfold View.InBounds at hin
      omega
    · have hold : ((v.bytes.drop v.pos).take len).length = len := by
        rw [List.length_take, List.length_drop]
        omega
      have hnew := hput _ hold
      refine ⟨rfl, ?_, ?_⟩
      · have hroom : v.pos + (put ((v.bytes.drop v.pos).take len)).length ≤ v.bytes.length := by omega
        have hsplice := length_splice hroom
        rw [hnew] at hsplice
        exact hsplice
      · dsimp only
        omega

theorem StreamCall.run_keeps (failfast : Bool) (c : StreamCall) (v : View) : Keeps v (c.run failfast v) := by
  cases c with
  | getlong => exact ((xdrmemGetbytes_keeps failfast 4 v).map _).map _
  | putlong l => exact (xdrmemPutbytes_keeps failfast (bytesOf l) v).map _
  | getint32 => exact ((xdrmemGetbytes_keeps failfast 4 v).map _).map _
  | putint32 l => exact (xdrmemPutbytes_keeps failfast (bytesOf l) v).map _
  | getbytes len => exact (xdrmemGetbytes_keeps failfast len v).map _
  | putbytes bs => exact (xdrmemPutbytes_keeps failfast bs v).map _
  | getpos => exact Moved.refl v
  | setpos pos => exact (setpos_keeps failfast pos v).map _
  | inlineGet len => exact (inline_keeps (fun _ h => h) v).map _
  | inlinePut bs =>
      have h : Keeps v (v.inline bs.length fun _ => bs) := inline_keeps (fun _ _ => rfl) v
      exact h.map fun old => StreamAnswer.ofBool old.isSome

/-- A filter, whatever it calls, keeps the stream within its bytes. -/
theorem StreamProg.run_keeps {α : Type} (failfast : Bool) (p : StreamProg α) (v : View) :
    Keeps v (p.run failfast v >>= fun r => pure ((r.1, r.2.1), r.2.2)) := by
  induction p generalizing v with
  | ret ok a => exact Moved.refl v
  | call c next ih =>
      have hc := c.run_keeps failfast v
      rw [StreamProg.run]
      cases hrun : c.run failfast v with
      | error e =>
          rw [hrun] at hc
          exact hc
      | ok r =>
          rw [hrun] at hc
          have hnext := ih r.1 r.2
          show Keeps v ((next r.1).run failfast r.2 >>= _)
          cases hrest : (next r.1).run failfast r.2 with
          | error e =>
              rw [hrest] at hnext
              exact fun hin => hnext (hc.inBounds hin)
          | ok q =>
              rw [hrest] at hnext
              exact Moved.trans hc hnext

/-- The filter that makes these calls. -/
def StreamProg.filter {α : Type} (failfast : Bool) (p : StreamProg α) : Filter α where
  run := p.run failfast
  frame := by
    intro v b a w h
    have hkeep := p.run_keeps failfast v
    rw [h] at hkeep
    exact ⟨hkeep.xOp, hkeep.length, hkeep.room⟩

theorem StreamProg.filter_error {α : Type} {failfast : Bool} {p : StreamProg α} {v : View} {e : Fault}
    (hin : v.InBounds) (h : (p.filter failfast).run v = .error e) : e = .xdrAbort := by
  have hkeep := p.run_keeps failfast v
  have hrun : p.run failfast v = .error e := h
  rw [hrun] at hkeep
  exact hkeep hin

end RpcMt
