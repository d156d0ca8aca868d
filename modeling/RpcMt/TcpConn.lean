import RpcMt.UdpCache
import RpcMt.Worker
import RpcMt.XdrRec

/-! A TCP connection of `svc_tcp.c` with its record stream: `readtcp` and the calls of `svctcp_op` that
use the incoming half. The socket is the sequence of what its reads return. Calls that lead to a read
for which nothing has come in yet have no value. -/

open RpcMt.XdrRec

namespace RpcMt.Tcp

/-- `struct tcp_conn` without the stream. -/
structure TcpConn where
  strmStat : XprtStat
  xId : Nat
  deriving DecidableEq, Repr

/-- What a read meets: bytes that have come in, or the end of the stream, an error or a timeout. -/
inductive Reading where
  | data (b : Byte) (bs : List Byte)
  | failed
  deriving DecidableEq, Repr

def Reading.ofBytes : List Byte → List Reading
  | [] => []
  | b :: bs => [.data b bs]

def Reading.size : Reading → Nat
  | .data _ bs => bs.length + 1
  | .failed => 0

/-- The incoming side of the socket, with the number of bytes read from it so far. -/
structure Net where
  incoming : List Reading
  taken : Nat
  deriving DecidableEq, Repr

abbrev Conn := Svcxprt TcpConn × Net

def readtcp : Readit Conn
  | (x, net), len => match net.incoming with
      | [] => none
      | .failed :: rest =>
          let x := { x.setBusy 1 with xpPriv := { x.xpPriv with strmStat := .died } }
          some (none, (x, { net with incoming := rest }))
      | .data b bs :: rest =>
          let bytes := (b :: bs).take len
          let net : Net := ⟨Reading.ofBytes ((b :: bs).drop len) ++ rest, net.taken + bytes.length⟩
          some (some bytes, ((x.setProgress .doneRead).setBusy 0, net))

def onXprt (f : Svcxprt TcpConn → Svcxprt TcpConn) (s : Stream Conn) : Stream Conn :=
  { s with handle := (f s.handle.1, s.handle.2) }

/-- More turns than there can be fragments: each but the first begins with a header. -/
def turns (s : Stream Conn) : Nat :=
  s.strm.input.length + (s.handle.2.incoming.map Reading.size).sum + 2

def svctcpStat (s : Stream Conn) : Option (XprtStat × Stream Conn) :=
  if s.handle.1.xpPriv.strmStat = .died then some (.died, s)
  else do
    let (eof, s) ← xdrrecEof readtcp (turns s) s
    some (if eof then .idle else .morereqs, s)

/-- `svctcp_recv`, with the message that it has received. -/
def svctcpRecv (cfg : Config) (xdrCallmsg : RecFilter readtcp RpcMsg) (s : Stream Conn) :
    Option (Option RpcMsg × Stream Conn) := do
  let s := onXprt (·.clrProgress .doneRecv) s
  let (_, s) ← xdrrecSkiprecord readtcp (turns s) s
  let (r, s) ← xdrCallmsg.run s
  match r with
  | some msg =>
      let s := onXprt (fun x => { x with xpPriv := { x.xpPriv with xId := msg.rmXid } }) s
      some (some msg, onXprt (·.setProgress .doneRecv) s)
  | none =>
      let s := onXprt (fun x => { x with xpPriv := { x.xpPriv with strmStat := .died } }) s
      if cfg.failfast then none else some (none, onXprt (·.setProgress .doneRecv) s)

/-- `svctcp_getargs` up to the end of its filter, with the status of the filter. -/
def svctcpGetargs (xdrArgs : RecFilter readtcp Unit) (s : Stream Conn) : Option (Bool × Stream Conn) := do
  let (r, s) ← xdrArgs.run (onXprt (·.setBusy 1) s)
  some (r.isSome, onXprt (·.setBusy 0) s)

/-- `svctcp_reply`, where `died` tells that the write failed: the transport and the xid that it puts
into the message. -/
def svctcpReply (x : Svcxprt TcpConn) (died : Bool) : Nat × Svcxprt TcpConn :=
  let priv := if died then { x.xpPriv with strmStat := .died } else x.xpPriv
  (x.xpPriv.xId, RpcMt.svctcpReply x priv)

/-! ### What reading leaves alone -/

/-- What the waits of the dispatch thread depend on is the same. -/
structure Flags (x y : Svcxprt TcpConn) : Prop where
  parent : y.mtxpParent = x.mtxpParent
  ready : y.mtxpMtready = x.mtxpMtready
  getargs : y.mtxpProgress .getargs = x.mtxpProgress .getargs
  returned : y.mtxpProgress .returned = x.mtxpProgress .returned

structure Held (x y : Svcxprt TcpConn) : Prop extends Flags x y where
  xId : y.xpPriv.xId = x.xpPriv.xId

theorem Flags.refl (x : Svcxprt TcpConn) : Flags x x := ⟨rfl, rfl, rfl, rfl⟩

theorem Flags.trans {x y z : Svcxprt TcpConn} (h : Flags x y) (h' : Flags y z) : Flags x z :=
  ⟨h'.parent.trans h.parent, h'.ready.trans h.ready, h'.getargs.trans h.getargs,
    h'.returned.trans h.returned⟩

theorem Held.refl (x : Svcxprt TcpConn) : Held x x := ⟨.refl x, rfl⟩

theorem Held.trans {x y z : Svcxprt TcpConn} (h : Held x y) (h' : Held y z) : Held x z :=
  ⟨h.toFlags.trans h'.toFlags, h'.xId.trans h.xId⟩

theorem readtcp_held {c c' : Conn} {len : Nat} {r : Option (List Byte)}
    (h : readtcp c len = some (r, c')) : Held c.1 c'.1 := by
  unfold readtcp at h
  split at h
  split at h
  · cases h
  · cases h
    exact ⟨⟨rfl, rfl, rfl, rfl⟩, rfl⟩
  · cases h
    exact ⟨⟨rfl, rfl, rfl, rfl⟩, rfl⟩

theorem reads_held {c c' : Conn} (h : Reads readtcp c c') : Held c.1 c'.1 := by
  induction h with
  | refl => exact .refl c.1
  | tail _ hr ih => exact ih.trans (readtcp_held hr)

theorem svctcpStat_ok {s t : Stream Conn} {xrv : XprtStat} (h : svctcpStat s = some (xrv, t)) :
    Held s.handle.1 t.handle.1 ∧
      (s.handle.1.xpPriv.strmStat = .died ∨ (s.strm.fbtbc = 0 ∧ s.strm.lastFrag = true) → t = s) := by
  unfold svctcpStat at h
  split at h
  · cases h
    exact ⟨.refl _, fun _ => rfl⟩
  · rename_i halive
    obtain ⟨⟨eof, u⟩, hu, hpure⟩ := Option.bind_eq_some_iff.mp h
    cases hpure
    refine ⟨reads_held (xdrrecEof_reads hu), fun hor => ?_⟩
    exact xdrrecEof_of_end (hor.resolve_left halive) hu

theorem svctcpRecv_ok {cfg : Config} {xdrCallmsg : RecFilter readtcp RpcMsg} {s t : Stream Conn}
    {r : Option RpcMsg} (h : svctcpRecv cfg xdrCallmsg s = some (r, t)) :
    Flags s.handle.1 t.handle.1 ∧
      t.handle.1.xpPriv.xId = (r.map RpcMsg.rmXid).getD s.handle.1.xpPriv.xId := by
  obtain ⟨⟨ok, u⟩, hskip, h⟩ := Option.bind_eq_some_iff.mp h
  obtain ⟨⟨r', v⟩, hcall, h⟩ := Option.bind_eq_some_iff.mp h
  have hclr : Held s.handle.1 (s.handle.1.clrProgress .doneRecv) := ⟨⟨rfl, rfl, rfl, rfl⟩, rfl⟩
  have hu : Held (s.handle.1.clrProgress .doneRecv) u.handle.1 :=
    reads_held (xdrrecSkiprecord_reads hskip)
  have hv : Held u.handle.1 v.handle.1 := reads_held (xdrCallmsg.reads hcall)
  have hall := hclr.trans (hu.trans hv)
  cases r' with
  | some msg =>
      cases h
      exact ⟨hall.toFlags.trans ⟨rfl, rfl, rfl, rfl⟩, rfl⟩
  | none =>
      dsimp only at h
      split at h
      · cases h
      · cases h
        exact ⟨hall.toFlags.trans ⟨rfl, rfl, rfl, rfl⟩, hall.xId⟩

theorem svctcpGetargs_held {xdrArgs : RecFilter readtcp Unit} {s t : Stream Conn} {rv : Bool}
    (h : svctcpGetargs xdrArgs s = some (rv, t)) : Held s.handle.1 t.handle.1 := by
  obtain ⟨⟨r, u⟩, hrun, hpure⟩ := Option.bind_eq_some_iff.mp h
  cases hpure
  have hbusy : Held s.handle.1 (s.handle.1.setBusy 1) := ⟨⟨rfl, rfl, rfl, rfl⟩, rfl⟩
  have hu : Held (s.handle.1.setBusy 1) u.handle.1 := reads_held (xdrArgs.reads hrun)
  exact hbusy.trans (hu.trans ⟨⟨rfl, rfl, rfl, rfl⟩, rfl⟩)

theorem svctcpReply_held (x : Svcxprt TcpConn) (died : Bool) : Held x (svctcpReply x died).2 := by
  refine ⟨⟨rfl, rfl, rfl, rfl⟩, ?_⟩
  cases died <;> rfl

end RpcMt.Tcp
