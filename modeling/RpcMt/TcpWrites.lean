import Mathlib.Data.List.Induction
import RpcMt.RecRoundTrip
import RpcMt.TcpConn

/-! `writetcp`, the `writeit` of a connection's record stream. A write may take fewer bytes than it is given; the
loop goes on behind them until all are taken or a write fails. So what the peer is sent is what the stream has
flushed, in order and once, up to the first failure, and after a failure the connection is dead. -/

open RpcMt.XdrRec

namespace RpcMt.Tcp

/-- What `sys_write` returns when it is given bytes: -1, or that it took one byte and up to so many more. -/
inductive WriteResult where
  | failed
  | wrote (more : Nat)
  deriving DecidableEq, Repr

/-- The outgoing side of a connection: the writes so far, the bytes that they took, and the `strm_stat`. -/
structure Outgoing where
  writes : Nat
  sent : List Byte
  strmStat : XprtStat
  deriving DecidableEq, Repr

section Writetcp

variable (results : Nat → WriteResult)

/-- The loop of `writetcp` and whether it ended with all bytes taken. -/
def writeLoop (buf : List Byte) (o : Outgoing) : Bool × Outgoing :=
  if buf = [] then (true, o)
  else match results o.writes with
    | .failed => (false, { o with writes := o.writes + 1, strmStat := .died })
    | .wrote more => writeLoop (buf.drop (more + 1)) { o with writes := o.writes + 1, sent := o.sent ++ buf.take (more + 1) }
termination_by buf.length
decreasing_by
  rw [List.length_drop]
  have hpos : 0 < buf.length := List.length_pos_iff.mpr ‹_›
  omega

def writetcp (buf : List Byte) (o : Outgoing) : Int × Outgoing :=
  let (ok, o) := writeLoop results buf o
  (if ok then buf.length else -1, o)

/-- The connection after calls of `writetcp` with these bytes. -/
def afterWrites (o : Outgoing) (written : List (List Byte)) : Outgoing :=
  written.foldl (fun o bs => (writetcp results bs o).2) o

/-- `writetcp` as a record stream calls it. -/
def tcpWriteit (o : Outgoing) : Writeit := fun written bytes => (writetcp results bytes (afterWrites results o written)).1

variable {results}

/-- The bytes that are taken are the first ones, in order, and all of them unless the connection dies. -/
theorem writeLoop_sent (buf : List Byte) (o : Outgoing) :
    ∃ n, (writeLoop results buf o).2.sent = o.sent ++ buf.take n ∧
      ((writeLoop results buf o).1 = true → buf.length ≤ n ∧ (writeLoop results buf o).2.strmStat = o.strmStat) ∧
      ((writeLoop results buf o).1 = false → (writeLoop results buf o).2.strmStat = .died) := by
  fun_induction writeLoop results buf o with
  | case1 o => exact ⟨0, (List.append_nil _).symm, fun _ => ⟨Nat.le_refl 0, rfl⟩, fun h => absurd h.symm Bool.false_ne_true⟩
  | case2 buf o hne hfailed =>
      exact ⟨0, (List.append_nil _).symm, fun h => absurd h Bool.false_ne_true, fun _ => rfl⟩
  | case3 buf o hne more hwrote ih =>
      obtain ⟨n, hsent, hall, hdied⟩ := ih
      refine ⟨more + 1 + n, ?_, fun hok => ?_, hdied⟩
      · have hsplit : buf.take (more + 1 + n) = buf.take (more + 1) ++ (buf.drop (more + 1)).take n := List.take_add
        rw [hsent, hsplit, List.append_assoc]
      · obtain ⟨hle, hstat⟩ := hall hok
        rw [List.length_drop] at hle
        exact ⟨by omega, hstat⟩

theorem writetcp_full {buf : List Byte} {o : Outgoing} (h : (writetcp results buf o).1 = buf.length) :
    (writetcp results buf o).2.sent = o.sent ++ buf ∧ (writetcp results buf o).2.strmStat = o.strmStat := by
  obtain ⟨n, hsent, hall, _⟩ := @writeLoop_sent results buf o
  unfold writetcp at h ⊢
  dsimp only at h ⊢
  cases hok : (writeLoop results buf o).1 with
  | false =>
      rw [hok] at h
      have hneg : (-1 : Int) = buf.length := h
      omega
  | true =>
      obtain ⟨hle, hstat⟩ := hall hok
      rw [hsent, List.take_of_length_le hle]
      exact ⟨rfl, hstat⟩

theorem writetcp_short {buf : List Byte} {o : Outgoing} (h : (writetcp results buf o).1 ≠ buf.length) :
    ∃ n, (writetcp results buf o).2.sent = o.sent ++ buf.take n ∧ (writetcp results buf o).2.strmStat = .died := by
  obtain ⟨n, hsent, _, hdied⟩ := @writeLoop_sent results buf o
  unfold writetcp at h ⊢
  dsimp only at h ⊢
  cases hok : (writeLoop results buf o).1 with
  | false => exact ⟨n, hsent, hdied hok⟩
  | true =>
      rw [hok] at h
      exact absurd rfl h

theorem afterWrites_snoc (o : Outgoing) (written : List (List Byte)) (bytes : List Byte) :
    afterWrites results o (written ++ [bytes]) = (writetcp results bytes (afterWrites results o written)).2 := by
  unfold afterWrites
  rw [List.foldl_append]
  rfl

/-- Flushes that were answered in full are on the wire. -/
theorem afterWrites_answered {o : Outgoing} {written : List (List Byte)}
    (h : Answered (tcpWriteit results o) written) :
    (afterWrites results o written).sent = o.sent ++ written.flatten ∧
      (afterWrites results o written).strmStat = o.strmStat := by
  induction written using List.reverseRecOn with
  | nil => exact ⟨(List.append_nil _).symm, rfl⟩
  | append_singleton written bytes ih =>
      obtain ⟨hbefore, hlast⟩ := h.of_snoc
      obtain ⟨hsent, hstat⟩ := ih hbefore
      obtain ⟨hsent', hstat'⟩ := writetcp_full hlast
      rw [afterWrites_snoc, hsent', hstat', hsent, hstat, List.flatten_append, List.flatten_singleton,
        List.append_assoc]
      exact ⟨rfl, rfl⟩

/-- What a status tells about the wire. -/
theorem afterWrites_told {o : Outgoing} {ok : Bool} {written : List (List Byte)}
    (h : Told (tcpWriteit results o) ok written) :
    if ok then (afterWrites results o written).sent = o.sent ++ written.flatten ∧
        (afterWrites results o written).strmStat = o.strmStat
      else (∃ n, (afterWrites results o written).sent = o.sent ++ written.flatten.take n) ∧
        (afterWrites results o written).strmStat = .died := by
  cases ok with
  | true => exact afterWrites_answered h
  | false =>
      obtain ⟨before, last, rfl, hbefore, hlast⟩ := h
      obtain ⟨n, hsent, hdied⟩ := writetcp_short hlast
      rw [afterWrites_snoc]
      refine ⟨⟨before.flatten.length + n, ?_⟩, hdied⟩
      rw [hsent, (afterWrites_answered hbefore).1, List.flatten_append, List.flatten_singleton,
        List.take_length_add_append, List.append_assoc]

end Writetcp

/-- Values are sent over a connection whose writes take as many bytes as they will, and the last record at once. With
TRUE the peer has been sent the records, whole, and decodes the values from them, however it reads. With FALSE it has
been sent a part of what was flushed, from its beginning, and the connection is dead. -/
theorem sendRecords_writetcp {σ : Type} {sendsize recvsize : Nat} (hsize : sendsize + recvsize + 4 < 2 ^ 31)
    (garbage : Nat → Byte) (results : Nat → WriteResult) (o : Outgoing) (readit : Readit σ) (env : XdrEnv)
    {records : List (Item × Bool)} (hitems : ∀ r ∈ records, r.1.Sound) (hlast : ∀ r ∈ records.getLast?, r.2 = true)
    (t : Stream σ) :
    ∃ ok s, sendRecords (tcpWriteit results o) readit env records (createOut sendsize garbage, t) = .ok (ok, s, t) ∧
      (ok = false → (∃ n, (afterWrites results o s.written).sent = o.sent ++ s.written.flatten.take n) ∧
        (afterWrites results o s.written).strmStat = .died) ∧
      (ok = true → (afterWrites results o s.written).strmStat = o.strmStat ∧
        ∀ {τ : Type} {readit' : Readit τ} {pending : τ → List Byte}, XdrRec.Supplies readit' pending →
        ∀ {env' : XdrEnv}, (∀ k, env'.alloc k = true) →
        ∀ {sendsize' recvsize' : Nat}, sendsize' + recvsize' + 4 < 2 ^ 31 →
        ∀ handle, o.sent ++ pending handle = (afterWrites results o s.written).sent →
        ∀ turns, (pending handle).length + 2 ≤ turns → ∀ writeit' out, ∃ objs d,
          recvRecords writeit' readit' env' turns (records.map fun r => r.1.func)
              ⟨(out, ⟨create (fixBufSize recvsize'), handle⟩), 0, []⟩ = .ok (objs.map (true, ·), d) ∧
            List.Forall₂ (fun o r => r.1.func.Holds o r.1.data) objs records) := by
  obtain ⟨ok, s, hsend⟩ := sendRecords_returns hsize garbage (tcpWriteit results o) readit env hitems t
  have htold := afterWrites_told (sendRecords_told hsize garbage hitems hlast hsend)
  refine ⟨ok, s, hsend, ?_, ?_⟩
  · rintro rfl
    exact htold
  · rintro rfl
    obtain ⟨hsent, hstat⟩ := htold
    refine ⟨hstat, ?_⟩
    intro τ readit' pending hs env' halloc sendsize' recvsize' hsize' handle hpending turns hturns writeit' out
    rw [hsent] at hpending
    have hall := List.append_cancel_left hpending
    rw [hall] at hturns
    exact received_of_sent hsize hitems hlast hsend hs halloc hsize' hall hturns writeit' out

/-- Two greetings over a connection that takes five bytes at a time. -/
theorem sendRecords_writetcp_greetings : ∃ s objs d,
    sendRecords (tcpWriteit (fun _ => .wrote 4) ⟨0, [], .idle⟩) byThrees .ample [(greeting, false), (greeting, true)]
        (createOut 100 fun _ => 0, ⟨create 100, []⟩) = .ok (true, s, ⟨create 100, []⟩) ∧
      recvRecords (fun _ _ => -1) byThrees .ample 100 [greeting.func, greeting.func]
          ⟨(s, ⟨create (fixBufSize 400), (afterWrites (fun _ => .wrote 4) ⟨0, [], .idle⟩ s.written).sent⟩), 0, []⟩ =
        .ok (objs.map (true, ·), d) ∧
      List.Forall₂ (fun o (r : Item × Bool) => r.1.func.Holds o r.1.data) objs
        [(greeting, false), (greeting, true)] := by
  have hsound : ∀ r ∈ [(greeting, false), (greeting, true)], r.1.Sound := by
    intro r hr
    have hr : r = (greeting, false) ∨ r = (greeting, true) := by simpa using hr
    rcases hr with rfl | rfl
    · exact greeting_sound
    · exact greeting_sound
  have hsent : (sendRecords (tcpWriteit (fun _ => .wrote 4) ⟨0, [], .idle⟩) byThrees .ample
      [(greeting, false), (greeting, true)] (createOut 100 fun _ => 0, ⟨create 100, []⟩)).toOption.map
        (fun p => (p.1, decide ((afterWrites (fun _ => .wrote 4) ⟨0, [], .idle⟩ p.2.1.written).sent.length ≤ 98))) =
          some (true, true) := by
    decide +kernel
  obtain ⟨ok, s, hsend, _, hrecv⟩ := @sendRecords_writetcp (List Byte) 100 100 (by decide) (fun _ => 0)
    (fun _ => .wrote 4) ⟨0, [], .idle⟩ byThrees .ample [(greeting, false), (greeting, true)] hsound (by decide)
    ⟨create 100, []⟩
  rw [hsend] at hsent
  obtain ⟨rfl, hshort⟩ := Prod.mk.inj (Option.some.inj hsent)
  have hturns : (afterWrites (fun _ => .wrote 4) ⟨0, [], .idle⟩ s.written).sent.length + 2 ≤ 100 :=
    Nat.add_le_add_right (of_decide_eq_true hshort) 2
  have halloc : ∀ k, XdrEnv.ample.alloc k = true := fun _ => rfl
  have hsize : 100 + 400 + 4 < 2 ^ 31 := by decide
  obtain ⟨objs, d, hrun, hobjs⟩ := (hrecv rfl).2 byThrees_supplies halloc hsize
    (afterWrites (fun _ => .wrote 4) ⟨0, [], .idle⟩ s.written).sent rfl 100 hturns (fun _ _ => -1) s
  exact ⟨s, objs, d, hsend, hrun, hobjs⟩

end RpcMt.Tcp
