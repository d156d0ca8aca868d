import RpcMt.TcpConn

/-! The wait of `readtcp` for data: `poll` on the socket in a loop, up to the call of `sys_read`. The condition of
the loop is about `revents`, also after a poll that has failed. What a failed poll does to `revents` is up to
`poll`, which is given from outside; the main result assumes of it that an interrupted poll leaves no event there.
The reads of `TcpConn.lean` are those that such a wait ends with. -/

open RpcMt.XdrRec

namespace RpcMt.Tcp

/-- The bits of `revents`. -/
abbrev Revents := BitVec 16

def pollin : Revents := 0x001

def pollnval : Revents := 0x020

inductive PollErrno where
  | eintr
  | efault
  | einval
  | enomem
  deriving DecidableEq, Repr

/-- What `poll` returns: -1 with an error, 0, or 1; and what it leaves in `revents` unless it times out. -/
inductive PollResult where
  | error (errno : PollErrno) (revents : Revents)
  | timeout
  | ready (revents : Revents)
  deriving DecidableEq, Repr

/-- A call of `poll`: its result, by what `revents` holds before it. -/
abbrev Poll := Revents → PollResult

/-- An interrupted poll reports no data. The system call clears `revents`, whatever it held. -/
def Poll.Clears (poll : Poll) : Prop := ∀ revents left, poll revents = .error .eintr left → left &&& pollin = 0

/-- Where a turn of the loop goes: to the next turn, to `sys_read`, or to `fatal_err`. -/
inductive Turn where
  | again (revents : Revents)
  | read
  | fatal
  deriving DecidableEq, Repr

/-- The condition of the loop, to which `continue` and `break` lead both. -/
def untilData (revents : Revents) : Turn := if revents &&& pollin = 0 then .again revents else .read

/-- One turn. -/
def turn : PollResult → Turn
  | .error errno revents => if errno = .eintr then untilData revents else .fatal
  | .timeout => .fatal
  | .ready pe => if pe &&& pollnval ≠ 0 then .fatal else untilData pe

/-- How far the loop comes with these polls: into the next one, to `sys_read` after the last of them, or to
`fatal_err`. -/
inductive LoopEnd where
  | polling
  | read (last : PollResult)
  | fatal
  deriving DecidableEq, Repr

/-- The loop, with what `revents` holds before the first poll. -/
def pollLoop (revents : Revents) : List Poll → LoopEnd
  | [] => .polling
  | poll :: polls =>
      match turn (poll revents) with
      | .again revents => pollLoop revents polls
      | .read => .read (poll revents)
      | .fatal => .fatal

/-- `fatal_err`. -/
def fatalErr (x : Svcxprt TcpConn) : Svcxprt TcpConn :=
  { x.setBusy 1 with xpPriv := { x.xpPriv with strmStat := .died } }

/-- `readtcp_with_lock`, with what the memory of `revents` held and what the polls return. -/
def readtcpWithLock (revents : Revents) (polls : List Poll) : Readit Conn
  | (x, net), len =>
      match pollLoop revents polls with
      | .polling => none
      | .fatal => some (none, (fatalErr (x.setBusy 1), net))
      | .read _ =>
          let x := x.setBusy 1
          match net.incoming with
          | [] => none
          | .failed :: rest => some (none, (fatalErr x, { net with incoming := rest }))
          | .data b bs :: rest =>
              let bytes := (b :: bs).take len
              let net : Net := ⟨Reading.ofBytes ((b :: bs).drop len) ++ rest, net.taken + bytes.length⟩
              some (some bytes, ((x.setProgress .doneRead).setBusy 0, net))

/-- A wait that reads reads what is on the socket, and a wait that fails is a reading that fails. -/
theorem readtcpWithLock_eq (revents : Revents) (polls : List Poll) (x : Svcxprt TcpConn) (net : Net) (len : Nat) :
    readtcpWithLock revents polls (x, net) len =
      match pollLoop revents polls with
      | .polling => none
      | .fatal => readtcp (x, { net with incoming := .failed :: net.incoming }) len
      | .read _ => readtcp (x, net) len := by
  obtain ⟨incoming, taken⟩ := net
  unfold readtcpWithLock readtcp
  cases pollLoop revents polls with
  | polling => rfl
  | fatal => rfl
  | read =>
      cases incoming with
      | nil => rfl
      | cons reading rest => cases reading <;> rfl

/-- `sys_read` is called only after a poll that found data, and a wait that is given up ends with -1 and a stream
that has died. -/
structure Waits (revents : Revents) (polls : List Poll) : Prop where
  read : ∀ last, pollLoop revents polls = .read last → ∃ pe, last = .ready pe ∧ pe &&& pollin ≠ 0
  fatal : ∀ c len, pollLoop revents polls = .fatal →
    ∃ c', readtcpWithLock revents polls c len = some (none, c') ∧ c'.1.xpPriv.strmStat = .died

theorem untilData_read {revents : Revents} (h : untilData revents = .read) : revents &&& pollin ≠ 0 := by
  unfold untilData at h
  split at h
  · cases h
  · assumption

/-- A turn goes on to `sys_read` with data, or after an interrupted poll that has left `POLLIN`. -/
theorem turn_read {result : PollResult} (h : turn result = .read) :
    (∃ pe, result = .ready pe ∧ pe &&& pollin ≠ 0) ∨ ∃ left, result = .error .eintr left ∧ left &&& pollin ≠ 0 := by
  cases result with
  | error errno left =>
      rw [turn] at h
      split at h
      · rename_i heintr
        rw [heintr]
        exact Or.inr ⟨left, rfl, untilData_read h⟩
      · cases h
  | timeout => cases h
  | ready pe =>
      rw [turn] at h
      split at h
      · cases h
      · exact Or.inl ⟨pe, rfl, untilData_read h⟩

theorem pollLoop_read {polls : List Poll} (hclears : ∀ poll ∈ polls, poll.Clears) {revents : Revents}
    {last : PollResult} (h : pollLoop revents polls = .read last) : ∃ pe, last = .ready pe ∧ pe &&& pollin ≠ 0 := by
  induction polls generalizing revents with
  | nil => cases h
  | cons poll polls ih =>
      obtain ⟨hpoll, hpolls⟩ := List.forall_mem_cons.mp hclears
      rw [pollLoop] at h
      cases hturn : turn (poll revents) with
      | again revents' =>
          rw [hturn] at h
          exact ih hpolls h
      | read =>
          rw [hturn] at h
          obtain rfl : poll revents = last := LoopEnd.read.inj h
          obtain hdata | ⟨left, hfailed, hset⟩ := turn_read hturn
          · exact hdata
          · exact absurd (hpoll revents left hfailed) hset
      | fatal =>
          rw [hturn] at h
          cases h

/-- The loop relies on it: from a poll that left `revents` as it was it would go on to `sys_read`. -/
example : pollLoop pollin [fun revents => .error .eintr revents] = .read (.error .eintr pollin) := rfl

end RpcMt.Tcp
