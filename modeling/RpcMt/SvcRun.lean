import RpcMt.Gc
import RpcMt.Wait

/-! `svc_run` with the workers it hands transports to, in the modes that have several threads (mtmode 1
and 2). The dispatch thread reaps, polls, receives, dispatches, waits and asks for the status of a
transport; a worker calls `svc_getargs`, `svc_reply`, `svc_freeargs` and, last, `svc_return`. Each
event is what one thread does between two points where another can be seen, so `svc_getargs` on a
connection and `svc_return` are several events. Locks that only make a thread wait for another are left
out, which adds interleavings. Of a transport's private data only the stream status is kept. What the
peer, the service and the filters do is part of the event. -/

open RpcMt.Runs

namespace RpcMt.SvcRun

inductive Endpoint where
  | udp
  | rendezvous
  | conn (strmStat : XprtStat)
  deriving DecidableEq

abbrev Xports := Registry Bitvec Endpoint

/-- How far a worker is: outside the library, inside `svctcp_getargs` before and after its filter,
after each step of `svc_return`, and out of `svc_return`. -/
inductive WorkerPc where
  | running
  | decoding
  | decoded (rv : Bool)
  | busy
  | returned
  | marked
  | done
  deriving DecidableEq

/-- A worker, the transport that was handed to it, and whether that one was a clone. -/
structure Worker where
  xprt : Addr
  clone : Bool
  pc : WorkerPc
  deriving DecidableEq

/-- The three calls of `xprt_gc_reap_all`: in `svc_run`, at the end of `svc_getreq_poll_mt`, and in
`svc_getreq_common_rv`. -/
inductive Caller where
  | svcRun
  | svcGetreqPoll
  | svcGetreqCommon (fd : Nat)
  deriving DecidableEq

/-- Where the dispatch thread is. -/
inductive Pc where
  | reaping (c : Caller) (id : Nat)
  | polling
  | polled
  | receiving (a : Addr)
  | received (a : Addr)
  | waiting (a w : Addr) (waiter : Wait.Waiter)
  | status (a w : Addr)
  deriving DecidableEq

structure State where
  reg : Xports
  pollfdv : List Nat
  pc : Pc
  workers : List Worker

def start (dtablesize : Nat) : State :=
  { reg := Registry.createXports dtablesize
    pollfdv := []
    pc := .reaping .svcRun 0
    workers := [] }

/-! ### Transports -/

/-- What `readtcp` did in a call that reads the stream: nothing, a read, or a failure. -/
inductive Reading where
  | unused
  | ok
  | failed
  deriving DecidableEq

def readtcp (x : Svcxprt Endpoint) : Reading → Svcxprt Endpoint
  | .unused => x
  | .ok => (x.setProgress .doneRead).setBusy 0
  | .failed => { x.setBusy 1 with xpPriv := .conn .died }

/-- A constructor: allocate and register. -/
def svcCreate (s : Xports) (a : Addr) (sock port : Nat) (ep : Endpoint) (stat : XprtStat) :
    Option Xports :=
  if (s.heap a).isNone then
    ((s.store a (Svcxprt.newXprt sock port (decide (ep = .udp)) ep stat)).xprtRegister a).toOption
  else none

/-- What `SVC_RECV` meets: a connection to accept, a call message, or neither. -/
inductive Recv where
  | conn (a : Addr) (sock : Nat) (stat : XprtStat)
  | msg (io : Reading)
  | fail (io : Reading)
  deriving DecidableEq

/-- `SVC_RECV`, with whether a call was received. -/
def svcRecv (cfg : Config) (s : Xports) (a : Addr) (r : Recv) : Option (Xports × Bool) := do
  let x ← (s.deref a).toOption
  match x.xpPriv, r with
  | .rendezvous, .conn b sock stat => do
      let t ← svcCreate s b sock 0 (.conn .idle) stat
      pure (t, false)
  | .rendezvous, .fail _ => some (s, false)
  | .udp, .msg _ => some (s.store a (svctcpRecv x .udp), true)
  | .udp, .fail _ => some (s.store a (svctcpRecv x .udp), false)
  | .conn _, .msg io =>
      let x := readtcp x io
      some (s.store a (svctcpRecv x x.xpPriv), true)
  | .conn _, .fail io =>
      if cfg.failfast then none
      else some (s.store a (svctcpRecv (readtcp x io) (.conn .died)), false)
  | _, _ => none

/-- `SVC_STAT`, with what `xdrrec_eof` found on the stream. -/
def svcStat (x : Svcxprt Endpoint) (io : Reading) (eof : Bool) : Svcxprt Endpoint × XprtStat :=
  match x.xpPriv with
  | .conn .died => (x, .died)
  | .conn _ => (readtcp x io, if eof then .idle else .morereqs)
  | _ => (x, .idle)

/-- The transport that `request_dispatch` uses: a clone, put at `b`, where there is a clone method. -/
def workerXprt (s : Xports) (a b : Addr) : Option (Xports × Addr) := do
  let x ← (s.deref a).toOption
  if x.mtxpClone then
    if (s.heap b).isNone then do
      let t ← ((s.store b (x.cloneXprt x.xpPriv)).xprtRegister b).toOption
      pure (t, b)
    else none
  else some (s, a)

/-! ### The dispatch thread -/

/-- `check_svcxprt_exists`. -/
def xprtExists (s : Xports) (a : Addr) : Option Unit := do
  let x ← (s.deref a).toOption
  if s.xports x.mtxpId = .ref a then some () else none

/-- What follows `xprt_gc_reap_all` at each of its calls. -/
def reaped (s : State) : Caller → Option State
  | .svcRun => some { s with pc := .polling }
  | .svcGetreqPoll => some { s with pc := .reaping .svcRun 0 }
  | .svcGetreqCommon fd => do
      match ← (s.reg.sockXportsAt fd).toOption with
      | .null => some { s with pc := .polled }
      | .bad => some { s with pc := .polled }
      | .ref a => do
          xprtExists s.reg a
          some { s with pc := .receiving a }

/-- One turn of `xprt_gc_reap_all`, or its end. -/
def reap (s : State) : Option State :=
  match s.pc with
  | .reaping c id => do
      match ← (s.reg.xprtGcReapTurn id).toOption with
      | some t => some { s with reg := t, pc := .reaping c (id + 1) }
      | none => reaped s c
  | _ => none

/-- The descriptors that `svc_poll` polls: those of the slots whose transport is not busy. -/
def pollSlots (s : Xports) : List Nat → Res (List Nat)
  | [] => .ok []
  | slot :: slots => match s.pollfd slot with
      | none => pollSlots s slots
      | some fd => do
          let entry ← s.sockXportsAt fd
          if entry = .bad then pollSlots s slots
          else do
            let (_, x) ← s.derefPtr entry
            let fds ← pollSlots s slots
            pure (if x.mtxpBusy = 0 then fd :: fds else fds)

/-- `svc_poll`, up to what it does with the descriptors that are ready. -/
def svcPoll (s : State) (ready : Bool) : Option State :=
  match s.pc with
  | .polling => do
      let fds ← (pollSlots s.reg (List.range s.reg.maxPollfd)).toOption
      if ready then some { s with pollfdv := fds, pc := .polled }
      else some { s with pc := .reaping .svcRun 0 }
  | _ => none

/-- The loop of `svc_getreq_poll_mt`, where `revents` tells whether there is anything on the next
descriptor. -/
def svcGetreqPoll (s : State) (revents : Bool) : Option State :=
  match s.pc with
  | .polled => match s.pollfdv with
      | [] => some { s with pc := .reaping .svcGetreqPoll 0 }
      | fd :: fds =>
          if revents then some { s with pollfdv := fds, pc := .reaping (.svcGetreqCommon fd) 0 }
          else some { s with pollfdv := fds }
  | _ => none

def recv (cfg : Config) (s : State) (r : Recv) : Option State :=
  match s.pc with
  | .receiving a => do
      let (t, ok) ← svcRecv cfg s.reg a r
      some { s with reg := t, pc := if ok then .received a else .status a a }
  | _ => none

/-- No service matches: `svcerr_noprog` and `svcerr_progvers` reply on the transport itself. -/
def refuse (s : State) (died : Bool) : Option State :=
  match s.pc with
  | .received a => do
      let x ← (s.reg.deref a).toOption
      let priv := match x.xpPriv with
        | .conn strmStat => .conn (if died then .died else strmStat)
        | ep => ep
      some { s with reg := s.reg.store a (svctcpReply x priv), pc := .status a a }
  | _ => none

def dispatch (cfg : Config) (s : State) (b : Addr) : Option State :=
  match s.pc with
  | .received a => do
      let (t, w) ← workerXprt s.reg a b
      let x ← (t.deref w).toOption
      match requestDispatch cfg x, cfg.mtmode with
      | .call y, 1 => some { s with
          reg := t.store w y
          pc := .waiting a w .enter
          workers := s.workers ++ [⟨w, x.mtxpClone, .running⟩] }
      | .call y, 2 => some { s with
          reg := t.store w y
          pc := .status a w
          workers := s.workers ++ [⟨w, x.mtxpClone, .running⟩] }
      | .gcMark, _ => do
          let t ← (t.xprtGcMark w).toOption
          some { s with reg := t, pc := .status a w }
      | _, _ => none
  | _ => none

def wait (cfg : Config) (s : State) : Option State :=
  match s.pc with
  | .waiting a w waiter => do
      let x ← (s.reg.deref w).toOption
      let (waiter, x) := Wait.waitOnGetargs cfg (waiter, x)
      some { s with
        reg := s.reg.store w x
        pc := if waiter = .done then .status a w else .waiting a w waiter }
  | _ => none

/-- The end of `get_single_request`, and what `svc_getreq_common_rv` makes of it. -/
def stat (s : State) (io : Reading) (eof : Bool) : Option State :=
  match s.pc with
  | .status a w => do
      let x ← (s.reg.deref w).toOption
      let (x, xrv) := svcStat x io eof
      let t := s.reg.store w { x with mtxpStat := xrv }
      match xrv with
      | .died => do
          let t ← (t.xprtGcMark w).toOption
          some { s with reg := t, pc := .polled }
      | .morereqs => some { s with reg := t, pc := .receiving a }
      | .idle => some { s with reg := t, pc := .polled }
  | _ => none

/-! ### The workers -/

inductive Call where
  | getargs
  | decode (rv : Bool) (io : Reading)
  | endGetargs
  | reply (stat died : Bool)
  | freeargs (rv : Bool)
  | svcReturn
  deriving DecidableEq

/-- The calls of a worker that change its transport only. -/
def callXprt (cfg : Config) (x : Svcxprt Endpoint) : WorkerPc → Call → Option (Svcxprt Endpoint × WorkerPc)
  | .running, .getargs => match x.xpPriv with
      | .udp => some (svcudpGetargs x .udp, .running)
      | .conn _ => some (x.setBusy 1, .decoding)
      | .rendezvous => none
  | .decoding, .decode rv io => match x.xpPriv with
      | .conn _ => some ((readtcp x io).setBusy 0, .decoded rv)
      | _ => none
  | .decoded rv, .endGetargs =>
      if cfg.failfast && !rv then none else some (endGetargs cfg x, .running)
  | .running, .reply stat died => match x.xpPriv with
      | .udp => some (svcudpReply x stat .udp, .running)
      | .conn strmStat => some (svctcpReply x (.conn (if died then .died else strmStat)), .running)
      | .rendezvous => none
  | .running, .freeargs rv => match x.xpPriv with
      | .udp => some (svcudpFreeargs x .udp, .running)
      | .conn strmStat => do
          let y ← (svctcpFreeargs cfg x rv (.conn strmStat)).toOption
          some (y, .running)
      | .rendezvous => none
  | .running, .svcReturn => some (x.setBusy 1, .busy)
  | .busy, .svcReturn => some (x.setProgress .returned, .returned)
  | .marked, .svcReturn => some (x.setBusy 0, .done)
  | _, _ => none

/-- The mark of a clone in `svc_return`. -/
def returnMark (s : Xports) (a : Addr) : Res Xports := do
  let x ← s.deref a
  if x.mtxpClone then
    if x.mtxpParent = noParent then .error .svcDie else s.xprtGcMark a
  else .ok s

def worker (cfg : Config) (s : State) (i : Nat) (c : Call) : Option State := do
  let w ← s.workers[i]?
  if w.pc = .returned ∧ c = .svcReturn then do
    let t ← (returnMark s.reg w.xprt).toOption
    some { s with reg := t, workers := s.workers.set i { w with pc := .marked } }
  else do
    let x ← (s.reg.deref w.xprt).toOption
    let (y, pc) ← callXprt cfg x w.pc c
    some { s with reg := s.reg.store w.xprt y, workers := s.workers.set i { w with pc := pc } }

/-! ### The whole -/

inductive Event where
  | svcudpCreate (a : Addr) (sock port : Nat) (stat : XprtStat)
  | svctcpCreate (a : Addr) (sock port : Nat) (stat : XprtStat)
  | reap
  | svcPoll (ready : Bool)
  | svcGetreqPoll (revents : Bool)
  | recv (r : Recv)
  | refuse (died : Bool)
  | dispatch (b : Addr)
  | wait
  | stat (io : Reading) (eof : Bool)
  | worker (i : Nat) (c : Call)
  deriving DecidableEq

def svcRunStep (cfg : Config) (s : State) : Event → Option State
  | .svcudpCreate a sock port stat => do
      let t ← svcCreate s.reg a sock port .udp stat
      some { s with reg := t }
  | .svctcpCreate a sock port stat => do
      let t ← svcCreate s.reg a sock port .rendezvous stat
      some { s with reg := t }
  | .reap => reap s
  | .svcPoll ready => svcPoll s ready
  | .svcGetreqPoll revents => svcGetreqPoll s revents
  | .recv r => recv cfg s r
  | .refuse died => refuse s died
  | .dispatch b => dispatch cfg s b
  | .wait => wait cfg s
  | .stat io eof => stat s io eof
  | .worker i c => worker cfg s i c

/-! ### The steps are those of the calls -/

/-- The events of one `svctcp_getargs` that reads nothing make up the call. -/
theorem svctcpGetargs_eq (cfg : Config) (x : Svcxprt Endpoint) (rv : Bool) :
    (svctcpGetargs cfg x rv x.xpPriv).toOption =
      if cfg.failfast && !rv then none
      else some (endGetargs cfg ((readtcp (x.setBusy 1) .unused).setBusy 0)) := by
  unfold svctcpGetargs
  dsimp only
  split
  · rfl
  · rfl

/-- The events of `svc_return` make up the call. -/
theorem svcReturn_eq {cfg : Config} (hmode : cfg.mtmode = 1 ∨ cfg.mtmode = 2) (x : Svcxprt Endpoint) :
    (svcReturn cfg x).toOption =
      if x.mtxpClone && x.mtxpParent == noParent then none
      else some (((x.setBusy 1).setProgress .returned).setBusy 0) := by
  unfold svcReturn
  rcases hmode with hmode | hmode
  all_goals
    simp only [hmode]
    split
    · rfl
    · rfl

end RpcMt.SvcRun
