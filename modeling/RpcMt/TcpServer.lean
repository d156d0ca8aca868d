import RpcMt.Runs
import RpcMt.TcpConn
import RpcMt.Wait

/-! One TCP connection at work: the dispatch thread in `svc_getreq_common_rv` and `request_dispatch`, and
the workers that it hands the connection to, in every mtmode. Beside the state of the program the
machine keeps, for each worker, the xid of its call and the place at which `svctcp_recv` left the
stream after that call, and it logs the replies and the decodings. A call on the stream is one event;
`svctcp_getargs` is two, its filter and what follows. -/

open RpcMt.Runs RpcMt.XdrRec

namespace RpcMt.Tcp

/-- A place in the incoming bytes of the connection. -/
structure Place where
  strm : RecStream
  taken : Nat
  deriving DecidableEq, Repr

def place (s : Stream Conn) : Place := ⟨s.strm, s.handle.2.taken⟩

/-- A worker: its call, where the arguments of the call begin, the status of a filter that has run in
a `svctcp_getargs` still under way, and what the worker has done already. -/
structure Worker where
  rmXid : Nat
  args : Place
  decoding : Option Bool
  decoded : Bool
  replied : Bool
  returned : Bool
  deriving DecidableEq, Repr

def Worker.new (rmXid : Nat) (args : Place) : Worker :=
  { rmXid := rmXid
    args := args
    decoding := none
    decoded := false
    replied := false
    returned := false }

/-- It has decoded its arguments, or never will. -/
def Worker.settled (w : Worker) : Bool := w.decoded || w.returned

/-- Where the dispatch thread is. -/
inductive Pc where
  | idle
  | receiving
  | received (msg : RpcMsg) (args : Place)
  | waitingReturn
  | waiting (waiter : Wait.Waiter)
  | status
  | closed
  deriving DecidableEq, Repr

/-- A reply: the xid that was sent, and that of the call. -/
structure Reply where
  sent : Nat
  call : Nat
  deriving DecidableEq, Repr

/-- A decoding: the place where the filter began, and where the arguments of the call began. -/
structure Decoding where
  found : Place
  args : Place
  deriving DecidableEq, Repr

structure TcpServer where
  conn : Stream Conn
  pc : Pc
  workerReturn : Bool
  workers : List Worker
  replies : List Reply
  decodings : List Decoding

namespace TcpServer

def xprt (s : TcpServer) : Svcxprt TcpConn := s.conn.handle.1

def setXprt (s : TcpServer) (x : Svcxprt TcpConn) : TcpServer :=
  { s with conn := onXprt (fun _ => x) s.conn }

/-- A connection as `makefd_xprt` makes it. -/
def start (sock recvsize : Nat) (stat : XprtStat) : TcpServer :=
  { conn := ⟨create recvsize, Svcxprt.newXprt sock 0 false ⟨.idle, 0⟩ stat, ⟨[], 0⟩⟩
    pc := .idle
    workerReturn := false
    workers := []
    replies := []
    decodings := [] }

@[simp] theorem workers_start (sock recvsize : Nat) (stat : XprtStat) :
    (start sock recvsize stat).workers = [] := rfl

@[simp] theorem pc_start (sock recvsize : Nat) (stat : XprtStat) : (start sock recvsize stat).pc = .idle := rfl

@[simp] theorem replies_start (sock recvsize : Nat) (stat : XprtStat) :
    (start sock recvsize stat).replies = [] := rfl

@[simp] theorem decodings_start (sock recvsize : Nat) (stat : XprtStat) :
    (start sock recvsize stat).decodings = [] := rfl

/-! ### The dispatch thread -/

/-- Something comes in on the socket. -/
def arrive (s : TcpServer) (r : Reading) : TcpServer :=
  let (x, net) := s.conn.handle
  { s with conn := ⟨s.conn.strm, x, { net with incoming := net.incoming ++ [r] }⟩ }

/-- `svc_poll` finds the connection ready, and `svc_getreq_common_rv` is called for it. -/
def svcPoll (cfg : Config) (s : TcpServer) : Option TcpServer :=
  match s.pc with
  | .idle =>
      if cfg.mtmode = 0 then
        if s.xprt.mtxpProgress .returned then
          some { s.setXprt { s.xprt with mtxpProgress := .zero, mtxpBusy := 0 } with pc := .receiving }
        else some { s with pc := .receiving }
      else if s.xprt.mtxpBusy = 0 then some { s with pc := .receiving }
      else none
  | _ => none

def recv (cfg : Config) (xdrCallmsg : RecFilter readtcp RpcMsg) (s : TcpServer) : Option TcpServer :=
  match s.pc with
  | .receiving => do
      let (r, conn) ← svctcpRecv cfg xdrCallmsg s.conn
      match r with
      | some msg => some { s with conn := conn, pc := .received msg (place conn) }
      | none => some { s with conn := conn, pc := .status }
  | _ => none

/-- No service matches the call, and the dispatch thread replies itself. -/
def refuse (s : TcpServer) (died : Bool) : Option TcpServer :=
  match s.pc with
  | .received msg _ =>
      let (sent, x) := svctcpReply s.xprt died
      some { s.setXprt x with pc := .status, replies := s.replies ++ [⟨sent, msg.rmXid⟩] }
  | _ => none

/-- A marked or destroyed connection is served no more. -/
def dispatch (cfg : Config) (s : TcpServer) : Option TcpServer :=
  match s.pc with
  | .received msg args =>
      let workers := s.workers ++ [.new msg.rmXid args]
      match requestDispatch cfg s.xprt, cfg.mtmode with
      | .call y, 0 =>
          some { s.setXprt y with pc := .waitingReturn, workerReturn := false, workers := workers }
      | .call y, 1 => some { s.setXprt y with pc := .waiting .enter, workers := workers }
      | .call y, 2 => some { s.setXprt y with pc := .status, workers := workers }
      | .gcMark, _ => some { s with pc := .status }
      | .destroy, _ => some { s with pc := .closed }
      | _, _ => none
  | _ => none

def wait (cfg : Config) (s : TcpServer) : Option TcpServer :=
  match s.pc with
  | .waitingReturn =>
      if 0 < Wait.jiffiesPerInterval cfg ∧ s.workerReturn = true then some { s with pc := .status }
      else some s
  | .waiting waiter =>
      let (waiter, x) := Wait.waitOnGetargs cfg (waiter, s.xprt)
      some { s.setXprt x with pc := if waiter = .done then .status else .waiting waiter }
  | _ => none

def stat (s : TcpServer) : Option TcpServer :=
  match s.pc with
  | .status => do
      let (xrv, conn) ← svctcpStat s.conn
      let s := { s with conn := conn }
      let s := s.setXprt { s.xprt with mtxpStat := xrv }
      match xrv with
      | .died => some { s with pc := .closed }
      | .morereqs => some { s with pc := .receiving }
      | .idle => some { s with pc := .idle }
  | _ => none

/-! ### The workers -/

/-- Worker `i`, as long as it has not returned. -/
def running (s : TcpServer) (i : Nat) : Option Worker :=
  (s.workers[i]?).filter fun w => !w.returned

def setWorker (s : TcpServer) (i : Nat) (w : Worker) : TcpServer :=
  { s with workers := s.workers.set i w }

/-- `svc_getargs`; the first one is logged. -/
def getargs (s : TcpServer) (i : Nat) (xdrArgs : RecFilter readtcp Unit) : Option TcpServer := do
  let w ← s.running i
  if w.decoding = none then do
    let (rv, conn) ← svctcpGetargs xdrArgs s.conn
    let log := if w.decoded then [] else [⟨place s.conn, w.args⟩]
    some { s.setWorker i { w with decoding := some rv, decoded := true } with
      conn := conn, decodings := s.decodings ++ log }
  else none

def endGetargs (cfg : Config) (s : TcpServer) (i : Nat) : Option TcpServer := do
  let w ← s.running i
  let rv ← w.decoding
  if cfg.failfast && !rv then none
  else some ((s.setXprt (RpcMt.endGetargs cfg s.xprt)).setWorker i { w with decoding := none })

def reply (s : TcpServer) (i : Nat) (died : Bool) : Option TcpServer := do
  let w ← s.running i
  if w.decoding = none then
    let (sent, x) := svctcpReply s.xprt died
    some { (s.setXprt x).setWorker i { w with replied := true } with
      replies := s.replies ++ [⟨sent, w.rmXid⟩] }
  else none

def freeargs (cfg : Config) (s : TcpServer) (i : Nat) (rv : Bool) : Option TcpServer := do
  let w ← s.running i
  if w.decoding = none then do
    let x ← (svctcpFreeargs cfg s.xprt rv s.xprt.xpPriv).toOption
    some (s.setXprt x)
  else none

def ret (cfg : Config) (s : TcpServer) (i : Nat) : Option TcpServer := do
  let w ← s.running i
  if w.decoding = none then do
    let x ← (svcReturn cfg s.xprt).toOption
    some { (s.setXprt x).setWorker i { w with returned := true } with
      workerReturn := s.workerReturn || cfg.mtmode == 0 }
  else none

/-! ### The whole -/

inductive Event where
  | arrive (r : Reading)
  | svcPoll
  | recv
  | refuse (died : Bool)
  | dispatch
  | wait
  | stat
  | getargs (i : Nat) (xdrArgs : RecFilter readtcp Unit)
  | endGetargs (i : Nat)
  | reply (i : Nat) (died : Bool)
  | freeargs (i : Nat) (rv : Bool)
  | ret (i : Nat)

def step (cfg : Config) (xdrCallmsg : RecFilter readtcp RpcMsg) (s : TcpServer) :
    Event → Option TcpServer
  | .arrive r => some (s.arrive r)
  | .svcPoll => s.svcPoll cfg
  | .recv => s.recv cfg xdrCallmsg
  | .refuse died => s.refuse died
  | .dispatch => s.dispatch cfg
  | .wait => s.wait cfg
  | .stat => s.stat
  | .getargs i xdrArgs => s.getargs i xdrArgs
  | .endGetargs i => s.endGetargs cfg i
  | .reply i died => s.reply i died
  | .freeargs i rv => s.freeargs cfg i rv
  | .ret i => s.ret cfg i

/-! ### What each event does -/

section Effects

variable {cfg : Config} {s t : TcpServer}

@[simp] theorem xprt_setXprt (s : TcpServer) (x : Svcxprt TcpConn) : (s.setXprt x).xprt = x := rfl

@[simp] theorem place_setXprt (s : TcpServer) (x : Svcxprt TcpConn) :
    place (s.setXprt x).conn = place s.conn := rfl

theorem svcPoll_ok (h : s.svcPoll cfg = some t) :
    s.pc = .idle ∧ ∃ x, t = { s.setXprt x with pc := .receiving } ∧ x.xpPriv = s.xprt.xpPriv ∧
      (cfg.mtmode = 0 ∨ x = s.xprt) := by
  unfold svcPoll at h
  split at h
  · rename_i hpc
    refine ⟨hpc, ?_⟩
    split at h
    · rename_i hmode
      split at h
      · cases h
        exact ⟨_, rfl, rfl, Or.inl hmode⟩
      · cases h
        exact ⟨s.xprt, rfl, rfl, Or.inr rfl⟩
    · split at h
      · cases h
        exact ⟨s.xprt, rfl, rfl, Or.inr rfl⟩
      · cases h
  · cases h

theorem recv_ok {xdrCallmsg : RecFilter readtcp RpcMsg} (h : s.recv cfg xdrCallmsg = some t) :
    s.pc = .receiving ∧ ∃ r conn, svctcpRecv cfg xdrCallmsg s.conn = some (r, conn) ∧
      t = { s with conn := conn, pc := match r with
        | some msg => .received msg (place conn)
        | none => .status } := by
  unfold recv at h
  split at h
  · rename_i hpc
    obtain ⟨⟨r, conn⟩, hr, h⟩ := Option.bind_eq_some_iff.mp h
    refine ⟨hpc, r, conn, hr, ?_⟩
    cases r with
    | some msg =>
        cases h
        rfl
    | none =>
        cases h
        rfl
  · cases h

theorem refuse_ok {died : Bool} (h : s.refuse died = some t) :
    ∃ msg args, s.pc = .received msg args ∧ t = { s.setXprt (svctcpReply s.xprt died).2 with
      pc := .status, replies := s.replies ++ [⟨s.xprt.xpPriv.xId, msg.rmXid⟩] } := by
  unfold refuse at h
  split at h
  · rename_i msg args hpc
    cases h
    exact ⟨msg, args, hpc, rfl⟩
  · cases h

/-- A call that is dispatched gives a worker, and the wait of the mode. -/
inductive Dispatched (cfg : Config) (s t : TcpServer) (msg : RpcMsg) (args : Place) : Prop
  | dropped (pc : Pc) (hpc : pc = .status ∨ pc = .closed) (ht : t = { s with pc := pc })
  | handed (y : Svcxprt TcpConn) (pc : Pc) (workerReturn : Bool)
      (hreq : requestDispatch cfg s.xprt = .call y)
      (hpc : (cfg.mtmode = 0 ∧ pc = .waitingReturn ∧ workerReturn = false) ∨
        (cfg.mtmode = 1 ∧ pc = .waiting .enter) ∨ (cfg.mtmode = 2 ∧ pc = .status))
      (ht : t = { s.setXprt y with
        pc := pc, workerReturn := workerReturn, workers := s.workers ++ [.new msg.rmXid args] })

theorem dispatch_ok (h : s.dispatch cfg = some t) :
    ∃ msg args, s.pc = .received msg args ∧ Dispatched cfg s t msg args := by
  unfold dispatch at h
  split at h
  · rename_i msg args hpc
    refine ⟨msg, args, hpc, ?_⟩
    dsimp only at h
    split at h
    · rename_i y hreq hmode
      cases h
      exact .handed y _ _ hreq (Or.inl ⟨hmode, rfl, rfl⟩) rfl
    · rename_i y hreq hmode
      cases h
      exact .handed y _ _ hreq (Or.inr (Or.inl ⟨hmode, rfl⟩)) rfl
    · rename_i y hreq hmode
      cases h
      exact .handed y _ _ hreq (Or.inr (Or.inr ⟨hmode, rfl⟩)) rfl
    · cases h
      exact .dropped _ (Or.inl rfl) rfl
    · cases h
      exact .dropped _ (Or.inr rfl) rfl
    · cases h
  · cases h

theorem wait_ok (h : s.wait cfg = some t) :
    (s.pc = .waitingReturn ∧ (t = s ∨ (s.workerReturn = true ∧ t = { s with pc := .status }))) ∨
    ∃ waiter, s.pc = .waiting waiter ∧
      t = { s.setXprt (Wait.waitOnGetargs cfg (waiter, s.xprt)).2 with
        pc := if (Wait.waitOnGetargs cfg (waiter, s.xprt)).1 = .done then .status
          else .waiting (Wait.waitOnGetargs cfg (waiter, s.xprt)).1 } := by
  unfold wait at h
  split at h
  · rename_i hpc
    split at h
    · rename_i hret
      cases h
      exact Or.inl ⟨hpc, Or.inr ⟨hret.2, rfl⟩⟩
    · cases h
      exact Or.inl ⟨hpc, Or.inl rfl⟩
  · rename_i waiter hpc
    cases h
    exact Or.inr ⟨waiter, hpc, rfl⟩
  · cases h

theorem stat_ok (h : s.stat = some t) :
    s.pc = .status ∧ ∃ xrv conn pc, svctcpStat s.conn = some (xrv, conn) ∧
      (pc = .closed ∨ pc = .receiving ∨ pc = .idle) ∧
      t = { s with conn := onXprt (fun x => { x with mtxpStat := xrv }) conn, pc := pc } := by
  unfold stat at h
  split at h
  · rename_i hpc
    obtain ⟨⟨xrv, conn⟩, hstat, h⟩ := Option.bind_eq_some_iff.mp h
    cases xrv with
    | died =>
        cases h
        exact ⟨hpc, .died, conn, .closed, hstat, Or.inl rfl, rfl⟩
    | morereqs =>
        cases h
        exact ⟨hpc, .morereqs, conn, .receiving, hstat, Or.inr (Or.inl rfl), rfl⟩
    | idle =>
        cases h
        exact ⟨hpc, .idle, conn, .idle, hstat, Or.inr (Or.inr rfl), rfl⟩
  · cases h

theorem running_ok {i : Nat} {w : Worker} (h : s.running i = some w) :
    s.workers[i]? = some w ∧ w.returned = false := by
  obtain ⟨hw, hret⟩ := Option.filter_eq_some_iff.mp h
  exact ⟨hw, by simpa using hret⟩

theorem getargs_ok {i : Nat} {xdrArgs : RecFilter readtcp Unit} (h : s.getargs i xdrArgs = some t) :
    ∃ w rv conn, s.workers[i]? = some w ∧ w.returned = false ∧
      svctcpGetargs xdrArgs s.conn = some (rv, conn) ∧
      t = { s.setWorker i { w with decoding := some rv, decoded := true } with
        conn := conn
        decodings := s.decodings ++ if w.decoded then [] else [⟨place s.conn, w.args⟩] } := by
  obtain ⟨w, hw, h⟩ := Option.bind_eq_some_iff.mp h
  obtain ⟨hw, hret⟩ := running_ok hw
  split at h
  · obtain ⟨⟨rv, conn⟩, hrun, h⟩ := Option.bind_eq_some_iff.mp h
    cases h
    exact ⟨w, rv, conn, hw, hret, hrun, rfl⟩
  · cases h

theorem endGetargs_ok {i : Nat} (h : s.endGetargs cfg i = some t) :
    ∃ w, s.workers[i]? = some w ∧ w.returned = false ∧ w.decoding.isSome = true ∧
      t = (s.setXprt (RpcMt.endGetargs cfg s.xprt)).setWorker i { w with decoding := none } := by
  obtain ⟨w, hw, h⟩ := Option.bind_eq_some_iff.mp h
  obtain ⟨hw, hret⟩ := running_ok hw
  obtain ⟨rv, hrv, h⟩ := Option.bind_eq_some_iff.mp h
  split at h
  · cases h
  · cases h
    exact ⟨w, hw, hret, by rw [hrv]; rfl, rfl⟩

theorem reply_ok {i : Nat} {died : Bool} (h : s.reply i died = some t) :
    ∃ w, s.workers[i]? = some w ∧ w.returned = false ∧
      t = { (s.setXprt (svctcpReply s.xprt died).2).setWorker i { w with replied := true } with
        replies := s.replies ++ [⟨s.xprt.xpPriv.xId, w.rmXid⟩] } := by
  obtain ⟨w, hw, h⟩ := Option.bind_eq_some_iff.mp h
  obtain ⟨hw, hret⟩ := running_ok hw
  split at h
  · cases h
    exact ⟨w, hw, hret, rfl⟩
  · cases h

theorem freeargs_ok {i : Nat} {rv : Bool} (h : s.freeargs cfg i rv = some t) :
    t = s.setXprt (s.xprt.setProgress .freeargs) := by
  obtain ⟨w, _, h⟩ := Option.bind_eq_some_iff.mp h
  split at h
  · obtain ⟨x, hx, h⟩ := Option.bind_eq_some_iff.mp h
    cases h
    unfold svctcpFreeargs at hx
    split at hx
    · cases hx
    · cases hx
      rfl
  · cases h

theorem ret_ok {i : Nat} (h : s.ret cfg i = some t) :
    ∃ w x, s.workers[i]? = some w ∧ w.returned = false ∧ w.decoding = none ∧
      svcReturn cfg s.xprt = .ok x ∧
      t = { (s.setXprt x).setWorker i { w with returned := true } with
        workerReturn := s.workerReturn || cfg.mtmode == 0 } := by
  obtain ⟨w, hw, h⟩ := Option.bind_eq_some_iff.mp h
  obtain ⟨hw, hret⟩ := running_ok hw
  split at h
  · rename_i hdec
    obtain ⟨x, hx, h⟩ := Option.bind_eq_some_iff.mp h
    cases h
    exact ⟨w, x, hw, hret, hdec, toOption_ok hx, rfl⟩
  · cases h

end Effects

end TcpServer

end RpcMt.Tcp
