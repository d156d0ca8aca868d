import RpcMt.Arrays
import RpcMt.Registry
import RpcMt.Runs

/-! The arrays of the server, from `create_xports` and `pollfd_realloc` to `svc_exit` and
`svc_shutdown`. Each access of the server loop to one of them is a step of its own, so that either
routine can be called between any two: by a service, by a signal handler, by another thread. Of the
arrays only `pollfdv` keeps its length, since another bound is not what is freed; what the other tables
hold, what the peers send and what the services do is part of the events. What the workers access is
left out, and so are the traces and `svc_die`, which aborts. -/

open RpcMt.Arrays

namespace RpcMt.Termination

/-- The arrays of `svc.c`. -/
inductive Table where
  | xports
  | xportsView
  | sockXports
  | sockSfr
  | xportsIdset
  | xprtgcIdset
  | xportsPollfd
  deriving DecidableEq

/-- The variables that own an array: those of `svc.c`, the static of `pollfd_realloc`, and `l1_vec`
with its entries, the callouts. -/
inductive Global where
  | table (t : Table)
  | prevPollfd
  | l1Vec
  | callout (i : Nat)
  deriving DecidableEq

/-- An access to the arrays, or a test of `xports` with the accesses it guards. -/
inductive Act where
  | index (t : Table)
  | guarded (ts : List Table)
  | createXports
  | initPollfd (vacant : Bool)
  | pollfdRemove
  | pollfdv (i : Nat)
  | callouts
  deriving DecidableEq

/-- The calls of `xprt_gc_reap_all`. -/
inductive Caller where
  | svcRun (max : Nat)
  | svcGetreqCommon (npoll i : Nat)
  | svcGetreqPoll
  deriving DecidableEq

/-- How far a descriptor is that `svc_getreq_poll_mt` serves: not begun, past `check_xports`, its
transport looked up, about to be read, in its service, or past it. -/
inductive Stage where
  | getreqPoll
  | common
  | found
  | recv
  | service
  | stat
  deriving DecidableEq

/-- Where the server loop is, once the pending accesses are made. -/
inductive Pc where
  | idle
  | top
  | test (max : Nat)
  | cleanup
  | fsckBusy (c : Caller)
  | reapAll (c : Caller)
  | countBusy (max : Nat)
  | svcPoll (max : Nat)
  | scan (max i npoll : Nat)
  | poll (max npoll : Nat)
  | serving (st : Stage) (npoll i : Nat)
  deriving DecidableEq

/-- `svcHead` is the callout list, each callout named by its index in `l1_vec`. -/
structure Server where
  heap : Heap Global
  pollfdv : Option Nat
  prevPollfdAlloc : Nat
  maxPollfd : Nat
  svcQuit : Bool
  svcHead : List Nat
  l1Len : Nat
  code : List Act
  pc : Pc

structure Process where
  mtmode : Nat
  dtablesize : Nat

def start : Server :=
  { heap := Heap.empty
    pollfdv := none
    prevPollfdAlloc := 0
    maxPollfd := 0
    svcQuit := false
    svcHead := []
    l1Len := 0
    code := []
    pc := .idle }

/-! ### The arrays -/

/-- What a call on the heap leaves, where NULL, a dangling pointer and a second `free` are faults. -/
def faulty (h : Option (Heap Global)) : Res (Heap Global) :=
  match h with
  | some h => .ok h
  | none => .error .badPointer

namespace Server

/-- The test `xports == NULL`. -/
def noXports (s : Server) : Bool := (s.heap.ptr (.table .xports)).isNone

def live (s : Server) (g : Global) : Bool := (s.heap.arr g).isSome

def index (s : Server) (g : Global) : Res Server := if s.live g then .ok s else .error .badPointer

end Server

/-- The arrays in the order in which `create_xports` allocates them. -/
def createOrder : List Global :=
  [.table .xports, .table .xportsView, .table .sockXports, .table .sockSfr, .table .xportsIdset,
    .table .xprtgcIdset, .table .xportsPollfd]

def createXports (p : Process) (s : Server) : Server :=
  let size := if Registry.fdSetsize < p.dtablesize then Registry.fdSetsize else p.dtablesize
  { s with heap := s.heap.mallocAll createOrder size, maxPollfd := 0 }

def perform (p : Process) (s : Server) : Act → Res Server
  | .index t => s.index (.table t)
  | .guarded ts =>
      if s.noXports || ts.all (fun t => s.live (.table t)) then .ok s else .error .badPointer
  | .createXports => .ok (if s.noXports then createXports p s else s)
  | .initPollfd vacant => do
      let s ← s.index (.table .xportsPollfd)
      pure (if vacant && decide (0 < s.maxPollfd) then s else { s with maxPollfd := s.maxPollfd + 1 })
  | .pollfdRemove => if s.maxPollfd = 0 then .ok s else s.index (.table .xportsPollfd)
  | .pollfdv i => match s.heap.find s.pollfdv with
      | none => .error .badPointer
      | some n => if i < n then .ok s else .error .slotOutOfBounds
  | .callouts =>
      if s.svcHead.all (fun i => s.live (.callout i)) then .ok s else .error .badPointer

def performAll (p : Process) (s : Server) : List Act → Res Server
  | [] => .ok s
  | a :: acts => do
      let s ← perform p s a
      performAll p s acts

/-! ### The accesses of the registry -/

/-- `xprt_register`; `vacant` is whether `init_pollfd` finds a slot that was given up. -/
def xprtRegister (clone vacant : Bool) : List Act :=
  [.createXports, .index .xportsIdset, .index .xports] ++
    if clone then [.index .xports]
    else [.index .sockXports, .index .sockSfr, .index .sockXports, .initPollfd vacant]

/-- `check_svcxprt_exists`. -/
def xprtExists : Act := .guarded [.xports]

/-- `xprt_unregister`, all that `SVC_DESTROY` does here. -/
def xprtUnregister (clone : Bool) : List Act :=
  [xprtExists, .index .xports] ++
    (if clone then [.index .xports] else [.pollfdRemove, .index .sockXports]) ++
    [.index .xports, .index .xportsIdset]

def checkXports : Act := .guarded [.xports, .sockXports, .xportsIdset]

/-- What the loop of `xprt_gc_reap_all` finds at an id: no mark, a mark on no transport, on one that
is still referred to, or on one that it destroys. -/
inductive Reap where
  | unmarked
  | gone
  | referred
  | destroyed (clone : Bool)
  deriving DecidableEq

def xprtGcReapTurn : Reap → List Act
  | .unmarked => [.index .xprtgcIdset]
  | .gone => [.index .xprtgcIdset, .index .xprtgcIdset, .index .xports]
  | .referred =>
      [.index .xprtgcIdset, .index .xprtgcIdset, .index .xports, .index .xprtgcIdset, .index .xports,
        .index .xprtgcIdset]
  | .destroyed clone =>
      [.index .xprtgcIdset, .index .xprtgcIdset, .index .xports, .index .xprtgcIdset, .index .xports] ++
        xprtUnregister clone ++ [.index .xports, .index .xprtgcIdset]

def xprtGcMark : List Act := [.index .xprtgcIdset, .index .xprtgcIdset]

/-- What the dispatcher does with a transport that it is done with: `SVC_DESTROY` in mtmode 0, where
there are no clones. -/
def retire (p : Process) : List Act := if p.mtmode = 0 then xprtUnregister false else xprtGcMark

/-! ### `svc_poll` and `pollfd_realloc` -/

def fdAllocGranularity : Nat := 64

def fdAllocRoundup (count : Nat) : Nat :=
  (count + fdAllocGranularity - 1) / fdAllocGranularity * fdAllocGranularity

/-- `pollfdv = pollfd_realloc(nfd)`. -/
def pollfdRealloc (s : Server) (nfd : Nat) : Res Server :=
  if s.prevPollfdAlloc < fdAllocRoundup nfd then do
    let h ← faulty (s.heap.realloc .prevPollfd (fdAllocRoundup nfd))
    pure { s with
      heap := h
      prevPollfdAlloc := fdAllocRoundup nfd
      pollfdv := h.ptr .prevPollfd }
  else .ok { s with pollfdv := s.heap.ptr .prevPollfd }

/-- What `svc_poll` finds in a slot: no descriptor, one that it does not poll, or one that it does. -/
inductive Slot where
  | unused
  | skipped
  | polled
  deriving DecidableEq

def slotCode (npoll : Nat) : Slot → List Act
  | .unused => [.index .xportsPollfd]
  | .skipped => [.index .xportsPollfd, .index .sockXports]
  | .polled =>
      [.index .xportsPollfd, .index .sockXports, .pollfdv npoll, .index .xportsPollfd, .pollfdv npoll,
        .pollfdv npoll]

def svcRunCleanup (s : Server) : Res Server := do
  let h ← faulty (s.heap.free s.pollfdv)
  pure { s with heap := h }

/-! ### Control -/

/-- What `SVC_RECV` and the lookup of the service make of a descriptor: nothing, a connection that is
accepted, a call that is refused, one whose transport has not been reused since its last call, or one
that is dispatched, on a clone or not. -/
inductive Recv where
  | fail
  | accept (vacant : Bool)
  | refused
  | returned
  | dispatch (clone : Bool)
  deriving DecidableEq

def recvCode (p : Process) : Recv → List Act
  | .fail => []
  | .accept vacant => xprtRegister false vacant
  | .refused => [.callouts]
  | .returned => .callouts :: retire p
  | .dispatch clone =>
      .callouts :: if clone && decide (p.mtmode ≠ 0) then xprtRegister true false else []

def Recv.stage : Recv → Stage
  | .dispatch _ => .service
  | _ => .stat

/-- Which way control goes on: what a branch of the source is taken on, where this state does not
decide it. -/
inductive Go where
  | next
  | again
  | reap (r : Reap)
  | slot (k : Slot)
  | ready
  | fd (revents : Bool)
  | xprt
  | recv (r : Recv)
  | stat (st : XprtStat)
  deriving DecidableEq

def Server.goTo (s : Server) (code : List Act) (pc : Pc) : Server := { s with code := code, pc := pc }

/-- `xprt_gc_reap_all` begins with `fsck_busy`, which reads `xports[0]` whatever there is. -/
def xprtGcReapAll (s : Server) (c : Caller) : Server := s.goTo [.index .xports] (.fsckBusy c)

/-- What follows `xprt_gc_reap_all`: `rate_limit`, whose `count_busy` reads `xports[0]` too, the lookup
of the descriptor, or the return to `svc_run`. -/
def reaped (s : Server) : Caller → Server
  | .svcRun max => s.goTo [.index .xports] (.countBusy max)
  | .svcGetreqCommon npoll i => s.goTo [.index .sockXports] (.serving .found npoll i)
  | .svcGetreqPoll => s.goTo [] .top

/-- The body of `svc_getreq_poll_mt` for one descriptor at a time. -/
def serve (p : Process) (s : Server) (npoll i : Nat) : Stage → Go → Option Server
  | .getreqPoll, .fd false =>
      if i < npoll then some (s.goTo [.pollfdv i] (.serving .getreqPoll npoll (i + 1))) else none
  | .getreqPoll, .fd true =>
      if i < npoll then some (s.goTo [.pollfdv i, checkXports] (.serving .common npoll (i + 1)))
      else none
  | .getreqPoll, .next => some (if p.mtmode = 0 then s.goTo [] .top else xprtGcReapAll s .svcGetreqPoll)
  | .common, .next => some
      (if p.mtmode = 0 then reaped s (.svcGetreqCommon npoll i)
      else xprtGcReapAll s (.svcGetreqCommon npoll i))
  | .found, .next => some (s.goTo [] (.serving .getreqPoll npoll i))
  | .found, .xprt => some (s.goTo [xprtExists] (.serving .recv npoll i))
  | .recv, .recv r => some (s.goTo (recvCode p r) (.serving r.stage npoll i))
  | .service, .next => some (s.goTo [] (.serving .stat npoll i))
  | .stat, .stat .died => some (s.goTo (retire p) (.serving .getreqPoll npoll i))
  | .stat, .stat .morereqs => some (s.goTo [] (.serving .recv npoll i))
  | .stat, .stat .idle => some (s.goTo [] (.serving .getreqPoll npoll i))
  | _, _ => none

/-- `svc_run`, `svc_poll` and what they call, from one place to the next. -/
def go (p : Process) (s : Server) : Pc → Go → Option (Res Server)
  | .top, .next => some (.ok (if s.svcQuit then s.goTo [] .cleanup else s.goTo [] (.test s.maxPollfd)))
  | .test max, .next => some (.ok
      (if max = 0 ∧ s.heap.ptr (.table .xportsPollfd) = none then s.goTo [] .cleanup
      else xprtGcReapAll s (.svcRun max)))
  | .cleanup, .next => some do
      let s ← svcRunCleanup s
      pure (s.goTo [] .idle)
  | .fsckBusy c, .again => some (.ok (s.goTo [.index .xports] (.fsckBusy c)))
  | .fsckBusy c, .next => some (.ok (s.goTo [] (.reapAll c)))
  | .reapAll c, .reap r => some (.ok (s.goTo (xprtGcReapTurn r) (.reapAll c)))
  | .reapAll c, .next => some (.ok (reaped s c))
  | .countBusy max, .again => some (.ok (s.goTo [.index .xports] (.countBusy max)))
  | .countBusy max, .next => some (.ok (s.goTo [] (.svcPoll max)))
  | .svcPoll max, .next => some do
      let s ← pollfdRealloc s max
      pure (s.goTo [] (.scan max 0 0))
  | .scan max i npoll, .slot k =>
      if i < max then some (.ok (s.goTo (slotCode npoll k)
        (.scan max (i + 1) (if k = .polled then npoll + 1 else npoll))))
      else none
  | .scan max i npoll, .next => if i < max then none else some (.ok (s.goTo [] (.poll max npoll)))
  | .poll _ _, .next => some (.ok (s.goTo [] .top))
  | .poll _ npoll, .ready =>
      if 0 < npoll then
        some (.ok (s.goTo ((List.range npoll).map .pollfdv) (.serving .getreqPoll npoll 0)))
      else none
  | .serving st npoll i, g => (serve p s npoll i st g).map .ok
  | _, _ => none

/-! ### `svc_exit`, `svc_shutdown` and the callouts -/

/-- The arrays that `xports_free` frees, in its order. -/
def freedByExit : List Table := [.xports, .xportsPollfd]

/-- `svc_exit` is `xports_free`. -/
def svcExit (s : Server) : Res Server := do
  let h ← faulty (s.heap.dropAll (freedByExit.map .table))
  pure { s with heap := h, maxPollfd := 0 }

/-- What a loop of `xprt_destroy_all` does at an id: nothing, or the destruction of the transport. -/
def destroyTurn : Option Bool → List Act
  | none => [.index .xports]
  | some clone => .index .xports :: (xprtUnregister clone ++ [.index .xports])

/-- `xprt_destroy_all`. Its loops read `xports[0]` whatever there is. -/
def xprtDestroyAll (turns : List (Option Bool)) : List Act :=
  .index .xports :: turns.flatMap destroyTurn

/-- The arrays in the order in which `destroy_xports` frees them. -/
def destroyOrder : List Global :=
  [.table .xports, .table .xportsView, .table .sockXports, .table .xportsPollfd, .table .xportsIdset,
    .table .xprtgcIdset, .table .sockSfr]

def destroyXports (s : Server) : Res Server := do
  let h ← faulty (s.heap.freeAll destroyOrder)
  pure { s with heap := h }

/-- The callouts of `l1_vec`, those that `svc_unregister` has freed included. -/
def l1Entries (s : Server) : List Global := (List.range s.l1Len).map .callout

def svcL1Cleanup (s : Server) : Res Server :=
  if s.heap.ptr .l1Vec = none then .ok s
  else do
    let s ← s.index .l1Vec
    let h ← faulty (s.heap.dropAll (l1Entries s))
    let h ← faulty (h.free (h.ptr .l1Vec))
    pure { s with heap := h }

def svcShutdown (p : Process) (s : Server) (turns : List (Option Bool)) : Res Server := do
  let s ← performAll p { s with svcQuit := true } (xprtDestroyAll turns)
  let s ← destroyXports s
  let s ← svcRunCleanup s
  svcL1Cleanup s

def l1InitSize : Nat := 64

/-- The first part of `svc_l1_alloc`: room in `l1_vec`. Its new size is forgotten, so from 64 entries
on every call makes the array anew. -/
def svcL1Room (s : Server) : Res Server :=
  if s.heap.ptr .l1Vec = none then .ok { s with heap := s.heap.malloc .l1Vec l1InitSize, l1Len := 0 }
  else if l1InitSize ≤ s.l1Len then do
    let h ← faulty (s.heap.realloc .l1Vec (l1InitSize * 16 / 10))
    pure { s with heap := h }
  else .ok s

/-- `svc_l1_alloc`, for a callout. -/
def svcL1Alloc (s : Server) : Res Server := do
  let s ← svcL1Room s
  let s ← s.index .l1Vec
  pure { s with heap := s.heap.malloc (.callout s.l1Len) 1, l1Len := s.l1Len + 1 }

/-- `svc_register`; `found` is whether the program and its version are there already. -/
def svcRegister (p : Process) (s : Server) (found : Bool) : Res Server := do
  let s ← performAll p s [xprtExists, .callouts]
  if found then pure s
  else do
    let s' ← svcL1Alloc s
    pure { s' with svcHead := (s'.l1Len - 1) :: s'.svcHead }

/-- `svc_unregister` of a callout that is there. Its entry in `l1_vec` stays. -/
def svcUnregister (p : Process) (s : Server) (i : Nat) : Res Server := do
  let s ← perform p s .callouts
  let h ← faulty (s.heap.free (s.heap.ptr (.callout i)))
  perform p { s with heap := h, svcHead := s.svcHead.erase i } .callouts

/-! ### The whole -/

/-- One access, one move of control, or a call from outside the loop. A service or a program that does
not serve yet may register transports. -/
inductive Event where
  | act
  | go (g : Go)
  | svcRun
  | svcExit
  | svcShutdown (turns : List (Option Bool))
  | svcCreate (vacant : Bool)
  | svcRegister (found : Bool)
  | svcUnregister (i : Nat)
  deriving DecidableEq

/-- One access. What a test of `xports` guards is accessed in steps of its own. -/
def actStep (p : Process) (s : Server) : Option (Res Server) :=
  match s.code with
  | [] => none
  | .guarded ts :: code => some (.ok
      { s with code := if s.noXports then code else ts.map .index ++ code })
  | a :: code => some (perform p { s with code := code } a)

/-- `svc_run` up to its loop: `poll_init` and `xports_init`. -/
def svcRun (s : Server) : Server := { s with pollfdv := none, code := [.createXports], pc := .top }

def Pc.atService : Pc → Bool
  | .idle => true
  | .serving .service _ _ => true
  | _ => false

def serverStep (p : Process) (s : Server) : Event → Option (Res Server)
  | .act => actStep p s
  | .go g => if s.code = [] then go p s s.pc g else none
  | .svcRun => if s.code = [] ∧ s.pc = .idle then some (.ok (svcRun s)) else none
  | .svcExit => some (svcExit s)
  | .svcShutdown turns => some (svcShutdown p s turns)
  | .svcCreate vacant =>
      if s.code = [] ∧ s.pc.atService then some (.ok { s with code := xprtRegister false vacant })
      else none
  | .svcRegister found => some (svcRegister p s found)
  | .svcUnregister i => if i ∈ s.svcHead then some (svcUnregister p s i) else none

/-- A fault ends the program. -/
def step (p : Process) : Res Server → Event → Option (Res Server)
  | .error _, _ => none
  | .ok s, e => serverStep p s e

end RpcMt.Termination
