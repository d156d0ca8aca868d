import RpcMt.GetReq
import RpcMt.Shutdown
import RpcMt.TcpPoll
import RpcMt.TerminationMoves

/-! The rounds of `svc_run`: what is marked is reaped, `svc_poll` collects the descriptors of the transports that
are not busy, and `svc_getreq_poll_mt` gives those that are ready to `svc_getreq_common`. Other threads register,
destroy and mark transports in between, and their calls change transports. They keep to an order: what is registered
is a new transport, on a socket that is inside the tables and has no entry, while there are ids left, and a master is
destroyed after its clones. The id sets are exact; `Registry.reached_toExact` says of registrations, clonings and
destructions when those of `bitvec.c` are. The end of the loop, the waits of `rate_limit` and the field `events`,
which is the same in every slot, are left out. -/

open RpcMt.Runs

namespace RpcMt.Rounds

open Registry

variable {π H : Type}

/-- An entry of the array after `poll`. -/
structure Pollfd where
  fd : Nat
  revents : Tcp.Revents
  deriving DecidableEq

/-- Where the thread of `svc_run` is: at the top of the loop, before `svc_poll`, in the loop of `svc_getreq_poll_mt`
or in that of `svc_getreq_common_rv` inside it, or at the end of `svc_getreq_poll_mt`. -/
inductive Pc where
  | top
  | polling (maxPollfd : Nat)
  | scanning (pollfdv : List Pollfd) (fdsFound : Nat)
  | requests (a : Addr) (pollfdv : List Pollfd) (fdsFound : Nat)
  | collecting
  deriving DecidableEq

/-- `polled` and `pollretval` are what the last `poll` has left, and `served` are the descriptors that have been
given to `svc_getreq_common` since. -/
structure Server (π : Type) where
  reg : Registry ExactSet π
  prevPollfdAlloc : Nat
  pc : Pc
  polled : List Pollfd
  pollretval : Nat
  served : List Nat

def start (dtablesize : Nat) : Server π := ⟨createXports dtablesize, 0, .top, [], 0, []⟩

/-! ### `svc_poll` -/

/-- What `svc_poll` makes of a transport: one that has returned is used again where there are no threads. -/
def reused (mtmode : Nat) (x : Svcxprt π) : Svcxprt π :=
  if mtmode = 0 ∧ x.mtxpProgress .returned = true then { x with mtxpProgress := .zero, mtxpBusy := 0 } else x

/-- One turn of the loop of `svc_poll`, with the descriptors that it has written to the array so far. -/
def pollSlot (mtmode alloc slot : Nat) (s : Registry ExactSet π) (pollfdv : List Nat) :
    Res (Registry ExactSet π × List Nat) :=
  match s.pollfd slot with
  | none => .ok (s, pollfdv)
  | some fd => do
      let entry ← s.sockXportsAt fd
      if entry = .bad then pure (s, pollfdv)
      else do
        let (a, x) ← s.derefPtr entry
        let x := reused mtmode x
        if mtmode = 0 ∨ x.mtxpBusy = 0 then
          if pollfdv.length < alloc then pure (s.store a x, pollfdv ++ [fd]) else .error .slotOutOfBounds
        else pure (s.store a x, pollfdv)

def pollSlots (mtmode alloc : Nat) : List Nat → Registry ExactSet π → List Nat → Res (Registry ExactSet π × List Nat)
  | [], s, pollfdv => .ok (s, pollfdv)
  | slot :: slots, s, pollfdv => do
      let (s, pollfdv) ← pollSlot mtmode alloc slot s pollfdv
      pollSlots mtmode alloc slots s pollfdv

/-- `pollfd_realloc`. -/
def pollfdRealloc (prevPollfdAlloc nfd : Nat) : Nat :=
  if prevPollfdAlloc < Termination.fdAllocRoundup nfd then Termination.fdAllocRoundup nfd else prevPollfdAlloc

/-- There is something on the descriptor. -/
def Pollfd.ready (p : Pollfd) : Bool := p.revents != 0

/-- There is something on it that is to be received. -/
def Pollfd.serviced (p : Pollfd) : Bool := p.ready && p.revents &&& Tcp.pollnval == 0

/-- The first loop of `svc_getreq_poll_mt`. -/
def fdsReady (pollfdv : List Pollfd) : Nat := pollfdv.countP Pollfd.ready

/-- The descriptors that `svc_getreq_common` is to be called for. -/
def toServe (pollfdv : List Pollfd) : List Nat := (pollfdv.filter Pollfd.serviced).map Pollfd.fd

/-! ### The whole -/

/-- `poll` answers what there is on each descriptor, and how many there is something on; or it fails. `turn` is one
turn of the loop of `svc_getreq_common_rv`. The last four are calls of other threads, and of the services. -/
inductive Event (π : Type) where
  | reap
  | poll (answer : Option (Nat → Tcp.Revents))
  | scan
  | turn (turn : GetReq.Turn π)
  | collect
  | register (a : Addr) (sock port : Nat) (clone : Bool) (priv : π) (stat : XprtStat)
  | destroy (a : Addr)
  | mark (a : Addr)
  | touch (a : Addr) (left : GetReq.Left π)

section Step

variable (cfg : Config) (svcHead : List (Callout H)) (authenticate : RpcMsg → GetReq.AuthStat)

/-- After a descriptor that there was something on. -/
def found (s : Server π) (pollfdv : List Pollfd) (fdsFound : Nat) : Server π :=
  { s with pc := if s.pollretval ≤ fdsFound + 1 then .collecting else .scanning pollfdv (fdsFound + 1) }

/-- What `svc_poll` does with the answer of `poll`. -/
def answered (s : Server π) (fds : List Nat) : Option (Nat → Tcp.Revents) → Server π
  | none => { s with pc := .top }
  | some revents =>
      let pollfdv := fds.map fun fd => ⟨fd, revents fd⟩
      if fdsReady pollfdv = 0 then { s with pc := .top }
      else { s with polled := pollfdv, pollretval := fdsReady pollfdv, served := [], pc := .scanning pollfdv 0 }

/-- `svc_getreq_common` up to its loop. -/
def getreq (s : Server π) (fd : Nat) (pollfdv : List Pollfd) (fdsFound : Nat) : Option (Server π) := do
  let reg ← (GetReq.reap cfg s.reg).toOption
  let s := { s with reg := reg, served := s.served ++ [fd] }
  match ← (reg.sockXportsAt fd).toOption with
  | .null => some (found s pollfdv fdsFound)
  | .bad => some (found s pollfdv fdsFound)
  | .ref a => do
      let x ← (reg.deref a).toOption
      let entry ← (reg.xportsAt x.mtxpId).toOption
      if entry = .ref a then some { s with pc := .requests a pollfdv fdsFound } else none

/-- The top of the loop of `svc_run`. -/
def reap (s : Server π) : Option (Server π) :=
  match s.pc with
  | .top => s.reg.xprtGcReapAll.toOption.map fun reg => { s with reg := reg, pc := .polling s.reg.maxPollfd }
  | _ => none

def svcPoll (s : Server π) (answer : Option (Nat → Tcp.Revents)) : Option (Server π) :=
  match s.pc with
  | .polling maxPollfd => do
      let alloc := pollfdRealloc s.prevPollfdAlloc maxPollfd
      let (reg, fds) ← (pollSlots cfg.mtmode alloc (List.range maxPollfd) s.reg []).toOption
      some (answered { s with reg := reg, prevPollfdAlloc := alloc } fds answer)
  | _ => none

/-- One turn of the second loop of `svc_getreq_poll_mt`. -/
def scan (s : Server π) : Option (Server π) :=
  match s.pc with
  | .scanning [] _ => some { s with pc := .collecting }
  | .scanning (p :: pollfdv) fdsFound =>
      if p.ready then
        if p.serviced then getreq cfg s p.fd pollfdv fdsFound else some (found s pollfdv fdsFound)
      else some { s with pc := .scanning pollfdv fdsFound }
  | _ => none

/-- One turn of the loop of `svc_getreq_common_rv`, and the end of `svc_getreq_common`. -/
def request (s : Server π) (turn : GetReq.Turn π) : Option (Server π) :=
  match s.pc with
  | .requests a pollfdv fdsFound => do
      let (req, xrv) ← (GetReq.getSingleRequest cfg svcHead authenticate s.reg a turn).toOption
      if req.rv ≠ 0 then none
      else if xrv = .morereqs then some { s with reg := req.reg }
      else some (found { s with reg := req.reg } pollfdv fdsFound)
  | _ => none

/-- The end of `svc_getreq_poll_mt`. -/
def collect (s : Server π) : Option (Server π) :=
  match s.pc with
  | .collecting => (GetReq.reap cfg s.reg).toOption.map fun reg => { s with reg := reg, pc := .top }
  | _ => none

def step (s : Server π) : Event π → Option (Server π)
  | .reap => reap s
  | .poll answer => svcPoll cfg s answer
  | .scan => scan cfg s
  | .turn turn => request cfg svcHead authenticate s turn
  | .collect => collect cfg s
  | .register a sock port clone priv stat =>
      (s.reg.regStep (.register a sock port clone priv stat)).map fun reg => { s with reg := reg }
  | .destroy a => (s.reg.regStep (.unregister a)).map fun reg => { s with reg := reg }
  | .mark a => (s.reg.xprtGcMark a).toOption.map fun reg => { s with reg := reg }
  | .touch a left => (s.reg.heap a).map fun x => { s with reg := s.reg.store a (left.of x) }

/-- What the others keep to: `malloc` hands out free memory; a transport is registered on a vacant socket inside the
tables, and while there are ids left; a master is destroyed when it has no clone. -/
def Orderly (s : Server π) : Event π → Prop
  | .turn turn => s.reg.heap turn.clone = none
  | .register a sock port clone priv stat => Allowed s.reg (.register a sock port clone priv stat)
  | .destroy a => Allowed s.reg (.unregister a)
  | _ => True

end Step

/-! ### What the parts of a round do -/

section Parts

variable {cfg : Config} {svcHead : List (Callout H)} {authenticate : RpcMsg → GetReq.AuthStat} {s t : Server π}

theorem reap_some (h : reap s = some t) :
    ∃ reg, s.pc = .top ∧ s.reg.xprtGcReapAll = .ok reg ∧ t = { s with reg := reg, pc := .polling s.reg.maxPollfd } := by
  unfold reap at h
  split at h
  · rename_i hpc
    obtain ⟨reg, hreg, rfl⟩ := Option.map_eq_some_iff.mp h
    exact ⟨reg, hpc, toOption_ok hreg, rfl⟩
  · cases h

theorem svcPoll_some {answer : Option (Nat → Tcp.Revents)} (h : svcPoll cfg s answer = some t) :
    ∃ n reg fds, s.pc = .polling n ∧
      pollSlots cfg.mtmode (pollfdRealloc s.prevPollfdAlloc n) (List.range n) s.reg [] = .ok (reg, fds) ∧
      t = answered { s with reg := reg, prevPollfdAlloc := pollfdRealloc s.prevPollfdAlloc n } fds answer := by
  unfold svcPoll at h
  split at h
  · rename_i n hpc
    obtain ⟨⟨reg, fds⟩, hrun, h⟩ := Option.bind_eq_some_iff.mp h
    cases h
    exact ⟨n, reg, fds, hpc, toOption_ok hrun, rfl⟩
  · cases h

theorem getreq_some {fd k : Nat} {pollfdv : List Pollfd} (h : getreq cfg s fd pollfdv k = some t) :
    ∃ reg, GetReq.reap cfg s.reg = .ok reg ∧
      (t = found { s with reg := reg, served := s.served ++ [fd] } pollfdv k ∨
        ∃ a, reg.sockXports fd = .ref a ∧
          t = { s with reg := reg, served := s.served ++ [fd], pc := .requests a pollfdv k }) := by
  obtain ⟨reg, hreap, h⟩ := Option.bind_eq_some_iff.mp h
  refine ⟨reg, toOption_ok hreap, ?_⟩
  obtain ⟨entry, hentry, h⟩ := Option.bind_eq_some_iff.mp h
  have hat := toOption_ok hentry
  unfold sockXportsAt at hat
  split at hat
  · cases hat
    split at h
    · cases h
      exact Or.inl rfl
    · cases h
      exact Or.inl rfl
    · rename_i a href
      obtain ⟨x, _, h⟩ := Option.bind_eq_some_iff.mp h
      obtain ⟨entry, _, h⟩ := Option.bind_eq_some_iff.mp h
      split at h
      · cases h
        exact Or.inr ⟨a, href, rfl⟩
      · cases h
  · cases hat

/-- The scan comes to its end, passes over a descriptor, or turns to it. -/
theorem scan_some (h : scan cfg s = some t) :
    (∃ k, s.pc = .scanning [] k ∧ t = { s with pc := .collecting }) ∨
      ∃ p pollfdv k, s.pc = .scanning (p :: pollfdv) k ∧
        (p.ready = false ∧ t = { s with pc := .scanning pollfdv k } ∨
          p.ready = true ∧ p.serviced = false ∧ t = found s pollfdv k ∨
          p.ready = true ∧ p.serviced = true ∧ getreq cfg s p.fd pollfdv k = some t) := by
  unfold scan at h
  split at h
  · rename_i k hpc
    cases h
    exact Or.inl ⟨k, hpc, rfl⟩
  · rename_i p pollfdv k hpc
    refine Or.inr ⟨p, pollfdv, k, hpc, ?_⟩
    split at h
    · rename_i hready
      split at h
      · rename_i hserviced
        exact Or.inr (Or.inr ⟨hready, hserviced, h⟩)
      · rename_i hserviced
        cases h
        exact Or.inr (Or.inl ⟨hready, Bool.eq_false_iff.mpr hserviced, rfl⟩)
    · rename_i hready
      cases h
      exact Or.inl ⟨Bool.eq_false_iff.mpr hready, rfl⟩
  · cases h

theorem request_some {turn : GetReq.Turn π} (h : request cfg svcHead authenticate s turn = some t) :
    ∃ a pollfdv k req xrv, s.pc = .requests a pollfdv k ∧
      GetReq.getSingleRequest cfg svcHead authenticate s.reg a turn = .ok (req, xrv) ∧
      (t = { s with reg := req.reg } ∨ t = found { s with reg := req.reg } pollfdv k) := by
  unfold request at h
  split at h
  · rename_i a pollfdv k hpc
    obtain ⟨⟨req, xrv⟩, hreq, h⟩ := Option.bind_eq_some_iff.mp h
    refine ⟨a, pollfdv, k, req, xrv, hpc, toOption_ok hreq, ?_⟩
    dsimp only at h
    split at h
    · cases h
    · split at h
      · cases h
        exact Or.inl rfl
      · cases h
        exact Or.inr rfl
  · cases h

theorem collect_some (h : collect cfg s = some t) :
    ∃ reg, s.pc = .collecting ∧ GetReq.reap cfg s.reg = .ok reg ∧ t = { s with reg := reg, pc := .top } := by
  unfold collect at h
  split at h
  · rename_i hpc
    obtain ⟨reg, hreg, rfl⟩ := Option.map_eq_some_iff.mp h
    exact ⟨reg, hpc, toOption_ok hreg, rfl⟩
  · cases h

end Parts

/-! ### The tables -/

/-- The tables agree; and without threads there are no clones. -/
structure Sound (cfg : Config) (s : Registry ExactSet π) : Prop where
  reg : RegInv s
  single : cfg.mtmode = 0 → ∀ a x, s.heap a = some x → x.mtxpParent = noParent

section Sound

variable {cfg : Config} {s t : Registry ExactSet π} {a b : Addr} {x y : Svcxprt π}

theorem sameEntry_of (left : GetReq.Left π) (x : Svcxprt π) : SameEntry (left.of x) x := ⟨rfl, rfl, rfl, rfl⟩

/-- A store that leaves alone what only the registry writes. -/
theorem Sound.store (h : Sound cfg s) (hx : s.heap a = some x) (hsame : SameEntry y x) : Sound cfg (s.store a y) := by
  refine ⟨⟨h.reg.toTables.touch hx hsame, ?_, h.reg.toRefInv.touch hx hsame, h.reg.count⟩, fun hmode b z hz => ?_⟩
  · refine h.reg.toSockInv.congr (fun b sock => ⟨?_, ?_⟩) rfl rfl rfl rfl rfl
    · rintro ⟨z, hz, hmaster, hon⟩
      obtain ⟨z', hz', _, hparent, hsock, _⟩ := touch_before hx hsame hz
      exact ⟨z', hz', hparent.symm.trans hmaster, hsock.symm.trans hon⟩
    · rintro ⟨z, hz, hmaster, hon⟩
      obtain ⟨z', hz', _, hparent, hsock, _⟩ := touch_after hx hsame hz
      exact ⟨z', hz', hparent.trans hmaster, hsock.trans hon⟩
  · obtain ⟨z', hz', _, hparent, _⟩ := touch_before hx hsame hz
    exact hparent.trans (h.single hmode b z' hz')

/-- The tables do not depend on the marks. -/
theorem Sound.remark (h : Sound cfg s) (gcset : ExactSet) (marks : Nat) :
    Sound cfg { s with xprtgcIdset := gcset, xprtgcMarkCount := marks } := by
  obtain ⟨⟨⟨hsize, hsz, hmax, hheld, hentry, hlisted, hle⟩, ⟨hsock, hlt, hpsize, hmaxp, hfilled, howned⟩,
    ⟨hparent, hrefcnt⟩, hcount⟩, hsingle⟩ := h
  exact ⟨⟨⟨hsize, hsz, hmax, hheld, hentry, hlisted, hle⟩, ⟨hsock, hlt, hpsize, hmaxp, hfilled, howned⟩,
    ⟨hparent, hrefcnt⟩, hcount⟩, hsingle⟩

theorem Sound.xprtGcMark (h : Sound cfg s) (hmark : s.xprtGcMark a = .ok t) : Sound cfg t := by
  obtain ⟨x, _, hmark⟩ := bind_ok hmark
  obtain ⟨marked, _, hmark⟩ := bind_ok hmark
  cases marked with
  | true =>
      cases hmark
      exact h
  | false =>
      obtain ⟨idset, _, hmark⟩ := bind_ok hmark
      cases hmark
      exact h.remark _ _

/-- A destruction that may be done. -/
theorem Sound.svcDestroy (h : Sound cfg s) (hx : s.heap a = some x)
    (hfree : x.mtxpParent ≠ noParent ∨ s.liveClones x.mtxpId = ∅) (hdestroy : s.svcDestroy a = .ok t) : Sound cfg t := by
  obtain ⟨t', ht', hinv⟩ := h.reg.destroy hx hfree
  cases ht'.symm.trans hdestroy
  obtain ⟨_, _, hd⟩ := svcDestroy_ok hdestroy
  refine ⟨hinv, fun hmode b y hy => ?_⟩
  have hb : b ≠ a := by
    rintro rfl
    rw [hd.gone] at hy
    cases hy
  obtain ⟨x', hx', hcore⟩ := Svcxprt.exists_of_map_core (hd.core hb) hy
  exact (congrArg Svcxprt.mtxpParent hcore).trans (h.single hmode b x' hx')

theorem Sound.xprtGcReapOne (h : Sound cfg s) {id : Nat} (hreap : s.xprtGcReapOne id = .ok t) : Sound cfg t := by
  obtain ⟨entry, hentry, hreap⟩ := bind_ok hreap
  obtain ⟨_, hat⟩ := xportsAt_ok hentry
  split at hreap
  · cases hreap
    exact h
  · obtain ⟨⟨a, x⟩, hptr, hreap⟩ := bind_ok hreap
    obtain ⟨href, hx⟩ := derefPtr_ok hptr
    obtain ⟨u, hone, hreap⟩ := bind_ok hreap
    obtain ⟨idset, _, hreap⟩ := bind_ok hreap
    cases hreap
    have hu : Sound cfg u := by
      unfold reapXprt at hone
      split at hone
      · rename_i hmay
        obtain ⟨v, hv, hone⟩ := bind_ok hone
        cases hone
        have hfree : x.mtxpParent ≠ noParent ∨ s.liveClones x.mtxpId = ∅ := by
          by_cases hmaster : x.mtxpParent = noParent
          · exact Or.inr (h.reg.liveClones_empty hx hmaster (hmay.resolve_left fun hne => hne hmaster))
          · exact Or.inl hmaster
        have hsound := h.svcDestroy hx hfree hv
        -- the slot has been vacated by the destruction
        obtain ⟨x', hx', hd⟩ := svcDestroy_ok hv
        cases hx.symm.trans hx'
        obtain ⟨y, hy, hid⟩ := h.reg.entry id a (hat.trans href)
        cases hx.symm.trans hy
        have hsame : Function.update v.xports id .bad = v.xports := by
          rw [hd.xports, hid, Function.update_idem]
        rw [hsame]
        exact hsound
      · cases hone
        exact h
    exact hu.remark _ _

theorem Sound.reapFrom (h : Sound cfg s) {turns id : Nat} (hreap : reapFrom turns id s = .ok t) : Sound cfg t := by
  induction turns generalizing s id with
  | zero =>
      cases hreap
      exact h
  | succ turns ih =>
      obtain ⟨r, hturn, hreap⟩ := bind_ok hreap
      cases r with
      | none =>
          cases hreap
          exact h
      | some u =>
          obtain rfl | ⟨_, hone⟩ := xprtGcReapTurn_cases hturn
          · exact ih h hreap
          · exact ih (h.xprtGcReapOne hone) hreap

theorem Sound.reap (h : Sound cfg s) (hreap : GetReq.reap cfg s = .ok t) : Sound cfg t := by
  unfold GetReq.reap at hreap
  split at hreap
  · exact h.reapFrom hreap
  · cases hreap
    exact h

theorem Sound.clone (h : Sound cfg s) (hmode : cfg.mtmode ≠ 0) {p : Addr} {priv : π} (ha : s.heap a = none)
    (hp : s.heap p = some x) (hmaster : x.mtxpParent = noParent)
    (hreg : (s.store a (x.cloneXprt priv)).xprtRegister a = .ok t) : Sound cfg t := by
  obtain ⟨t', ht', hinv⟩ := h.reg.clone (x := x.cloneXprt priv) ha rfl hp hmaster rfl (h.reg.toTables.room rfl hreg)
  cases ht'.symm.trans hreg
  exact ⟨hinv, fun hzero => absurd hzero hmode⟩

end Sound

/-! ### Requests -/

/-- What is at `a`, if anything, is a master. -/
def MasterAt (s : Registry ExactSet π) (a : Addr) : Prop := ∀ x, s.heap a = some x → x.mtxpParent = noParent

section Requests

variable {cfg : Config} {svcHead : List (Callout H)} {authenticate : RpcMsg → GetReq.AuthStat}
  {s t : Registry ExactSet π} {a w : Addr} {x y : Svcxprt π} {turn : GetReq.Turn π}

theorem MasterAt.store (h : MasterAt s a) (hx : s.heap w = some x) (hsame : SameEntry y x) :
    MasterAt (s.store w y) a := by
  intro z hz
  by_cases hw : a = w
  · rw [hw] at hz h
    cases (Function.update_self ..).symm.trans hz
    exact hsame.2.1.trans (h x hx)
  · exact h z ((Function.update_of_ne hw _ _).symm.trans hz)

theorem MasterAt.svcDestroy (h : MasterAt s a) (hdestroy : s.svcDestroy w = .ok t) : MasterAt t a := by
  obtain ⟨_, _, hd⟩ := svcDestroy_ok hdestroy
  intro z hz
  have hw : a ≠ w := by
    rintro rfl
    rw [hd.gone] at hz
    cases hz
  obtain ⟨z', hz', hcore⟩ := Svcxprt.exists_of_map_core (hd.core hw) hz
  exact (congrArg Svcxprt.mtxpParent hcore).trans (h z' hz')

theorem MasterAt.register (h : MasterAt s a) (hnew : a = w → x.mtxpParent = noParent) (hid : x.mtxpId = xprtIdInvalid)
    (hreg : (s.store w x).xprtRegister w = .ok t) : MasterAt t a := by
  obtain ⟨id, s₁, halloc, hent⟩ := xprtRegister_ok (Function.update_self ..) hid hreg
  obtain ⟨maxid, idset, _, _, _, rfl⟩ := xprtIdAlloc_ok halloc
  intro z hz
  obtain ⟨rfl, hcore⟩ | ⟨_, z', hz', hcore⟩ := core_update_cases (hent.core_registered rfl) hz
  · exact (congrArg Svcxprt.mtxpParent hcore).trans (hnew rfl)
  · exact (congrArg Svcxprt.mtxpParent hcore).trans (h z' hz')

theorem MasterAt.xprtGcMark (h : MasterAt s a) (hmark : s.xprtGcMark w = .ok t) : MasterAt t a := by
  obtain ⟨x, _, hmark⟩ := bind_ok hmark
  obtain ⟨marked, _, hmark⟩ := bind_ok hmark
  cases marked with
  | true =>
      cases hmark
      exact h
  | false =>
      obtain ⟨idset, _, hmark⟩ := bind_ok hmark
      cases hmark
      exact h

/-- Without threads there is nothing that would be left behind. -/
theorem Sound.liveClones_single (h : Sound cfg s) (hmode : cfg.mtmode = 0) (hx : s.heap a = some x) :
    s.liveClones x.mtxpId = ∅ := by
  apply Set.eq_empty_of_forall_notMem
  rintro b ⟨y, hy, hparent⟩
  have hid := (h.reg.lt_sizeMax (h.reg.id_lt hx)).ne
  exact hid (hparent.symm.trans (h.single hmode b y hy))

theorem Sound.retire (h : Sound cfg s) (hm : MasterAt s a) (hw : s.heap w = some x)
    (hretire : GetReq.retire cfg s w = .ok t) : Sound cfg t ∧ MasterAt t a := by
  unfold GetReq.retire at hretire
  split at hretire
  · rename_i hmode
    exact ⟨h.svcDestroy hw (Or.inr (h.liveClones_single hmode hw)) hretire, hm.svcDestroy hretire⟩
  · exact ⟨h.xprtGcMark hretire, hm.xprtGcMark hretire⟩

theorem Sound.svcerr (h : Sound cfg s) (hm : MasterAt s a) {rv : Int} {answer : GetReq.Answer H}
    {req : GetReq.Req ExactSet π H} (hreq : GetReq.svcerr s a turn rv answer = .ok req) : Sound cfg req.reg ∧ MasterAt req.reg a := by
  obtain ⟨x, hx, hreq⟩ := bind_ok hreq
  obtain ⟨entry, _, hreq⟩ := bind_ok hreq
  split at hreq
  · cases hreq
    exact ⟨h.store (deref_ok hx) (sameEntry_of _ _), hm.store (deref_ok hx) (sameEntry_of _ _)⟩
  · cases hreq

theorem Sound.chooseWorker (h : Sound cfg s) (hm : MasterAt s a) (hfree : s.heap turn.clone = none)
    (hchoose : GetReq.chooseWorker cfg s a turn = .ok (t, w)) : Sound cfg t ∧ MasterAt t a := by
  obtain ⟨x, hx, hchoose⟩ := bind_ok hchoose
  have hlive := deref_ok hx
  split at hchoose
  · rename_i hclone
    obtain ⟨u, hu, hchoose⟩ := bind_ok hchoose
    cases hchoose
    obtain ⟨x', hx', hreg⟩ := bind_ok hu
    cases hlive.symm.trans (deref_ok hx')
    refine ⟨h.clone hclone.1 hfree hlive (hm x hlive) hreg, hm.register (fun heq => ?_) rfl hreg⟩
    rw [heq, hfree] at hlive
    cases hlive
  · cases hchoose
    exact ⟨h, hm⟩

theorem awaitWorker_same {x y z : Svcxprt π} {steps : List (Wait.HandshakeStep π)}
    (hcall : RpcMt.requestDispatch cfg x = .call y) (hwait : Wait.awaitWorker cfg y steps = .ok z) : SameEntry z x := by
  have hworked := Wait.awaitWorker_worked hwait
  unfold Wait.Worked at hworked
  rw [hworked]
  obtain ⟨_, rfl⟩ | ⟨_, rfl⟩ := requestDispatch_cases hcall
  · exact ⟨rfl, rfl, rfl, rfl⟩
  · exact ⟨rfl, rfl, rfl, rfl⟩

theorem Sound.requestDispatch (h : Sound cfg s) (hm : MasterAt s a) (hfree : s.heap turn.clone = none) {hd : H}
    {req : GetReq.Req ExactSet π H} (hreq : GetReq.requestDispatch cfg s a turn hd = .ok req) :
    Sound cfg req.reg ∧ MasterAt req.reg a := by
  obtain ⟨⟨u, w⟩, hchoose, hreq⟩ := bind_ok hreq
  obtain ⟨hsound, hmaster⟩ := h.chooseWorker hm hfree hchoose
  obtain ⟨x, hx, hreq⟩ := bind_ok hreq
  have hlive := deref_ok hx
  cases hd : RpcMt.requestDispatch cfg x with
  | destroy =>
      rw [hd] at hreq
      obtain ⟨v, hv, hreq⟩ := bind_ok hreq
      cases hreq
      have hmode : cfg.mtmode = 0 := by
        unfold RpcMt.requestDispatch at hd
        split at hd
        · split at hd
          · assumption
          · split at hd
            · cases hd
            · cases hd
        · cases hd
      exact ⟨hsound.svcDestroy hlive (Or.inr (hsound.liveClones_single hmode hlive)) hv, hmaster.svcDestroy hv⟩
  | gcMark =>
      rw [hd] at hreq
      obtain ⟨v, hv, hreq⟩ := bind_ok hreq
      cases hreq
      exact ⟨hsound.xprtGcMark hv, hmaster.xprtGcMark hv⟩
  | call y =>
      rw [hd] at hreq
      obtain ⟨z, hz, hreq⟩ := bind_ok hreq
      cases hreq
      exact ⟨hsound.store hlive (awaitWorker_same hd hz), hmaster.store hlive (awaitWorker_same hd hz)⟩

theorem Sound.recvRequest (h : Sound cfg s) (hm : MasterAt s a) (hfree : s.heap turn.clone = none)
    {req : GetReq.Req ExactSet π H} (hreq : GetReq.recvRequest cfg svcHead authenticate s a turn = .ok req) :
    Sound cfg req.reg ∧ MasterAt req.reg a := by
  obtain ⟨x, hx, hreq⟩ := bind_ok hreq
  have hlive := deref_ok hx
  have hsound : Sound cfg (s.store a (turn.atRecv.of x)) := h.store hlive (sameEntry_of _ _)
  have hmaster : MasterAt (s.store a (turn.atRecv.of x)) a := hm.store hlive (sameEntry_of _ _)
  have hclone : (s.store a (turn.atRecv.of x)).heap turn.clone = none := by
    have hne : turn.clone ≠ a := by
      intro heq
      rw [heq, hlive] at hfree
      cases hfree
    exact (Function.update_of_ne hne _ _).trans hfree
  dsimp only at hreq
  split at hreq
  · cases hreq
    exact ⟨hsound, hmaster⟩
  · unfold GetReq.requestLookup at hreq
    split at hreq
    · exact hsound.svcerr hmaster hreq
    · exact hsound.svcerr hmaster hreq
    · exact hsound.svcerr hmaster hreq
    · exact hsound.requestDispatch hmaster hclone hreq

/-- A turn of the loop of `svc_getreq_common_rv`. -/
theorem Sound.getSingleRequest (h : Sound cfg s) (hm : MasterAt s a) (hfree : s.heap turn.clone = none)
    {req : GetReq.Req ExactSet π H} {xrv : XprtStat}
    (hreq : GetReq.getSingleRequest cfg svcHead authenticate s a turn = .ok (req, xrv)) :
    Sound cfg req.reg ∧ MasterAt req.reg a := by
  obtain ⟨req', hrecv, hreq⟩ := bind_ok hreq
  obtain ⟨hsound, hmaster⟩ := h.recvRequest hm hfree hrecv
  obtain ⟨w, hw, hreq⟩ := bind_ok hreq
  have hlive := deref_ok hw
  have hstored : ∀ y, SameEntry y w → Sound cfg (req'.reg.store req'.workerXprt y) ∧
      MasterAt (req'.reg.store req'.workerXprt y) a :=
    fun y hsame => ⟨hsound.store hlive hsame, hmaster.store hlive hsame⟩
  obtain ⟨hsound', hmaster'⟩ := hstored { turn.atStat.of w with mtxpStat := GetReq.svcStat w turn } ⟨rfl, rfl, rfl, rfl⟩
  dsimp only at hreq
  split at hreq
  · obtain ⟨u, hu, hreq⟩ := bind_ok hreq
    cases hreq
    exact hsound'.retire hmaster' (Function.update_self ..) hu
  · cases hreq
    exact ⟨hsound', hmaster'⟩

end Requests

/-! ### The array that is polled -/

/-- `svc_poll` takes the descriptor into the array, if it comes to its slot. -/
def polls (mtmode : Nat) (s : Registry ExactSet π) (fd : Nat) : Bool :=
  mtmode == 0 || match s.sockXports fd with
    | .ref a => (s.heap a).any fun x => x.mtxpBusy == 0
    | _ => false

section Poll

variable {cfg : Config} {s : Registry ExactSet π} {alloc : Nat} {fds : List Nat}

theorem polls_single (s : Registry ExactSet π) (fd : Nat) : polls 0 s fd = true := rfl

theorem polls_of_ref {mtmode fd : Nat} {a : Addr} {x : Svcxprt π} (hslot : s.sockXports fd = .ref a)
    (hx : s.heap a = some x) : polls mtmode s fd = true ↔ mtmode = 0 ∨ x.mtxpBusy = 0 := by
  simp [polls, hslot, hx]

theorem store_self {a : Addr} {x : Svcxprt π} (hx : s.heap a = some x) : s.store a x = s := by
  unfold Registry.store
  rw [← hx, Function.update_eq_self]

theorem reused_same (mtmode : Nat) (x : Svcxprt π) : SameEntry (reused mtmode x) x := by
  unfold reused
  split
  · exact ⟨rfl, rfl, rfl, rfl⟩
  · exact ⟨rfl, rfl, rfl, rfl⟩

theorem pollSlot_of {mtmode slot fd : Nat} {a : Addr} {x : Svcxprt π} (hfd : s.pollfd slot = some fd)
    (hat : s.sockXportsAt fd = .ok (.ref a)) (hx : s.heap a = some x) :
    pollSlot mtmode alloc slot s fds =
      if mtmode = 0 ∨ (reused mtmode x).mtxpBusy = 0 then
        if fds.length < alloc then .ok (s.store a (reused mtmode x), fds ++ [fd]) else .error .slotOutOfBounds
      else .ok (s.store a (reused mtmode x), fds) := by
  have hptr : s.derefPtr (.ref a) = .ok (a, x) := by
    rw [derefPtr, deref_of_heap hx]
    rfl
  have hne : XprtPtr.ref a ≠ .bad := XprtPtr.noConfusion
  unfold pollSlot
  rw [hfd]
  dsimp only [bind, Except.bind]
  rw [hat]
  dsimp only
  rw [if_neg hne, hptr]
  rfl

/-- One slot: what is written, and that nothing else changes than a transport that is used again. -/
theorem Sound.pollSlot (h : Sound cfg s) {slot : Nat} (hlt : slot < s.maxPollfd) (hroom : fds.length < alloc) :
    ∃ t, pollSlot cfg.mtmode alloc slot s fds =
        .ok (t, fds ++ (s.pollfd slot).toList.filter (polls cfg.mtmode s)) ∧
      Sound cfg t ∧ t.pollfd = s.pollfd ∧ t.maxPollfd = s.maxPollfd ∧ polls cfg.mtmode t = polls cfg.mtmode s := by
  cases hfd : s.pollfd slot with
  | none =>
      refine ⟨s, ?_, h, rfl, rfl, rfl⟩
      rw [Rounds.pollSlot, hfd, Option.toList_none, List.filter_nil, List.append_nil]
  | some fd =>
      obtain ⟨a, hon⟩ := h.reg.owned slot fd hlt hfd
      obtain ⟨x, hx, _⟩ := id hon
      have hslot := (h.reg.sock fd a).mpr hon
      have hat : s.sockXportsAt fd = .ok (.ref a) := by
        rw [sockXportsAt, if_pos (h.reg.lt a fd hon), hslot]
      have hpolls := @polls_of_ref _ s cfg.mtmode fd a x hslot hx
      rw [pollSlot_of hfd hat hx, Option.toList_some]
      by_cases hmode : cfg.mtmode = 0
      · refine ⟨s.store a (reused cfg.mtmode x), ?_, h.store hx (reused_same _ x), rfl, rfl, ?_⟩
        · rw [if_pos (Or.inl hmode), if_pos hroom, List.filter_cons_of_pos (hpolls.mpr (Or.inl hmode)), List.filter_nil]
        · rw [hmode]
          funext k
          rw [polls_single, polls_single]
      · have hsame : reused cfg.mtmode x = x := if_neg fun hand => hmode hand.1
        refine ⟨s, ?_, h, rfl, rfl, rfl⟩
        rw [hsame, store_self hx]
        by_cases hbusy : x.mtxpBusy = 0
        · rw [if_pos (Or.inr hbusy), if_pos hroom, List.filter_cons_of_pos (hpolls.mpr (Or.inr hbusy)),
            List.filter_nil]
        · have hnot : ¬(cfg.mtmode = 0 ∨ x.mtxpBusy = 0) := not_or.mpr ⟨hmode, hbusy⟩
          rw [if_neg hnot, List.filter_cons_of_neg (mt hpolls.mp hnot), List.filter_nil, List.append_nil]

theorem Sound.pollSlots (h : Sound cfg s) {slots : List Nat} (hlt : ∀ slot, slot ∈ slots → slot < s.maxPollfd)
    (hroom : fds.length + slots.length ≤ alloc) :
    ∃ t, pollSlots cfg.mtmode alloc slots s fds =
        .ok (t, fds ++ (slots.filterMap s.pollfd).filter (polls cfg.mtmode s)) ∧ Sound cfg t ∧
      t.maxPollfd = s.maxPollfd := by
  induction slots generalizing s fds with
  | nil =>
      refine ⟨s, ?_, h, rfl⟩
      rw [List.filterMap_nil, List.filter_nil, List.append_nil]
      rfl
  | cons slot slots ih =>
      have hslot := hlt slot List.mem_cons_self
      rw [List.length_cons] at hroom
      have hlen : fds.length < alloc := by omega
      obtain ⟨u, hone, hsound, hpollfd, hmax, hpolls⟩ := h.pollSlot hslot hlen
      have hshort : ((s.pollfd slot).toList.filter (polls cfg.mtmode s)).length ≤ 1 := by
        refine (List.length_filter_le _ _).trans ?_
        cases s.pollfd slot with
        | none => exact Nat.zero_le _
        | some fd => exact Nat.le_refl _
      have hroom' : (fds ++ (s.pollfd slot).toList.filter (polls cfg.mtmode s)).length + slots.length ≤ alloc := by
        rw [List.length_append]
        omega
      have hlt' : ∀ slot', slot' ∈ slots → slot' < u.maxPollfd := by
        intro slot' hmem
        rw [hmax]
        exact hlt slot' (List.mem_cons_of_mem _ hmem)
      obtain ⟨t, hrest, hsound', hmax'⟩ := ih hsound hlt' hroom'
      refine ⟨t, ?_, hsound', hmax'.trans hmax⟩
      rw [Rounds.pollSlots, hone]
      show Rounds.pollSlots cfg.mtmode alloc slots u _ = _
      rw [hrest, hpollfd, hpolls, List.append_assoc, ← List.filter_append]
      congr
      cases hfd : s.pollfd slot with
      | none => rw [List.filterMap_cons_none hfd, Option.toList_none, List.nil_append]
      | some fd => rw [List.filterMap_cons_some hfd, Option.toList_some, List.singleton_append]

/-- The sockets in the slots below the mark differ. -/
theorem nodup_slots (h : RegInv s) {n : Nat} (hn : n ≤ s.maxPollfd) : ((List.range n).filterMap s.pollfd).Nodup := by
  refine List.pairwise_filterMap.mpr (List.pairwise_lt_range.imp_of_mem ?_)
  intro i j hi hj hij fd hfd fd' hfd'
  rintro rfl
  have hlti := (List.mem_range.mp hi).trans_le hn
  have hltj := (List.mem_range.mp hj).trans_le hn
  obtain ⟨a, ha⟩ := h.owned i fd hlti hfd
  have heq := (h.filled a fd ha).unique ⟨hlti, hfd⟩ ⟨hltj, hfd'⟩
  omega

theorem mem_polled (h : RegInv s) {mtmode n fd : Nat} (hn : n ≤ s.maxPollfd) :
    fd ∈ ((List.range n).filterMap s.pollfd).filter (polls mtmode s) ↔
      (∃ slot, slot < n ∧ s.pollfd slot = some fd) ∧
        ∃ a x, s.MasterOn a fd ∧ s.heap a = some x ∧ (mtmode = 0 ∨ x.mtxpBusy = 0) := by
  rw [List.mem_filter, List.mem_filterMap]
  constructor
  · rintro ⟨⟨slot, hslot, hfd⟩, hpolls⟩
    have hlt := List.mem_range.mp hslot
    obtain ⟨a, hon⟩ := h.owned slot fd (hlt.trans_le hn) hfd
    obtain ⟨x, hx, _⟩ := id hon
    exact ⟨⟨slot, hlt, hfd⟩, a, x, hon, hx, (polls_of_ref ((h.sock fd a).mpr hon) hx).mp hpolls⟩
  · rintro ⟨⟨slot, hlt, hfd⟩, a, x, hon, hx, hidle⟩
    exact ⟨⟨slot, List.mem_range.mpr hlt, hfd⟩, (polls_of_ref ((h.sock fd a).mpr hon) hx).mpr hidle⟩

end Poll

theorem le_pollfdRealloc (prev n : Nat) : n ≤ pollfdRealloc prev n := by
  have hround := Termination.le_fdAllocRoundup n
  unfold pollfdRealloc
  split
  · exact hround
  · omega

/-! ### The high-water mark of the slots -/

section MaxPollfd

variable {s t : Registry ExactSet π} {a : Addr}

theorem maxPollfd_countParent {parent : Nat} {delta : Int} (h : s.countParent parent delta = .ok t) :
    t.maxPollfd = s.maxPollfd := by
  obtain ⟨p, px, _, _, rfl⟩ := countParent_ok h
  rfl

theorem maxPollfd_svcDestroy (h : s.svcDestroy a = .ok t) : t.maxPollfd = s.maxPollfd := by
  obtain ⟨u, hu, h⟩ := bind_ok h
  cases h
  obtain ⟨x, _, hu⟩ := bind_ok hu
  obtain ⟨entry, _, hu⟩ := bind_ok hu
  split at hu
  · cases hu
  · split at hu
    · cases hu
    · obtain ⟨v, hv, hu⟩ := bind_ok hu
      obtain ⟨_, idset, _, rfl⟩ := unregisterId_ok hu
      unfold releaseSocket at hv
      split at hv
      · split at hv
        · cases hv
          rfl
        · cases hv
      · have hmax := maxPollfd_countParent hv
        exact hmax

theorem maxPollfd_reapFrom {turns id : Nat} (h : reapFrom turns id s = .ok t) : t.maxPollfd = s.maxPollfd := by
  induction turns generalizing s id with
  | zero =>
      cases h
      rfl
  | succ turns ih =>
      obtain ⟨r, hturn, h⟩ := bind_ok h
      cases r with
      | none =>
          cases h
          rfl
      | some u =>
          obtain rfl | ⟨_, hone⟩ := xprtGcReapTurn_cases hturn
          · exact ih h
          · refine (ih h).trans ?_
            obtain ⟨_, rfl⟩ | ⟨a, x, v, idset, _, _, hv, _, rfl⟩ := xprtGcReapOne_cases hone
            · rfl
            · obtain rfl | ⟨w, hw, rfl⟩ := hv
              · rfl
              · have hmax := maxPollfd_svcDestroy hw
                exact hmax

theorem maxPollfd_xprtGcMark (h : s.xprtGcMark a = .ok t) : t.maxPollfd = s.maxPollfd := by
  obtain ⟨x, _, h⟩ := bind_ok h
  obtain ⟨marked, _, h⟩ := bind_ok h
  cases marked with
  | true =>
      cases h
      rfl
  | false =>
      obtain ⟨idset, _, h⟩ := bind_ok h
      cases h
      rfl

theorem le_maxPollfd_register {x : Svcxprt π} (hid : x.mtxpId = xprtIdInvalid)
    (h : (s.store a x).xprtRegister a = .ok t) (htab : Tables s) : s.maxPollfd ≤ t.maxPollfd := by
  obtain ⟨id, maxid, _, _, h⟩ := htab.registered hid h
  split at h
  · obtain ⟨sxprt, _, h⟩ := bind_ok h
    obtain ⟨free, _, h⟩ := bind_ok h
    cases free with
    | false => cases h
    | true =>
        change initPollfd _ _ = _ at h
        unfold initPollfd at h
        split at h
        · cases h
          exact Nat.le_refl _
        · split at h
          · cases h
          · split at h
            · cases h
            · cases h
              exact Nat.le_succ _
  · exact (maxPollfd_countParent h).ge

end MaxPollfd

/-! ### What every step keeps -/

/-- The tables agree, `svc_poll` stays among the slots, requests come from masters, and no descriptor is polled
twice. -/
structure Inv (cfg : Config) (s : Server π) : Prop where
  sound : Sound cfg s.reg
  slots : ∀ n, s.pc = .polling n → n ≤ s.reg.maxPollfd
  master : ∀ a pollfdv k, s.pc = .requests a pollfdv k → MasterAt s.reg a
  apart : (s.polled.map Pollfd.fd).Nodup

section Inv

variable {cfg : Config} {svcHead : List (Callout H)} {authenticate : RpcMsg → GetReq.AuthStat} {s t : Server π}

/-- What the other threads do. -/
theorem Inv.others (h : Inv cfg s) {reg : Registry ExactSet π} (hsound : Sound cfg reg)
    (hmax : s.reg.maxPollfd ≤ reg.maxPollfd) (hmaster : ∀ a, MasterAt s.reg a → MasterAt reg a) :
    Inv cfg { s with reg := reg } where
  sound := hsound
  slots n hpc := (h.slots n hpc).trans hmax
  master a pollfdv k hpc := hmaster a (h.master a pollfdv k hpc)
  apart := h.apart

/-- The thread goes on to where nothing is kept but the tables. -/
theorem Inv.of {reg : Registry ExactSet π} (hsound : Sound cfg reg) {pc : Pc} (prevPollfdAlloc : Nat)
    {polled : List Pollfd} (pollretval : Nat) (served : List Nat) (hpolling : ∀ n, pc ≠ .polling n)
    (hrequests : ∀ a pollfdv k, pc ≠ .requests a pollfdv k) (hapart : (polled.map Pollfd.fd).Nodup) :
    Inv cfg ⟨reg, prevPollfdAlloc, pc, polled, pollretval, served⟩ where
  sound := hsound
  slots n hpc := absurd hpc (hpolling n)
  master a pollfdv k hpc := absurd hpc (hrequests a pollfdv k)
  apart := hapart

theorem Inv.found (h : Inv cfg s) {reg : Registry ExactSet π} (hsound : Sound cfg reg) (served : List Nat)
    (pollfdv : List Pollfd) (k : Nat) : Inv cfg (found { s with reg := reg, served := served } pollfdv k) := by
  refine Inv.of hsound _ _ _ (fun n hpc => ?_) (fun a ps j hpc => ?_) h.apart
  · split at hpc
    · cases hpc
    · cases hpc
  · split at hpc
    · cases hpc
    · cases hpc

theorem Inv.getreq (h : Inv cfg s) {fd k : Nat} {pollfdv : List Pollfd} (hst : getreq cfg s fd pollfdv k = some t) :
    Inv cfg t := by
  obtain ⟨reg, hreap, rfl | ⟨a, href, rfl⟩⟩ := getreq_some hst
  · exact h.found (h.sound.reap hreap) _ _ _
  · have hsound := h.sound.reap hreap
    refine ⟨hsound, fun n hpc => Pc.noConfusion hpc, fun b ps j hpc y hy => ?_, h.apart⟩
    cases hpc
    obtain ⟨z, hz, hmaster, _⟩ := (hsound.reg.sock fd a).mp href
    cases hy.symm.trans hz
    exact hmaster

theorem Inv.answered (h : Inv cfg s) {reg : Registry ExactSet π} (hsound : Sound cfg reg) {fds : List Nat}
    (hfds : fds.Nodup) (alloc : Nat) (answer : Option (Nat → Tcp.Revents)) :
    Inv cfg (answered { s with reg := reg, prevPollfdAlloc := alloc } fds answer) := by
  cases answer with
  | none => exact Inv.of hsound _ _ _ (fun _ => Pc.noConfusion) (fun _ _ _ => Pc.noConfusion) h.apart
  | some revents =>
      unfold Rounds.answered
      dsimp only
      split
      · exact Inv.of hsound _ _ _ (fun _ => Pc.noConfusion) (fun _ _ _ => Pc.noConfusion) h.apart
      · refine Inv.of hsound _ _ _ (fun _ => Pc.noConfusion) (fun _ _ _ => Pc.noConfusion) ?_
        rw [List.map_map]
        exact (List.map_id'' (fun _ => rfl) fds).symm ▸ hfds

/-- What `svc_poll` makes of the slots. -/
theorem Inv.polling (h : Inv cfg s) {n : Nat} (hpc : s.pc = .polling n) :
    ∃ reg, pollSlots cfg.mtmode (pollfdRealloc s.prevPollfdAlloc n) (List.range n) s.reg [] =
        .ok (reg, ((List.range n).filterMap s.reg.pollfd).filter (polls cfg.mtmode s.reg)) ∧ Sound cfg reg := by
  have hn := h.slots n hpc
  have hroom : ([] : List Nat).length + (List.range n).length ≤ pollfdRealloc s.prevPollfdAlloc n := by
    rw [List.length_nil, Nat.zero_add, List.length_range]
    exact le_pollfdRealloc _ _
  obtain ⟨reg, hrun, hsound, _⟩ := h.sound.pollSlots (fun slot hslot => (List.mem_range.mp hslot).trans_le hn) hroom
  exact ⟨reg, hrun, hsound⟩

theorem Inv.step (h : Inv cfg s) {e : Event π} (hok : Orderly s e) (hst : step cfg svcHead authenticate s e = some t) :
    Inv cfg t := by
  cases e with
  | reap =>
      obtain ⟨reg, _, hreap, rfl⟩ := reap_some hst
      refine ⟨h.sound.reapFrom hreap, fun n hpc => ?_, fun a ps k hpc => Pc.noConfusion hpc, h.apart⟩
      cases hpc
      exact (maxPollfd_reapFrom hreap).ge
  | poll answer =>
      obtain ⟨n, reg, fds, hpc, hrun, rfl⟩ := svcPoll_some hst
      obtain ⟨reg', hrun', hsound⟩ := h.polling hpc
      cases hrun'.symm.trans hrun
      exact h.answered hsound ((nodup_slots h.sound.reg (h.slots n hpc)).filter _) _ answer
  | scan =>
      obtain ⟨k, _, rfl⟩ | ⟨p, pollfdv, k, _, ⟨_, rfl⟩ | ⟨_, _, rfl⟩ | ⟨_, _, hget⟩⟩ := scan_some hst
      · exact Inv.of h.sound _ _ _ (fun _ => Pc.noConfusion) (fun _ _ _ => Pc.noConfusion) h.apart
      · exact Inv.of h.sound _ _ _ (fun _ => Pc.noConfusion) (fun _ _ _ => Pc.noConfusion) h.apart
      · exact h.found h.sound _ _ _
      · exact h.getreq hget
  | turn turn =>
      obtain ⟨a, pollfdv, k, req, xrv, hpc, hreq, hnext⟩ := request_some hst
      obtain ⟨hsound, hmaster⟩ := h.sound.getSingleRequest (h.master a pollfdv k hpc) hok hreq
      obtain rfl | rfl := hnext
      · refine ⟨hsound, fun n hn => ?_, fun b ps j hb => ?_, h.apart⟩
        · cases hpc.symm.trans hn
        · cases hpc.symm.trans hb
          exact hmaster
      · exact h.found hsound _ _ _
  | collect =>
      obtain ⟨reg, _, hreap, rfl⟩ := collect_some hst
      exact Inv.of (h.sound.reap hreap) _ _ _ (fun _ => Pc.noConfusion) (fun _ _ _ => Pc.noConfusion) h.apart
  | register a sock port clone priv stat =>
      obtain ⟨reg, hreg, rfl⟩ := Option.map_eq_some_iff.mp hst
      obtain ⟨hposs, hrun⟩ := regStep_some hreg
      obtain ⟨reg', hreg', hinv⟩ := h.sound.reg.regStep hposs hok
      cases hreg'.symm.trans hreg
      refine h.others ⟨hinv, fun hmode b y hy => ?_⟩ (le_maxPollfd_register rfl hrun h.sound.reg.toTables)
        fun b hm => hm.register (fun _ => rfl) rfl hrun
      have hm : MasterAt s.reg b := h.sound.single hmode b
      exact hm.register (fun _ => rfl) rfl hrun y hy
  | destroy a =>
      obtain ⟨reg, hreg, rfl⟩ := Option.map_eq_some_iff.mp hst
      obtain ⟨hposs, hrun⟩ := regStep_some hreg
      obtain ⟨x, hx⟩ := Option.isSome_iff_exists.mp hposs
      exact h.others (h.sound.svcDestroy hx (hok x hx) hrun) (maxPollfd_svcDestroy hrun).ge fun b hm => hm.svcDestroy hrun
  | mark a =>
      obtain ⟨reg, hreg, rfl⟩ := Option.map_eq_some_iff.mp hst
      have hmark := toOption_ok hreg
      exact h.others (h.sound.xprtGcMark hmark) (maxPollfd_xprtGcMark hmark).ge fun b hm => hm.xprtGcMark hmark
  | touch a left =>
      obtain ⟨x, hx, rfl⟩ := Option.map_eq_some_iff.mp hst
      exact h.others (h.sound.store hx (sameEntry_of left x)) (Nat.le_refl _) fun b hm => hm.store hx (sameEntry_of left x)

end Inv

theorem inv_start (cfg : Config) (dtablesize : Nat) : Inv cfg (start dtablesize : Server π) where
  sound := ⟨regInv_createXports dtablesize, fun _ a x hx => by cases hx⟩
  slots n hpc := Pc.noConfusion hpc
  master a pollfdv k hpc := Pc.noConfusion hpc
  apart := List.nodup_nil

theorem inv_reached {cfg : Config} {svcHead : List (Callout H)} {authenticate : RpcMsg → GetReq.AuthStat} {dtablesize : Nat}
    {s : Server π} (h : Reached (step cfg svcHead authenticate) Orderly (start dtablesize) s) : Inv cfg s :=
  h.invariant (Inv cfg) (inv_start cfg dtablesize) fun _ _ _ hs hok hst => hs.step hok hst

/-- No service is registered, and everybody is who they say they are. -/
abbrev bareStep : Server Unit → Event Unit → Option (Server Unit) :=
  step defaultConfig ([] : List (Callout Unit)) fun _ => .ok

/-- `SVC_RECV` receives no message, and the transport is left as new. -/
def noMessage : GetReq.Turn Unit :=
  { msg := none
    clone := 1
    clonePriv := ()
    steps := []
    stat := .idle
    atRecv := ⟨(), 0, false, .zero⟩
    atReply := ⟨(), 0, false, .zero⟩
    atStat := ⟨(), 0, false, .zero⟩ }

/-- A round of a server with one master: it is at `svc_poll`, and it has come to its end. -/
theorem bare_round : ∃ s t : Server Unit, Reached bareStep Orderly (start 8) s ∧ s.pc = .polling 1 ∧
    (∃ a, s.reg.MasterOn a 3) ∧ Reached bareStep Orderly (start 8) t ∧ t.pc = .collecting ∧ toServe t.polled = [3] := by
  have hrun : (bareStep (start 8) (.register 0 3 111 true () .idle)).map (fun s => (bareStep s .reap).map fun t =>
      (decide (t.pc = .polling 1 ∧ (t.reg.heap 0).map (fun x => (x.mtxpParent, x.xpSock)) = some (noParent, 3)),
        (bareStep t (.poll (some fun _ => 1))).map fun u => (bareStep u .scan).map fun v =>
          (decide ((v.reg.heap 1).map Svcxprt.mtxpId = none), (bareStep v (.turn noMessage)).map fun w =>
            decide (w.pc = .collecting ∧ toServe w.polled = [3])))) =
      some (some (true, some (some (true, some true)))) := by
    decide +kernel
  obtain ⟨s, hs, heq⟩ := Option.map_eq_some_iff.mp hrun
  obtain ⟨t, ht, heq⟩ := Option.map_eq_some_iff.mp heq
  obtain ⟨hnow, heq⟩ := Prod.mk.inj heq
  obtain ⟨hpolling, hmaster⟩ := of_decide_eq_true hnow
  obtain ⟨x, hx, hpair⟩ := Option.map_eq_some_iff.mp hmaster
  obtain ⟨hparent, hsock⟩ := Prod.mk.inj hpair
  obtain ⟨u, hu, heq⟩ := Option.map_eq_some_iff.mp heq
  obtain ⟨v, hv, heq⟩ := Option.map_eq_some_iff.mp heq
  obtain ⟨hnow, heq⟩ := Prod.mk.inj heq
  obtain ⟨w, hw, hnow'⟩ := Option.map_eq_some_iff.mp heq
  have hcollecting := of_decide_eq_true hnow'
  have hfree : v.reg.heap 1 = none := Option.map_eq_none_iff.mp (of_decide_eq_true hnow)
  have hregisters : Orderly (start 8 : Server Unit) (.register 0 3 111 true () .idle) := by
    have hnone := (regInv_createXports 8 (π := Unit)).consistent.count
    refine ⟨by decide, Or.inr rfl, ?_⟩
    rw [start, hnone]
    decide
  have hreaps : Orderly s .reap := trivial
  have hpolls : Orderly t (.poll (some fun _ => 1)) := trivial
  have hscans : Orderly u .scan := trivial
  have hreceives : Orderly v (.turn noMessage) := hfree
  have hreached : Reached bareStep Orderly (start 8) t := .next (.next .start hregisters hs) hreaps ht
  exact ⟨t, w, hreached, hpolling, ⟨0, x, hx, hparent, hsock⟩,
    .next (.next (.next hreached hpolls hu) hscans hv) hreceives hw, hcollecting⟩

/-- Whatever is polled, received, dispatched, marked and reaped, and whatever orderly calls other threads make in
between, the tables are consistent. -/
theorem rounds_consistent {cfg : Config} {svcHead : List (Callout H)} {authenticate : RpcMsg → GetReq.AuthStat}
    {dtablesize : Nat} {s : Server π} (h : Reached (step cfg svcHead authenticate) Orderly (start dtablesize) s) :
    Consistent s.reg := (inv_reached h).sound.reg.consistent

theorem rounds_consistent_bare : ∃ s : Server Unit, s.pc = .collecting ∧ Consistent s.reg := by
  obtain ⟨_, t, _, _, _, ht, hcollecting, _⟩ := bare_round
  exact ⟨t, hcollecting, rounds_consistent ht⟩

/-- In an orderly run `svc_poll` writes within its array, and polls the sockets of the masters in the slots that it
goes over, each once: of those that are not busy, and of all where there are no threads. -/
theorem svcPoll_idle {cfg : Config} {svcHead : List (Callout H)} {authenticate : RpcMsg → GetReq.AuthStat}
    {dtablesize : Nat} {s : Server π} (h : Reached (step cfg svcHead authenticate) Orderly (start dtablesize) s) {n : Nat}
    (hpc : s.pc = .polling n) : ∃ reg fds, fds.Nodup ∧
      (∀ fd, fd ∈ fds ↔ (∃ slot, slot < n ∧ s.reg.pollfd slot = some fd) ∧
        ∃ a x, s.reg.MasterOn a fd ∧ s.reg.heap a = some x ∧ (cfg.mtmode = 0 ∨ x.mtxpBusy = 0)) ∧
      ∀ answer, step cfg svcHead authenticate s (.poll answer) =
        some (answered { s with reg := reg, prevPollfdAlloc := pollfdRealloc s.prevPollfdAlloc n } fds answer) := by
  have hinv := inv_reached h
  have hn := hinv.slots n hpc
  obtain ⟨reg, hrun, _⟩ := hinv.polling hpc
  refine ⟨reg, _, (nodup_slots hinv.sound.reg hn).filter _, fun fd => mem_polled hinv.sound.reg hn, fun answer => ?_⟩
  rw [step, svcPoll, hpc]
  dsimp only
  rw [hrun]
  rfl

theorem svcPoll_idle_bare : ∃ (s : Server Unit) (reg : Registry ExactSet Unit) (fds : List Nat),
    s.pc = .polling 1 ∧ fds.Nodup ∧
      (∀ fd, fd ∈ fds ↔ (∃ slot, slot < 1 ∧ s.reg.pollfd slot = some fd) ∧
        ∃ a x, s.reg.MasterOn a fd ∧ s.reg.heap a = some x ∧ (defaultConfig.mtmode = 0 ∨ x.mtxpBusy = 0)) ∧
      ∀ answer, bareStep s (.poll answer) =
        some (answered { s with reg := reg, prevPollfdAlloc := pollfdRealloc s.prevPollfdAlloc 1 } fds answer) := by
  obtain ⟨s, _, hs, hpolling, _⟩ := bare_round
  obtain ⟨reg, fds, hidle⟩ := svcPoll_idle hs hpolling
  exact ⟨s, reg, fds, hpolling, hidle⟩

/-! ### What is served -/

/-- What has been served is what was to be served of the part of the array that has been scanned. -/
structure Scanned (s : Server π) : Prop where
  total : s.pollretval = fdsReady s.polled
  scanning : ∀ pollfdv k, s.pc = .scanning pollfdv k →
    ∃ done, s.polled = done ++ pollfdv ∧ k = fdsReady done ∧ s.served = toServe done
  requests : ∀ a pollfdv k, s.pc = .requests a pollfdv k →
    ∃ done p, s.polled = done ++ p :: pollfdv ∧ p.ready = true ∧ k = fdsReady done ∧ s.served = toServe (done ++ [p])
  collecting : s.pc = .collecting → s.served = toServe s.polled

section Scanned

variable {cfg : Config} {svcHead : List (Callout H)} {authenticate : RpcMsg → GetReq.AuthStat} {s t : Server π}

theorem fdsReady_append (ps qs : List Pollfd) : fdsReady (ps ++ qs) = fdsReady ps + fdsReady qs := List.countP_append

theorem toServe_append (ps qs : List Pollfd) : toServe (ps ++ qs) = toServe ps ++ toServe qs := by
  rw [toServe, List.filter_append, List.map_append]
  rfl

theorem toServe_single (p : Pollfd) : toServe [p] = if p.serviced then [p.fd] else [] := by
  cases h : p.serviced with
  | true => rw [toServe, List.filter_cons_of_pos h, List.filter_nil, List.map_singleton, if_pos rfl]
  | false => rw [toServe, List.filter_cons_of_neg (by simp [h]), List.filter_nil, List.map_nil, if_neg Bool.false_ne_true]

/-- Where there is nothing on a descriptor, there is nothing to serve. -/
theorem toServe_nil {ps : List Pollfd} (h : fdsReady ps = 0) : toServe ps = [] := by
  rw [toServe, List.map_eq_nil_iff, List.filter_eq_nil_iff]
  intro p hp hserviced
  have hready : p.ready = true := (Bool.and_eq_true_iff.mp hserviced).1
  exact List.countP_eq_zero.mp h p hp hready

/-- The scan is past a descriptor that there was something on: it goes on, or the others have been found. -/
theorem Scanned.found (reg : Registry ExactSet π) (alloc : Nat) (pc : Pc) {k : Nat} {served : List Nat}
    {polled pollfdv done : List Pollfd} {p : Pollfd} (hpolled : polled = done ++ p :: pollfdv)
    (hready : p.ready = true) (hk : k = fdsReady done) (hserved : served = toServe (done ++ [p])) :
    Scanned (found ⟨reg, alloc, pc, polled, fdsReady polled, served⟩ pollfdv k) := by
  have hone : fdsReady [p] = 1 := List.countP_eq_length.mpr fun q hq => List.mem_singleton.mp hq ▸ hready
  have hdone : k + 1 = fdsReady (done ++ [p]) := by
    rw [fdsReady_append, hone, hk]
  have hsplit : polled = (done ++ [p]) ++ pollfdv := by
    rw [hpolled, List.append_assoc]
    rfl
  unfold Rounds.found
  dsimp only
  refine ⟨rfl, fun ps j hpc => ?_, fun a ps j hpc => ?_, fun hpc => ?_⟩
  · split at hpc
    · cases hpc
    · cases hpc
      exact ⟨done ++ [p], hsplit, hdone, hserved⟩
  · split at hpc
    · cases hpc
    · cases hpc
  · split at hpc
    · rename_i hall
      have hrest : fdsReady pollfdv = 0 := by
        rw [hsplit, fdsReady_append] at hall
        omega
      show served = toServe polled
      rw [hsplit, toServe_append, toServe_nil hrest, List.append_nil]
      exact hserved
    · cases hpc

/-- Nothing of it depends on the registry. -/
theorem Scanned.others (h : Scanned s) (reg : Registry ExactSet π) : Scanned { s with reg := reg } :=
  ⟨h.total, h.scanning, h.requests, h.collecting⟩

/-- Where the thread has left the loop. -/
theorem Scanned.of {reg : Registry ExactSet π} {alloc pollretval : Nat} {pc : Pc} {polled : List Pollfd}
    (served : List Nat) (htotal : pollretval = fdsReady polled) (hpc : pc = .top ∨ ∃ n, pc = .polling n) :
    Scanned ⟨reg, alloc, pc, polled, pollretval, served⟩ := by
  refine ⟨htotal, fun ps k h => ?_, fun a ps k h => ?_, fun h => ?_⟩
  · obtain rfl | ⟨n, rfl⟩ := hpc
    · cases h
    · cases h
  · obtain rfl | ⟨n, rfl⟩ := hpc
    · cases h
    · cases h
  · obtain rfl | ⟨n, rfl⟩ := hpc
    · cases h
    · cases h

theorem Scanned.answered (h : Scanned s) (reg : Registry ExactSet π) (alloc : Nat) (fds : List Nat)
    (answer : Option (Nat → Tcp.Revents)) :
    Scanned (answered { s with reg := reg, prevPollfdAlloc := alloc } fds answer) := by
  cases answer with
  | none => exact .of _ h.total (Or.inl rfl)
  | some revents =>
      unfold Rounds.answered
      dsimp only
      split
      · exact .of _ h.total (Or.inl rfl)
      · refine ⟨rfl, fun ps k hpc => ?_, fun a ps k hpc => ?_, fun hpc => ?_⟩
        · cases hpc
          exact ⟨[], rfl, rfl, rfl⟩
        · cases hpc
        · cases hpc

theorem Scanned.scan (h : Scanned s) (hst : scan cfg s = some t) : Scanned t := by
  obtain ⟨k, hpc, rfl⟩ | ⟨p, pollfdv, k, hpc, hcase⟩ := scan_some hst
  · obtain ⟨done, hpolled, _, hserved⟩ := h.scanning [] k hpc
    refine ⟨h.total, fun ps j hj => Pc.noConfusion hj, fun a ps j hj => Pc.noConfusion hj, fun _ => ?_⟩
    show s.served = toServe s.polled
    rw [hpolled, List.append_nil]
    exact hserved
  · obtain ⟨done, hpolled, hk, hserved⟩ := h.scanning _ k hpc
    obtain ⟨hready, rfl⟩ | ⟨hready, hserviced, rfl⟩ | ⟨hready, hserviced, hget⟩ := hcase
    · -- nothing on it
      have hzero : fdsReady [p] = 0 := by
        refine List.countP_eq_zero.mpr fun q hq => ?_
        rw [List.mem_singleton.mp hq, hready]
        exact Bool.false_ne_true
      refine ⟨h.total, fun ps j hj => ?_, fun a ps j hj => Pc.noConfusion hj, fun hj => Pc.noConfusion hj⟩
      cases hj
      refine ⟨done ++ [p], ?_, ?_, ?_⟩
      · rw [List.append_assoc]
        exact hpolled
      · rw [fdsReady_append, hzero]
        exact hk
      · rw [toServe_append, toServe_nil hzero, List.append_nil]
        exact hserved
    · have hserved' : s.served = toServe (done ++ [p]) := by
        rw [toServe_append, toServe_single, hserviced, if_neg Bool.false_ne_true, List.append_nil]
        exact hserved
      have hfound := Scanned.found s.reg s.prevPollfdAlloc s.pc hpolled hready hk hserved'
      rw [← h.total] at hfound
      exact hfound
    · have hserved' : s.served ++ [p.fd] = toServe (done ++ [p]) := by
        rw [toServe_append, toServe_single, if_pos hserviced, hserved]
      obtain ⟨reg, _, rfl | ⟨a, _, rfl⟩⟩ := getreq_some hget
      · have hfound := Scanned.found reg s.prevPollfdAlloc s.pc hpolled hready hk hserved'
        rw [← h.total] at hfound
        exact hfound
      · refine ⟨h.total, fun ps j hj => Pc.noConfusion hj, fun b ps j hj => ?_, fun hj => Pc.noConfusion hj⟩
        cases hj
        exact ⟨done, p, hpolled, hready, hk, hserved'⟩

theorem Scanned.step (h : Scanned s) {e : Event π} (hst : step cfg svcHead authenticate s e = some t) : Scanned t := by
  cases e with
  | reap =>
      obtain ⟨reg, _, _, rfl⟩ := reap_some hst
      exact .of _ h.total (Or.inr ⟨_, rfl⟩)
  | poll answer =>
      obtain ⟨n, reg, fds, _, _, rfl⟩ := svcPoll_some hst
      exact h.answered reg _ fds answer
  | scan => exact h.scan hst
  | turn turn =>
      obtain ⟨a, pollfdv, k, req, xrv, hpc, _, hnext⟩ := request_some hst
      obtain rfl | rfl := hnext
      · exact h.others req.reg
      · obtain ⟨done, p, hpolled, hready, hk, hserved⟩ := h.requests a pollfdv k hpc
        have hfound := Scanned.found req.reg s.prevPollfdAlloc s.pc hpolled hready hk hserved
        rw [← h.total] at hfound
        exact hfound
  | collect =>
      obtain ⟨reg, _, _, rfl⟩ := collect_some hst
      exact .of _ h.total (Or.inl rfl)
  | register a sock port clone priv stat =>
      obtain ⟨reg, _, rfl⟩ := Option.map_eq_some_iff.mp hst
      exact h.others reg
  | destroy a =>
      obtain ⟨reg, _, rfl⟩ := Option.map_eq_some_iff.mp hst
      exact h.others reg
  | mark a =>
      obtain ⟨reg, _, rfl⟩ := Option.map_eq_some_iff.mp hst
      exact h.others reg
  | touch a left =>
      obtain ⟨x, _, rfl⟩ := Option.map_eq_some_iff.mp hst
      exact h.others _

end Scanned

/-- In an orderly run, at the end of `svc_getreq_poll_mt`, each descriptor that `poll` has found something on, other
than that it is not open, has been given to `svc_getreq_common` once, in the order of the array, and no other. -/
theorem rounds_serve {cfg : Config} {svcHead : List (Callout H)} {authenticate : RpcMsg → GetReq.AuthStat} {dtablesize : Nat}
    {s : Server π} (h : Reached (step cfg svcHead authenticate) Orderly (start dtablesize) s) (hpc : s.pc = .collecting) :
    s.served = toServe s.polled ∧ s.served.Nodup := by
  have hscanned : Scanned s := by
    refine h.invariant Scanned (.of _ rfl (Or.inl rfl)) ?_
    exact fun _ _ _ hs _ hst => hs.step hst
  have hserved := hscanned.collecting hpc
  refine ⟨hserved, ?_⟩
  rw [hserved]
  exact (inv_reached h).apart.sublist (List.filter_sublist.map Pollfd.fd)

theorem rounds_serve_bare : ∃ s : Server Unit, s.served = [3] := by
  obtain ⟨_, t, _, _, _, ht, hcollecting, hpolled⟩ := bare_round
  exact ⟨t, (rounds_serve ht hcollecting).1.trans hpolled⟩

end RpcMt.Rounds
