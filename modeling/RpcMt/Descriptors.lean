import RpcMt.RegistryTables
import RpcMt.Relocation

/-! Who has which descriptor. `svctcp_create` and `svcudp_bufcreate` open a socket or take one over,
`rendezvous_request` accepts a connection and relocates it, and `svctcp_destroy` and `svcudp_destroy` close the
socket of a master and then give up its place in the tables. One thread does all of it; between two of its steps
others open and close descriptors of their own. The id sets are exact: `bitvec.c` has fewer bits than ids, and
mixes them up from the tenth transport on; until then it does the same (`Registry.reached_toExact`). -/

open RpcMt.Runs

namespace RpcMt.FdTable

variable (t : FdTable) {n m : Nat} (file : Nat)

theorem opened_self : (t.opened n file).files n = some file := Function.update_self ..

theorem opened_of_ne (h : m ≠ n) : (t.opened n file).files m = t.files m := Function.update_of_ne h ..

theorem closed_of_ne (h : m ≠ n) : (t.closed n).files m = t.files m := Function.update_of_ne h ..

end RpcMt.FdTable

namespace RpcMt.Descriptors

open Registry

variable {π : Type}

/-- What the thread is in the middle of: nothing, `rendezvous_request` past its `accept`, or the destruction of a
transport past its `close`. -/
inductive Busy where
  | idle
  | accepting (fd : Nat) (move : Move)
  | closing (a : Addr)
  deriving DecidableEq

/-- The descriptors that an accepted connection has. -/
def Busy.inFlight : Busy → List Nat
  | .idle => []
  | .closing _ => []
  | .accepting fd (.test _) => [fd]
  | .accepting fd (.dup _) => [fd]
  | .accepting fd (.close dupFd) => [fd, dupFd.toNat]
  | .accepting _ (.ret sock) => [sock.toNat]

/-- The registry and the descriptors of the process; `ours` are those that the library has opened or taken over
and has not closed. -/
structure Server (π : Type) where
  reg : Registry ExactSet π
  fds : FdTable
  region : FdRegion
  busy : Busy
  ours : Finset Nat

def start (dtablesize : Nat) (fds : FdTable) (region : FdRegion) : Server π :=
  ⟨Registry.createXports dtablesize, fds, region, .idle, ∅⟩

/-- `given` is a socket of the caller's, else `RPC_ANYSOCK`; `answer` is what `socket` or `accept` returns, with the
file behind it, or an error; `works` is whether `getsockname` and `listen` succeed. -/
inductive Event (π : Type) where
  | opened (n file : Nat)
  | closed (n : Nat)
  | create (given : Option Nat) (answer : Option (Nat × Nat)) (works : Bool) (a : Addr) (port : Nat) (clone : Bool)
      (priv : π)
  | accept (answer : Option (Nat × Nat))
  | moveFd
  | makefdXprt (a : Addr) (priv : π)
  | clone (parent a : Addr) (priv : π)
  | destroy (a : Addr)
  | unregister

/-- A new master on `sock`, and the descriptor that is now its own. -/
def register (s : Server π) (fds : FdTable) (a : Addr) (sock port : Nat) (clone : Bool) (priv : π) : Option (Server π) :=
  (s.reg.regStep (.register a sock port clone priv .idle)).map fun reg =>
    { s with reg := reg, fds := fds, ours := insert sock s.ours }

/-- `svctcp_create` and `svcudp_bufcreate`: a socket that the call has made is closed where it fails. -/
def create (s : Server π) (given : Option Nat) (answer : Option (Nat × Nat)) (works : Bool) (a : Addr) (port : Nat)
    (clone : Bool) (priv : π) : Option (Server π) :=
  match given with
  | some sock => if works then register s s.fds a sock port clone priv else some s
  | none => match answer with
    | none => some s
    | some (sock, file) =>
        if s.fds.Free sock then
          let fds := s.fds.opened sock file
          if works then register s fds a sock port clone priv else some { s with fds := fds.closed sock }
        else none

/-- The descriptors of the library after a call that `move_fd` makes. -/
def afterMove (s : Server π) (fd : Nat) : Move → Finset Nat
  | .dup newFd => if 0 ≤ (s.fds.dupfd fd newFd).1 then insert (s.fds.dupfd fd newFd).1.toNat s.ours else s.ours
  | .close _ => s.ours.erase fd
  | _ => s.ours

/-- The first half of `svctcp_destroy` and `svcudp_destroy`: `fstat`, and `close` where the socket is open. -/
def closeSocket (s : Server π) (a : Addr) (x : Svcxprt π) : Server π :=
  if x.mtxpParent = noParent ∧ s.fds.fdIsOpen x.xpSock then
    { s with fds := s.fds.closed x.xpSock, ours := s.ours.erase x.xpSock, busy := .closing a }
  else { s with busy := .closing a }

def step (s : Server π) : Event π → Option (Server π)
  | .opened n file => if s.fds.Free n then some { s with fds := s.fds.opened n file } else none
  | .closed n => some { s with fds := s.fds.closed n }
  | .create given answer works a port clone priv =>
      if s.busy = .idle then create s given answer works a port clone priv else none
  | .accept answer =>
      if s.busy = .idle then match answer with
        | none => some s
        | some (fd, file) =>
            if s.fds.Free fd then
              some { s with
                fds := s.fds.opened fd file
                busy := .accepting fd (Move.start s.region fd)
                ours := insert fd s.ours }
            else none
      else none
  | .moveFd => match s.busy with
      | .accepting fd move => (move.step s.region fd s.fds).map fun r =>
          { s with fds := r.2, busy := .accepting fd r.1, ours := afterMove s fd move }
      | _ => none
  | .makefdXprt a priv => match s.busy with
      | .accepting _ (.ret sock) =>
          if 0 ≤ sock then (s.reg.regStep (.register a sock.toNat 0 false priv .idle)).map fun reg =>
            { s with reg := reg, busy := .idle }
          else none
      | _ => none
  | .clone parent a priv =>
      if s.busy = .idle then (s.reg.regStep (.clone parent a priv)).map fun reg => { s with reg := reg } else none
  | .destroy a => if s.busy = .idle then (s.reg.heap a).map (closeSocket s a) else none
  | .unregister => match s.busy with
      | .closing a => (s.reg.regStep (.unregister a)).map fun reg => { s with reg := reg, busy := .idle }
      | _ => none

/-- What the surroundings keep to: others close no descriptor of the library's; a socket that is handed in is open
and not the library's; a socket is inside the tables; there are ids left; what `F_DUPFD` is asked for it gives, or
nothing; and a transport is destroyed, as by the garbage collector, when it is a clone or counts no clone. -/
def Orderly (s : Server π) : Event π → Prop
  | .closed n => n ∉ s.ours
  | .create given answer _ _ _ _ _ => s.reg.xportsCount < s.reg.xportsSize ∧
      (∀ sock, given = some sock → sock ∉ s.ours ∧ s.fds.files sock ≠ none ∧ sock < s.reg.xportsSize) ∧
      ∀ r, answer = some r → r.1 < s.reg.xportsSize
  | .moveFd => ∀ fd newFd, s.busy = .accepting fd (.dup newFd) →
      newFd ≠ -1 ∧ (newFd < 0 ∨ s.fds.Free newFd.toNat ∨ s.fds.lowestFree newFd.toNat = none)
  | .makefdXprt _ _ => s.reg.xportsCount < s.reg.xportsSize ∧
      ∀ fd sock, s.busy = .accepting fd (.ret sock) → sock.toNat < s.reg.xportsSize
  | .clone _ _ _ => s.reg.xportsCount < s.reg.xportsSize
  | .destroy a => ∀ x, s.reg.heap a = some x → x.mtxpParent ≠ noParent ∨ x.mtxpRefcnt = 0
  | _ => True

/-- What the system and the caller can do: descriptors that are opened were free, memory that is allocated was free,
and the thread is where the event has it. -/
def Possible (s : Server π) : Event π → Prop
  | .opened n _ => s.fds.Free n
  | .closed _ => True
  | .create _ answer _ a _ _ _ => s.busy = .idle ∧ s.reg.heap a = none ∧ ∀ r, answer = some r → s.fds.Free r.1
  | .accept answer => s.busy = .idle ∧ ∀ r, answer = some r → s.fds.Free r.1
  | .moveFd => ∃ fd move, s.busy = .accepting fd move ∧ ∀ sock, move ≠ .ret sock
  | .makefdXprt a _ => (∃ fd sock, s.busy = .accepting fd (.ret sock)) ∧ s.reg.heap a = none
  | .clone parent a priv => s.busy = .idle ∧ (RegOp.clone parent a priv).possible s.reg = true
  | .destroy a => s.busy = .idle ∧ s.reg.heap a ≠ none
  | .unregister => ∃ a, s.busy = .closing a

/-- `move_fd` comes to the end of the region for sockets, and calls `svc_die`. -/
def UsedUp (s : Server π) : Event π → Prop
  | .moveFd => ∃ fd newFd, Move.advance s.region newFd = none ∧
      (s.busy = .accepting fd (.test newFd) ∧ s.fds.fdIsOpen newFd = true ∨
        s.busy = .accepting fd (.dup newFd) ∧ (s.fds.dupfd fd newFd).1 ≠ newFd)
  | _ => False

theorem UsedUp.dies {s : Server π} {e : Event π} (h : UsedUp s e) : step s e = none := by
  cases e with
  | moveFd =>
      obtain ⟨fd, newFd, hend, ⟨hbusy, hopen⟩ | ⟨hbusy, hrefused⟩⟩ := h
      · simp only [step, hbusy, Move.step, hopen, hend]
        rfl
      · simp only [step, hbusy, Move.step, hrefused, hend]
        rfl
  | _ => cases h

/-- As long as the region has a number left, a call that `move_fd` makes returns. -/
theorem moveFd_returns {s : Server π} {fd : Nat} {move : Move} (hbusy : s.busy = .accepting fd move)
    (hret : ∀ sock, move ≠ .ret sock) (hleft : ¬UsedUp s .moveFd) : ∃ r, move.step s.region fd s.fds = some r := by
  cases move with
  | test newFd =>
      rw [Move.step]
      split
      · rename_i hopen
        cases hadv : Move.advance s.region newFd with
        | none => exact absurd ⟨fd, newFd, hadv, Or.inl ⟨hbusy, hopen⟩⟩ hleft
        | some m => exact ⟨_, rfl⟩
      · exact ⟨_, rfl⟩
  | dup newFd =>
      rw [Move.step]
      split
      · exact ⟨_, rfl⟩
      · rename_i hrefused
        cases hadv : Move.advance s.region newFd with
        | none => exact absurd ⟨fd, newFd, hadv, Or.inr ⟨hbusy, hrefused⟩⟩ hleft
        | some m => exact ⟨_, rfl⟩
  | close dupFd => exact ⟨_, rfl⟩
  | ret sock => exact absurd rfl (hret sock)

/-! ### What comes into the registry and what leaves it -/

/-- The transport at `a` has come in. -/
structure Added (r t : Registry ExactSet π) (a : Addr) (parent sock : Nat) : Prop where
  before : r.heap a = none
  size : t.xportsSize = r.xportsSize
  others : ∀ b, b ≠ a → (t.heap b).map Svcxprt.core = (r.heap b).map Svcxprt.core
  new : ∃ x, t.heap a = some x ∧ x.mtxpParent = parent ∧ x.xpSock = sock

/-- The transport at `a` has left. -/
structure Removed (r t : Registry ExactSet π) (a : Addr) : Prop where
  others : ∀ b, b ≠ a → (t.heap b).map Svcxprt.core = (r.heap b).map Svcxprt.core
  gone : t.heap a = none

section Changes

variable {r t : Registry ExactSet π} {a b : Addr} {k parent sock : Nat} {x : Svcxprt π}

/-- What a core keeps of a transport. -/
theorem of_core {y : Svcxprt π} (h : x.core = y.core) :
    x.mtxpId = y.mtxpId ∧ x.mtxpParent = y.mtxpParent ∧ x.xpSock = y.xpSock := by
  have hparent : x.core.mtxpParent = y.core.mtxpParent := by rw [h]
  have hsock : x.core.xpSock = y.core.xpSock := by rw [h]
  exact ⟨Svcxprt.mtxpId_of_core h, hparent, hsock⟩

theorem masterOn_of_core (h : (t.heap b).map Svcxprt.core = (r.heap b).map Svcxprt.core) (hon : t.MasterOn b k) :
    r.MasterOn b k := by
  obtain ⟨y, hy, hmaster, hsock⟩ := hon
  obtain ⟨y', hy', hcore⟩ := Svcxprt.exists_of_map_core h hy
  obtain ⟨_, hparent, hsame⟩ := of_core hcore
  exact ⟨y', hy', hparent.symm.trans hmaster, hsame.symm.trans hsock⟩

theorem Added.masterOn (h : Added r t a noParent sock) :
    t.MasterOn b k ↔ r.MasterOn b k ∨ b = a ∧ k = sock := by
  obtain ⟨x, hx, hmaster, hsock⟩ := h.new
  by_cases hb : b = a
  · rw [hb]
    constructor
    · rintro ⟨y, hy, _, rfl⟩
      cases hx.symm.trans hy
      exact Or.inr ⟨rfl, hsock⟩
    · rintro (⟨y, hy, _⟩ | ⟨_, rfl⟩)
      · rw [h.before] at hy
        cases hy
      · exact ⟨x, hx, hmaster, hsock⟩
  · constructor
    · exact fun hon => Or.inl (masterOn_of_core (h.others b hb) hon)
    · rintro (hon | ⟨heq, _⟩)
      · exact masterOn_of_core (h.others b hb).symm hon
      · exact absurd heq hb

theorem Added.masterOn_clone (h : Added r t a parent sock) (hclone : parent ≠ noParent) :
    t.MasterOn b k ↔ r.MasterOn b k := by
  obtain ⟨x, hx, hparent, _⟩ := h.new
  by_cases hb : b = a
  · rw [hb]
    constructor
    · rintro ⟨y, hy, hmaster, _⟩
      cases hx.symm.trans hy
      exact absurd (hparent.symm.trans hmaster) hclone
    · rintro ⟨y, hy, _⟩
      rw [h.before] at hy
      cases hy
  · exact ⟨masterOn_of_core (h.others b hb), masterOn_of_core (h.others b hb).symm⟩

theorem Removed.masterOn (h : Removed r t a) : t.MasterOn b k ↔ r.MasterOn b k ∧ b ≠ a := by
  by_cases hb : b = a
  · rw [hb]
    constructor
    · rintro ⟨y, hy, _⟩
      rw [h.gone] at hy
      cases hy
    · exact fun hon => absurd rfl hon.2
  · constructor
    · exact fun hon => ⟨masterOn_of_core (h.others b hb) hon, hb⟩
    · exact fun hon => masterOn_of_core (h.others b hb).symm hon.1

theorem added_of_xprtRegister (ha : r.heap a = none) (hid : x.mtxpId = xprtIdInvalid)
    (hreg : (r.store a x).xprtRegister a = .ok t) : Added r t a x.mtxpParent x.xpSock := by
  obtain ⟨id, s₁, halloc, hent⟩ := xprtRegister_ok (Function.update_self ..) hid hreg
  obtain ⟨maxid, idset, _, _, _, rfl⟩ := xprtIdAlloc_ok halloc
  have hcore := fun b => hent.core_registered rfl b
  refine ⟨ha, hent.size, fun b hb => ?_, ?_⟩
  · rw [hcore b, Function.update_of_ne hb]
  · have hnew := hcore a
    rw [Function.update_self] at hnew
    obtain ⟨y, hy, hxy⟩ := Svcxprt.exists_of_map_core hnew.symm rfl
    obtain ⟨_, hparent, hsock⟩ := of_core hxy
    exact ⟨y, hy, hparent.symm, hsock.symm⟩

theorem register_added {port : Nat} {clone : Bool} {priv : π} {stat : XprtStat}
    (h : r.regStep (.register a sock port clone priv stat) = some t) : Added r t a noParent sock := by
  obtain ⟨hposs, hrun⟩ := regStep_some h
  exact added_of_xprtRegister (Option.isNone_iff_eq_none.mp hposs) rfl hrun

theorem clone_added {p : Addr} {priv : π} (h : r.regStep (.clone p a priv) = some t) :
    ∃ px, r.heap p = some px ∧ px.mtxpParent = noParent ∧ Added r t a px.mtxpId px.xpSock := by
  obtain ⟨hposs, hrun⟩ := regStep_some h
  obtain ⟨ha, hp⟩ := Bool.and_eq_true_iff.mp hposs
  obtain ⟨px, hpx, hreg⟩ := bind_ok hrun
  have hheap := deref_ok hpx
  rw [hheap] at hp
  refine ⟨px, hheap, beq_iff_eq.mp (Bool.and_eq_true_iff.mp hp).2, ?_⟩
  exact added_of_xprtRegister (x := px.cloneXprt priv) (Option.isNone_iff_eq_none.mp ha) rfl hreg

theorem unregister_removed (h : r.regStep (.unregister a) = some t) :
    Removed r t a ∧ t.xportsSize = r.xportsSize := by
  obtain ⟨_, hrun⟩ := regStep_some h
  obtain ⟨x, _, hd⟩ := svcDestroy_ok hrun
  exact ⟨⟨fun b hb => hd.core hb, hd.gone⟩, hd.size⟩

/-- Each clone has the socket of its parent, which is live. -/
def CloneSocks (r : Registry ExactSet π) : Prop :=
  ∀ b y, r.heap b = some y → y.mtxpParent ≠ noParent →
    ∃ p px, r.heap p = some px ∧ px.mtxpId = y.mtxpParent ∧ px.mtxpParent = noParent ∧ px.xpSock = y.xpSock

theorem keeps (h : (t.heap b).map Svcxprt.core = (r.heap b).map Svcxprt.core) (hx : r.heap b = some x) :
    ∃ x', t.heap b = some x' ∧ x'.mtxpId = x.mtxpId ∧ x'.mtxpParent = x.mtxpParent ∧ x'.xpSock = x.xpSock := by
  obtain ⟨x', hx', hcore⟩ := Svcxprt.exists_of_map_core h.symm hx
  obtain ⟨hid, hparent, hsock⟩ := of_core hcore
  exact ⟨x', hx', hid.symm, hparent.symm, hsock.symm⟩

theorem CloneSocks.added (h : CloneSocks r) (hadd : Added r t a parent sock)
    (hnew : parent ≠ noParent →
      ∃ p px, r.heap p = some px ∧ px.mtxpId = parent ∧ px.mtxpParent = noParent ∧ px.xpSock = sock) :
    CloneSocks t := by
  intro b y hy hclone
  have hfound : ∃ p px, r.heap p = some px ∧ px.mtxpId = y.mtxpParent ∧ px.mtxpParent = noParent ∧ px.xpSock = y.xpSock := by
    by_cases hb : b = a
    · obtain ⟨x, hx, hparent, hsock⟩ := hadd.new
      rw [hb] at hy
      cases hy.symm.trans hx
      rw [hparent] at hclone ⊢
      rw [hsock]
      exact hnew hclone
    · obtain ⟨y', hy', _, hparent, hsock⟩ := keeps (hadd.others b hb).symm hy
      rw [← hparent, ← hsock]
      exact h b y' hy' (by rw [hparent]; exact hclone)
  obtain ⟨p, px, hp, hid, hmaster, hsock⟩ := hfound
  have hpa : p ≠ a := by
    rintro rfl
    rw [hadd.before] at hp
    cases hp
  obtain ⟨px', hp', hid', hmaster', hsock'⟩ := keeps (hadd.others p hpa) hp
  exact ⟨p, px', hp', hid'.trans hid, hmaster'.trans hmaster, hsock'.trans hsock⟩

theorem CloneSocks.removed (h : CloneSocks r) (hrem : Removed r t a) (hx : r.heap a = some x)
    (hfree : x.mtxpParent ≠ noParent ∨ r.liveClones x.mtxpId = ∅) : CloneSocks t := by
  intro b y hy hclone
  have hb : b ≠ a := by
    rintro rfl
    rw [hrem.gone] at hy
    cases hy
  obtain ⟨y', hy', _, hparent, hsame⟩ := keeps (hrem.others b hb).symm hy
  obtain ⟨p, px, hp, hid, hmaster, hsock⟩ := h b y' hy' (by rw [hparent]; exact hclone)
  have hpa : p ≠ a := by
    rintro rfl
    cases hx.symm.trans hp
    rcases hfree with hne | hnone
    · exact hne hmaster
    · have hmem : b ∈ r.liveClones x.mtxpId := ⟨y', hy', hid.symm⟩
      rw [hnone] at hmem
      exact hmem
  obtain ⟨px', hp', hid', hmaster', hsock'⟩ := keeps (hrem.others p hpa) hp
  refine ⟨p, px', hp', ?_, hmaster'.trans hmaster, ?_⟩
  · rw [hid', hid, hparent]
  · rw [hsock', hsock, hsame]

end Changes

/-! ### What every step keeps -/

/-- The library's descriptors are the sockets of the live masters, but for the one that is closed already, and those
of the connection that is on its way; and they are open. -/
structure Sound (s : Server π) : Prop where
  reg : RegInv s.reg
  clones : CloneSocks s.reg
  ours : ∀ n, n ∈ s.ours ↔ (∃ a, s.reg.MasterOn a n ∧ s.busy ≠ .closing a) ∨ n ∈ s.busy.inFlight
  opened : ∀ n, n ∈ s.ours → s.fds.files n ≠ none
  apart : ∀ a n, s.reg.MasterOn a n → n ∉ s.busy.inFlight
  moved : ∀ fd d, s.busy = .accepting fd (.close d) → 0 ≤ d ∧ d.toNat ≠ fd
  settled : ∀ fd sock, s.busy = .accepting fd (.ret sock) → 0 ≤ sock
  closing : ∀ a, s.busy = .closing a → ∃ x, s.reg.heap a = some x ∧
    (x.mtxpParent ≠ noParent ∨ s.reg.liveClones x.mtxpId = ∅)

namespace Sound

variable {s t : Server π}

/-- A change of the descriptors that leaves the library's open. -/
theorem files (h : Sound s) {fds : FdTable} (hkept : ∀ n, n ∈ s.ours → fds.files n ≠ none) :
    Sound { s with fds := fds } :=
  ⟨h.reg, h.clones, h.ours, hkept, h.apart, h.moved, h.settled, h.closing⟩

/-- While nothing is under way, the library's descriptors are the sockets of the masters. -/
theorem ours_idle (h : Sound s) (hidle : s.busy = .idle) (n : Nat) : n ∈ s.ours ↔ ∃ a, s.reg.MasterOn a n := by
  rw [h.ours, hidle]
  constructor
  · rintro (⟨a, ha, _⟩ | hmem)
    · exact ⟨a, ha⟩
    · exact absurd hmem List.not_mem_nil
  · rintro ⟨a, ha⟩
    exact Or.inl ⟨a, ha, Busy.noConfusion⟩

/-- A descriptor that is not the library's is nobody's socket, and its place in the tables is vacant. -/
theorem vacant (h : Sound s) {n : Nat} (hnone : ∀ a, ¬s.reg.MasterOn a n) :
    s.reg.sockXports n = .null ∨ s.reg.sockXports n = .bad := by
  cases hslot : s.reg.sockXports n with
  | null => exact Or.inl rfl
  | bad => exact Or.inr rfl
  | ref a => exact absurd ((h.reg.sock n a).mp hslot) (hnone a)

theorem room (h : Sound s) (hroom : s.reg.xportsCount < s.reg.xportsSize) :
    s.reg.liveXprts.encard < s.reg.xportsSize := by
  rw [h.reg.consistent.count]
  exact_mod_cast hroom

/-- The descriptors are those of the masters again, and nothing is under way. -/
theorem settle (s : Server π) {reg : Registry ExactSet π} (hreg : RegInv reg) (hclones : CloneSocks reg) {fds : FdTable}
    {ours : Finset Nat} (hours : ∀ n, n ∈ ours ↔ ∃ a, reg.MasterOn a n) (hopened : ∀ n, n ∈ ours → fds.files n ≠ none) :
    Sound { s with reg := reg, fds := fds, busy := .idle, ours := ours } where
  reg := hreg
  clones := hclones
  ours n := by
    rw [hours]
    constructor
    · rintro ⟨a, ha⟩
      exact Or.inl ⟨a, ha, Busy.noConfusion⟩
    · rintro (⟨a, ha, _⟩ | hmem)
      · exact ⟨a, ha⟩
      · exact absurd hmem List.not_mem_nil
  opened := hopened
  apart _ _ _ := List.not_mem_nil
  moved _ _ hbusy := Busy.noConfusion hbusy
  settled _ _ hbusy := Busy.noConfusion hbusy
  closing _ hbusy := Busy.noConfusion hbusy

/-- A connection is on its way, with the descriptors in flight that it has. -/
theorem flight (h : Sound s) {fds : FdTable} {fd : Nat} {move : Move} {ours : Finset Nat}
    (hours : ∀ n, n ∈ ours ↔ (∃ a, s.reg.MasterOn a n) ∨ n ∈ (Busy.accepting fd move).inFlight)
    (hopened : ∀ n, n ∈ ours → fds.files n ≠ none)
    (hapart : ∀ a n, s.reg.MasterOn a n → n ∉ (Busy.accepting fd move).inFlight)
    (hmoved : ∀ d, move = .close d → 0 ≤ d ∧ d.toNat ≠ fd) (hsettled : ∀ sock, move = .ret sock → 0 ≤ sock) :
    Sound { s with fds := fds, busy := .accepting fd move, ours := ours } where
  reg := h.reg
  clones := h.clones
  ours n := by
    rw [hours]
    constructor
    · rintro (⟨a, ha⟩ | hmem)
      · exact Or.inl ⟨a, ha, Busy.noConfusion⟩
      · exact Or.inr hmem
    · rintro (⟨a, ha, _⟩ | hmem)
      · exact Or.inl ⟨a, ha⟩
      · exact Or.inr hmem
  opened := hopened
  apart := hapart
  moved fd' d hbusy := by
    cases hbusy
    exact hmoved d rfl
  settled fd' sock hbusy := by
    cases hbusy
    exact hsettled sock rfl
  closing _ hbusy := Busy.noConfusion hbusy

/-- While a connection is on its way, the library's descriptors are the sockets of the masters and those in flight. -/
theorem ours_accepting (h : Sound s) {fd : Nat} {move : Move} (hbusy : s.busy = .accepting fd move) (n : Nat) :
    n ∈ s.ours ↔ (∃ a, s.reg.MasterOn a n) ∨ n ∈ (Busy.accepting fd move).inFlight := by
  rw [h.ours, hbusy]
  constructor
  · rintro (⟨a, ha, _⟩ | hmem)
    · exact Or.inl ⟨a, ha⟩
    · exact Or.inr hmem
  · rintro (⟨a, ha⟩ | hmem)
    · exact Or.inl ⟨a, ha, Busy.noConfusion⟩
    · exact Or.inr hmem

/-- Two masters have two sockets. -/
theorem masterOn_unique (h : Sound s) {a b : Addr} {n : Nat} (ha : s.reg.MasterOn a n) (hb : s.reg.MasterOn b n) :
    a = b := by
  have hslot := (h.reg.sock n a).mpr ha
  rw [(h.reg.sock n b).mpr hb] at hslot
  exact (XprtPtr.ref.inj hslot).symm

/-- A descriptor that is free is not the library's. -/
theorem not_ours (h : Sound s) {n : Nat} (hfree : s.fds.Free n) : n ∉ s.ours := fun hmem => h.opened n hmem hfree.2

/-- One more descriptor is open. -/
theorem opened_insert (h : Sound s) (n file : Nat) : ∀ m, m ∈ insert n s.ours → (s.fds.opened n file).files m ≠ none := by
  intro m hm
  by_cases hmn : m = n
  · rw [hmn, FdTable.opened_self]
    exact Option.some_ne_none _
  · rw [FdTable.opened_of_ne _ _ hmn]
    exact h.opened m (Finset.mem_of_mem_insert_of_ne hm hmn)

theorem opened_closed (h : Sound s) {n : Nat} : ∀ m, m ∈ s.ours.erase n → (s.fds.closed n).files m ≠ none := by
  intro m hm
  obtain ⟨hmn, hm⟩ := Finset.mem_erase.mp hm
  rw [FdTable.closed_of_ne _ hmn]
  exact h.opened m hm

/-- A master is entered on a socket that is no master's. -/
theorem enters (h : Sound s) {a : Addr} {sock port : Nat} {clone : Bool} {priv : π} (ha : s.reg.heap a = none)
    (hnone : ∀ b, ¬s.reg.MasterOn b sock) (hlt : sock < s.reg.xportsSize) (hroom : s.reg.xportsCount < s.reg.xportsSize) :
    ∃ reg, s.reg.regStep (.register a sock port clone priv .idle) = some reg ∧ RegInv reg ∧ CloneSocks reg ∧
      ∀ b n, reg.MasterOn b n ↔ s.reg.MasterOn b n ∨ b = a ∧ n = sock := by
  have hallowed : Allowed s.reg (.register a sock port clone priv .idle) := ⟨hlt, h.vacant hnone, h.room hroom⟩
  have hposs : (RegOp.register a sock port clone priv .idle).possible s.reg = true := Option.isNone_iff_eq_none.mpr ha
  obtain ⟨reg, hreg, hinv⟩ := h.reg.regStep hposs hallowed
  have hadd := register_added hreg
  exact ⟨reg, hreg, hinv, h.clones.added hadd fun hne => absurd rfl hne, fun b n => hadd.masterOn⟩

/-- A descriptor that becomes the socket of a master. -/
theorem register (h : Sound s) (hidle : s.busy = .idle) {fds : FdTable} {a : Addr} {sock port : Nat} {clone : Bool} {priv : π}
    (ha : s.reg.heap a = none) (hsock : sock ∉ s.ours) (hlt : sock < s.reg.xportsSize)
    (hroom : s.reg.xportsCount < s.reg.xportsSize)
    (hkept : ∀ n, n ∈ insert sock s.ours → fds.files n ≠ none) :
    ∃ t, Descriptors.register s fds a sock port clone priv = some t ∧ Sound t := by
  have hnone : ∀ b, ¬s.reg.MasterOn b sock := fun b hb => hsock ((h.ours_idle hidle sock).mpr ⟨b, hb⟩)
  obtain ⟨reg, hreg, hinv, hclones, hon⟩ := @enters _ _ h a sock port clone priv ha hnone hlt hroom
  refine ⟨{ s with reg := reg, fds := fds, busy := .idle, ours := insert sock s.ours }, ?_, ?_⟩
  · unfold Descriptors.register
    rw [hreg, ← hidle]
    rfl
  · refine settle s hinv hclones (fun n => ?_) hkept
    rw [Finset.mem_insert, h.ours_idle hidle]
    constructor
    · rintro (rfl | ⟨b, hb⟩)
      · exact ⟨a, (hon a n).mpr (Or.inr ⟨rfl, rfl⟩)⟩
      · exact ⟨b, (hon b n).mpr (Or.inl hb)⟩
    · rintro ⟨b, hb⟩
      obtain hb | ⟨_, rfl⟩ := (hon b n).mp hb
      · exact Or.inr ⟨b, hb⟩
      · exact Or.inl rfl

theorem create (h : Sound s) (hidle : s.busy = .idle) {given : Option Nat} {answer : Option (Nat × Nat)} {works : Bool}
    {a : Addr} {port : Nat} {clone : Bool} {priv : π} (ha : s.reg.heap a = none)
    (hfree : ∀ r, answer = some r → s.fds.Free r.1) (hroom : s.reg.xportsCount < s.reg.xportsSize)
    (hgiven : ∀ sock, given = some sock → sock ∉ s.ours ∧ s.fds.files sock ≠ none ∧ sock < s.reg.xportsSize)
    (hlt : ∀ r, answer = some r → r.1 < s.reg.xportsSize) :
    ∃ t, Descriptors.create s given answer works a port clone priv = some t ∧ Sound t := by
  cases given with
  | some sock =>
      obtain ⟨hours, hopen, hsock⟩ := hgiven sock rfl
      cases works with
      | false => exact ⟨s, rfl, h⟩
      | true =>
          refine h.register hidle ha hours hsock hroom fun n hn => ?_
          rcases Finset.mem_insert.mp hn with rfl | hn
          · exact hopen
          · exact h.opened n hn
  | none =>
      cases answer with
      | none => exact ⟨s, rfl, h⟩
      | some r =>
          obtain ⟨sock, file⟩ := r
          have hsock := hfree _ rfl
          rw [Descriptors.create]
          dsimp only
          rw [if_pos hsock]
          cases works with
          | true => exact h.register hidle ha (h.not_ours hsock) (hlt _ rfl) hroom (h.opened_insert sock file)
          | false =>
              refine ⟨_, rfl, h.files fun n hn => ?_⟩
              have hne : n ≠ sock := by
                rintro rfl
                exact h.not_ours hsock hn
              rw [FdTable.closed_of_ne _ hne, FdTable.opened_of_ne _ _ hne]
              exact h.opened n hn

theorem inFlight_start (region : FdRegion) (fd : Nat) : (Busy.accepting fd (Move.start region fd)).inFlight = [fd] := by
  unfold Move.start
  split
  · rfl
  · split
    · rfl
    · rfl

theorem accept (h : Sound s) (hidle : s.busy = .idle) {fd file : Nat} (hfree : s.fds.Free fd) :
    Sound { s with
      fds := s.fds.opened fd file, busy := .accepting fd (Move.start s.region fd), ours := insert fd s.ours } := by
  refine h.flight (fun n => ?_) (h.opened_insert fd file) (fun a n ha => ?_) (fun d hd => ?_) fun sock hsock => ?_
  · rw [inFlight_start, Finset.mem_insert, List.mem_singleton, h.ours_idle hidle]
    exact Or.comm
  · rw [inFlight_start, List.mem_singleton]
    rintro rfl
    exact h.not_ours hfree ((h.ours_idle hidle n).mpr ⟨a, ha⟩)
  · unfold Move.start at hd
    split at hd
    · cases hd
    · split at hd
      · cases hd
      · cases hd
  · unfold Move.start at hsock
    split at hsock
    · cases hsock
      exact Int.natCast_nonneg fd
    · split at hsock
      · cases hsock
      · cases hsock

theorem fd_open (h : Sound s) {fd : Nat} {move : Move} (hbusy : s.busy = .accepting fd move)
    (hmem : fd ∈ (Busy.accepting fd move).inFlight) : ∃ file, s.fds.files fd = some file :=
  Option.ne_none_iff_exists'.mp (h.opened fd ((h.ours_accepting hbusy fd).mpr (Or.inr hmem)))

/-- The walk goes on to another number of the region. -/
theorem advances (h : Sound s) {fd : Nat} {n : Int} {move move' : Move} (hbusy : s.busy = .accepting fd move)
    (hflight : (Busy.accepting fd move).inFlight = [fd]) (hadv : Move.advance s.region n = some move') :
    Sound { s with busy := .accepting fd move' } := by
  obtain ⟨n', rfl⟩ := Relocation.advance_test hadv
  refine h.flight (fun m => ?_) h.opened (fun a m ha => ?_) (fun d hd => ?_) fun sock hsock => ?_
  · rw [h.ours_accepting hbusy, hflight]
    rfl
  · have hnot := h.apart a m ha
    rw [hbusy, hflight] at hnot
    exact hnot
  · cases hd
  · cases hsock

theorem moveFd (h : Sound s) {fd : Nat} {move : Move} (hbusy : s.busy = .accepting fd move)
    (hgranted : ∀ newFd, move = .dup newFd →
      newFd ≠ -1 ∧ (newFd < 0 ∨ s.fds.Free newFd.toNat ∨ s.fds.lowestFree newFd.toNat = none))
    {r : Move × FdTable} (hr : move.step s.region fd s.fds = some r) :
    Sound { s with fds := r.2, busy := .accepting fd r.1, ours := afterMove s fd move } := by
  have hours := h.ours_accepting hbusy
  cases move with
  | test newFd =>
      rw [Move.step] at hr
      split at hr
      · obtain ⟨m, hadv, rfl⟩ := Option.map_eq_some_iff.mp hr
        exact h.advances hbusy rfl hadv
      · cases hr
        refine h.flight hours h.opened (fun a m ha => ?_) (fun d hd => ?_) fun sock hsock => ?_
        · have hnot := h.apart a m ha
          rw [hbusy] at hnot
          exact hnot
        · cases hd
        · cases hsock
  | dup newFd =>
      obtain ⟨hne, hgranted⟩ := hgranted newFd rfl
      obtain ⟨file, hfile⟩ := h.fd_open hbusy (List.mem_singleton_self fd)
      rw [Move.step] at hr
      rw [afterMove]
      obtain hdup | ⟨hnonneg, hfree, hdup⟩ := FdTable.dupfd_granted hfile hgranted
      · rw [hdup] at hr ⊢
        have hminus : ¬(0 : Int) ≤ -1 := by decide
        rw [if_neg hminus]
        dsimp only at hr
        rw [if_neg hne.symm] at hr
        obtain ⟨m, hadv, rfl⟩ := Option.map_eq_some_iff.mp hr
        exact h.advances hbusy rfl hadv
      · rw [hdup] at hr ⊢
        rw [if_pos hnonneg]
        dsimp only at hr ⊢
        rw [if_pos rfl] at hr
        cases hr
        have hnot := h.not_ours hfree
        refine h.flight (fun n => ?_) (h.opened_insert _ _) (fun a n ha => ?_) (fun d hd => ?_) fun sock hsock => ?_
        · rw [Finset.mem_insert, hours]
          simp only [Busy.inFlight, List.mem_cons, List.not_mem_nil, or_false]
          tauto
        · simp only [Busy.inFlight, List.mem_cons, List.not_mem_nil, or_false, not_or]
          have hapart := h.apart a n ha
          rw [hbusy] at hapart
          refine ⟨fun heq => hapart (List.mem_singleton.mpr heq), ?_⟩
          rintro rfl
          exact hnot ((hours _).mpr (Or.inl ⟨a, ha⟩))
        · cases hd
          refine ⟨hnonneg, ?_⟩
          intro heq
          rw [heq] at hfree
          rw [hfree.2] at hfile
          cases hfile
        · cases hsock
  | close dupFd =>
      obtain ⟨hnonneg, hne⟩ := h.moved fd dupFd hbusy
      cases hr
      refine h.flight (fun n => ?_) h.opened_closed (fun a n ha => ?_) (fun d hd => ?_) fun sock hsock => ?_
      · rw [afterMove, Finset.mem_erase, hours]
        simp only [Busy.inFlight, List.mem_cons, List.not_mem_nil, or_false]
        constructor
        · rintro ⟨hnfd, hon | heq | heq⟩
          · exact Or.inl hon
          · exact absurd heq hnfd
          · exact Or.inr heq
        · rintro (⟨a, ha⟩ | rfl)
          · refine ⟨?_, Or.inl ⟨a, ha⟩⟩
            rintro rfl
            have hapart := h.apart a n ha
            rw [hbusy] at hapart
            exact hapart List.mem_cons_self
          · exact ⟨hne, Or.inr (Or.inr rfl)⟩
      · have hapart := h.apart a n ha
        rw [hbusy] at hapart
        intro hmem
        exact hapart (List.mem_cons_of_mem _ hmem)
      · cases hd
      · cases hsock
        exact hnonneg
  | ret sock => cases hr

theorem makefdXprt (h : Sound s) {fd : Nat} {sock : Int} (hbusy : s.busy = .accepting fd (.ret sock)) {a : Addr} {priv : π}
    (ha : s.reg.heap a = none) (hlt : sock.toNat < s.reg.xportsSize) (hroom : s.reg.xportsCount < s.reg.xportsSize) :
    ∃ reg, s.reg.regStep (.register a sock.toNat 0 false priv .idle) = some reg ∧
      Sound { s with reg := reg, busy := .idle } := by
  have hnone : ∀ b, ¬s.reg.MasterOn b sock.toNat := by
    intro b hb
    have hapart := h.apart b _ hb
    rw [hbusy] at hapart
    exact hapart (List.mem_singleton_self _)
  obtain ⟨reg, hreg, hinv, hclones, hon⟩ := @enters _ _ h a sock.toNat 0 false priv ha hnone hlt hroom
  refine ⟨reg, hreg, settle s hinv hclones (fun n => ?_) h.opened⟩
  rw [h.ours_accepting hbusy, Busy.inFlight, List.mem_singleton]
  constructor
  · rintro (⟨b, hb⟩ | rfl)
    · exact ⟨b, (hon b n).mpr (Or.inl hb)⟩
    · exact ⟨a, (hon a _).mpr (Or.inr ⟨rfl, rfl⟩)⟩
  · rintro ⟨b, hb⟩
    obtain hb | ⟨_, rfl⟩ := (hon b n).mp hb
    · exact Or.inl ⟨b, hb⟩
    · exact Or.inr rfl

theorem clone (h : Sound s) (hidle : s.busy = .idle) {p a : Addr} {priv : π}
    (hposs : (RegOp.clone p a priv).possible s.reg = true) (hroom : s.reg.xportsCount < s.reg.xportsSize) :
    ∃ reg, s.reg.regStep (.clone p a priv) = some reg ∧ Sound { s with reg := reg } := by
  have hallowed : Allowed s.reg (.clone p a priv) := h.room hroom
  obtain ⟨reg, hreg, hinv⟩ := h.reg.regStep hposs hallowed
  obtain ⟨px, hpx, hmaster, hadd⟩ := clone_added hreg
  have hne : px.mtxpId ≠ noParent := (h.reg.lt_sizeMax (h.reg.id_lt hpx)).ne
  have hclones := h.clones.added hadd fun _ => ⟨p, px, hpx, rfl, hmaster, rfl⟩
  refine ⟨reg, hreg, ?_⟩
  have hsettled := settle s hinv hclones (fun n => ?_) h.opened
  · rw [← hidle] at hsettled
    exact hsettled
  · rw [h.ours_idle hidle]
    exact exists_congr fun b => (hadd.masterOn_clone hne).symm

theorem destroy (h : Sound s) (hidle : s.busy = .idle) {a : Addr} {x : Svcxprt π} (hx : s.reg.heap a = some x)
    (hfree : x.mtxpParent ≠ noParent ∨ x.mtxpRefcnt = 0) : Sound (closeSocket s a x) := by
  have hcloses : x.mtxpParent ≠ noParent ∨ s.reg.liveClones x.mtxpId = ∅ := by
    by_cases hmaster : x.mtxpParent = noParent
    · exact Or.inr (h.reg.liveClones_empty hx hmaster (hfree.resolve_left fun hne => hne hmaster))
    · exact Or.inl hmaster
  have hours := h.ours_idle hidle
  unfold closeSocket
  split
  · rename_i hmaster
    have hon : s.reg.MasterOn a x.xpSock := ⟨x, hx, hmaster.1, rfl⟩
    refine ⟨h.reg, h.clones, fun n => ?_, h.opened_closed, fun _ _ _ => List.not_mem_nil, fun _ _ hbusy => ?_,
      fun _ _ hbusy => ?_, fun b hb => ?_⟩
    · rw [Finset.mem_erase, hours]
      constructor
      · rintro ⟨hne, b, hb⟩
        refine Or.inl ⟨b, hb, ?_⟩
        intro heq
        cases heq
        obtain ⟨y, hy, _, hsock⟩ := hb
        cases hx.symm.trans hy
        exact hne hsock.symm
      · rintro (⟨b, hb, hne⟩ | hmem)
        · refine ⟨?_, b, hb⟩
          rintro rfl
          exact hne (congrArg Busy.closing (h.masterOn_unique hon hb))
        · exact absurd hmem List.not_mem_nil
    · cases hbusy
    · cases hbusy
    · cases hb
      exact ⟨x, hx, hcloses⟩
  · rename_i hkept
    have hclone : x.mtxpParent ≠ noParent := by
      intro hmaster
      refine hkept ⟨hmaster, ?_⟩
      have hopen := h.opened x.xpSock ((hours _).mpr ⟨a, x, hx, hmaster, rfl⟩)
      rw [FdTable.fdIsOpen, Bool.and_eq_true, decide_eq_true_iff, Int.toNat_natCast]
      exact ⟨Int.natCast_nonneg _, Option.isSome_iff_ne_none.mpr hopen⟩
    refine ⟨h.reg, h.clones, fun n => ?_, h.opened, fun _ _ _ => List.not_mem_nil, fun _ _ hbusy => ?_,
      fun _ _ hbusy => ?_, fun b hb => ?_⟩
    · rw [hours]
      constructor
      · rintro ⟨b, hb⟩
        refine Or.inl ⟨b, hb, ?_⟩
        intro heq
        cases heq
        obtain ⟨y, hy, hmaster, _⟩ := hb
        cases hx.symm.trans hy
        exact hclone hmaster
      · rintro (⟨b, hb, _⟩ | hmem)
        · exact ⟨b, hb⟩
        · exact absurd hmem List.not_mem_nil
    · cases hbusy
    · cases hbusy
    · cases hb
      exact ⟨x, hx, hcloses⟩

theorem unregister (h : Sound s) {a : Addr} (hbusy : s.busy = .closing a) :
    ∃ reg, s.reg.regStep (.unregister a) = some reg ∧ Sound { s with reg := reg, busy := .idle } := by
  obtain ⟨x, hx, hfree⟩ := h.closing a hbusy
  have hposs : (RegOp.unregister a).possible s.reg = true := by
    show (s.reg.heap a).isSome = true
    rw [hx]
    rfl
  have hallowed : Allowed s.reg (.unregister a) := by
    intro y hy
    cases hx.symm.trans hy
    exact hfree
  obtain ⟨reg, hreg, hinv⟩ := h.reg.regStep hposs hallowed
  obtain ⟨hrem, _⟩ := unregister_removed hreg
  refine ⟨reg, hreg, settle s hinv (h.clones.removed hrem hx hfree) (fun n => ?_) h.opened⟩
  rw [h.ours, hbusy]
  constructor
  · rintro (⟨b, hb, hne⟩ | hmem)
    · exact ⟨b, hrem.masterOn.mpr ⟨hb, fun heq => hne (congrArg Busy.closing heq.symm)⟩⟩
    · exact absurd hmem List.not_mem_nil
  · rintro ⟨b, hb⟩
    obtain ⟨hb, hne⟩ := hrem.masterOn.mp hb
    exact Or.inl ⟨b, hb, fun heq => hne (Busy.closing.inj heq).symm⟩

end Sound

/-- What an orderly step that is possible does: it succeeds, unless the region is used up. -/
theorem Sound.step {s : Server π} (h : Sound s) {e : Event π} (hposs : Possible s e) (hok : Orderly s e)
    (hleft : ¬UsedUp s e) : ∃ t, Descriptors.step s e = some t ∧ Sound t := by
  cases e with
  | opened n file =>
      refine ⟨_, if_pos hposs, h.files fun m hm => ?_⟩
      exact h.opened_insert n file m (Finset.mem_insert_of_mem hm)
  | closed n =>
      refine ⟨_, rfl, h.files fun m hm => ?_⟩
      have hne : m ≠ n := by
        rintro rfl
        exact hok hm
      exact h.opened_closed m (Finset.mem_erase.mpr ⟨hne, hm⟩)
  | create given answer works a port clone priv =>
      obtain ⟨hidle, ha, hfree⟩ := hposs
      obtain ⟨hroom, hgiven, hlt⟩ := hok
      obtain ⟨t, ht, hsound⟩ := @Sound.create _ _ h hidle given answer works a port clone priv ha hfree hroom hgiven hlt
      exact ⟨t, (if_pos hidle).trans ht, hsound⟩
  | accept answer =>
      obtain ⟨hidle, hfree⟩ := hposs
      cases answer with
      | none => exact ⟨s, if_pos hidle, h⟩
      | some r => exact ⟨_, (if_pos hidle).trans (if_pos (hfree r rfl)), h.accept hidle (hfree r rfl)⟩
  | moveFd =>
      obtain ⟨fd, move, hbusy, hret⟩ := hposs
      obtain ⟨r, hr⟩ := moveFd_returns hbusy hret hleft
      refine ⟨_, ?_, h.moveFd hbusy (fun newFd hmove => hok fd newFd (hmove ▸ hbusy)) hr⟩
      simp only [Descriptors.step, hbusy, hr]
      rfl
  | makefdXprt a priv =>
      obtain ⟨⟨fd, sock, hbusy⟩, ha⟩ := hposs
      obtain ⟨hroom, hlt⟩ := hok
      obtain ⟨reg, hreg, hsound⟩ := @Sound.makefdXprt _ _ h fd sock hbusy a priv ha (hlt fd sock hbusy) hroom
      refine ⟨_, ?_, hsound⟩
      simp only [Descriptors.step, hbusy]
      rw [if_pos (h.settled fd sock hbusy), hreg]
      rfl
  | clone p a priv =>
      obtain ⟨hidle, hposs⟩ := hposs
      obtain ⟨reg, hreg, hsound⟩ := h.clone hidle hposs hok
      refine ⟨_, ?_, hsound⟩
      rw [Descriptors.step, if_pos hidle, hreg]
      rfl
  | destroy a =>
      obtain ⟨hidle, hlive⟩ := hposs
      obtain ⟨x, hx⟩ := Option.ne_none_iff_exists'.mp hlive
      refine ⟨_, ?_, h.destroy hidle hx (hok x hx)⟩
      rw [Descriptors.step, if_pos hidle, hx]
      rfl
  | unregister =>
      obtain ⟨a, hbusy⟩ := hposs
      obtain ⟨reg, hreg, hsound⟩ := h.unregister hbusy
      refine ⟨_, ?_, hsound⟩
      simp only [Descriptors.step, hbusy, hreg]
      rfl

/-- A server with four descriptors open and no region for sockets. -/
def fourOpen : Server Unit := start 8 Relocation.smallTable ⟨0, 0, 0⟩

end RpcMt.Descriptors
