import RpcMt.MoveFd
import RpcMt.Registry
import RpcMt.Runs

/-! The socket of a transport as an index. `create_xports` gives `sock_xports` and `sock_sfr` an entry for
each descriptor that the process may have, but at most `FD_SETSIZE`; `svctcp_create`, `svcudp_bufcreate`
and `rendezvous_request` enter whatever descriptor they have come by. A process is configured, opens and
closes descriptors, creates transports and accepts connections, which `move_fd` relocates. -/

namespace RpcMt

open Runs

namespace SocketRange

/-- The arrays that a socket indexes. -/
structure SockTables where
  xportsSize : Nat
  sockXports : List XprtPtr
  sockSfr : List Bool

/-- `create_xports`. -/
def createXports (dtablesize : Nat) : SockTables :=
  let size := if Registry.fdSetsize < dtablesize then Registry.fdSetsize else dtablesize
  ⟨size, List.replicate size .bad, List.replicate size false⟩

/-- `socket_to_xprt`. -/
def SockTables.socketToXprt (t : SockTables) (fd : Int) : Res XprtPtr :=
  if fd < 0 ∨ t.xportsSize < fd.toNat then .error .svcDie
  else match t.sockXports[fd.toNat]? with
    | none => .error .slotOutOfBounds
    | some p => .ok p

/-- `sfr_track_xprt_socket`: a write to `sock_sfr` and one to `sock_xports`. -/
def SockTables.track (t : SockTables) (sock : Int) (xprt : Addr) : SockTables :=
  if sock < 0 then t
  else { t with
    sockXports := t.sockXports.set sock.toNat (.ref xprt)
    sockSfr := t.sockSfr.set sock.toNat true }

/-- A transport that was given to `xprt_register`. -/
structure Registered where
  xprt : Addr
  xpSock : Int

/-- The thread inside `rendezvous_request`, which holds `poll_lock`. -/
structure Rendezvous where
  acceptSock : Nat
  move : Move

structure Process where
  config : SvcConfig.Config
  fds : FdTable
  tables : Option SockTables
  rendezvous : Option Rendezvous
  registered : List Registered

/-- The part of `xprt_register` that is about the socket. -/
def Process.xprtRegister (s : Process) (xprt : Addr) (sock : Int) : Process :=
  let t := s.tables.getD (createXports s.fds.limit)
  { s with tables := some (t.track sock xprt), registered := ⟨xprt, sock⟩ :: s.registered }

/-- `RPC_ANYSOCK`. -/
def rpcAnysock : Int := -1

inductive Event where
  | config (cmd : List Char)
  | opened (n file : Nat)
  | closed (n : Nat)
  | create (sock : Int) (answer file : Nat) (xprt : Addr)
  | accept (answer file : Nat)
  | moveFd
  | makefdXprt (xprt : Addr)

/-- One event: a command, a descriptor opened or closed elsewhere, `svctcp_create` or `svcudp_bufcreate`
(without a socket of the caller's, `socket()` answers; with one, `getsockname` must know it), and the parts
of `rendezvous_request`. -/
def step (s : Process) : Event → Option Process
  | .config cmd => (SvcConfig.svcConfig cmd s.config).toOption.map fun r => { s with config := r.2 }
  | .opened n file => if s.fds.Free n then some { s with fds := s.fds.opened n file } else none
  | .closed n => some { s with fds := s.fds.closed n }
  | .create sock answer file xprt =>
      if sock = rpcAnysock then
        if s.fds.Free answer then some ({ s with fds := s.fds.opened answer file }.xprtRegister xprt answer)
        else none
      else if s.fds.fdIsOpen sock then some (s.xprtRegister xprt sock)
      else some s
  | .accept answer file =>
      if s.rendezvous.isNone ∧ s.fds.Free answer then
        some { s with
          fds := s.fds.opened answer file
          rendezvous := some ⟨answer, Move.start s.config.socketFdRegion answer⟩ }
      else none
  | .moveFd => do
      let r ← s.rendezvous
      let (move, fds) ← r.move.step s.config.socketFdRegion r.acceptSock s.fds
      some { s with fds := fds, rendezvous := some { r with move := move } }
  | .makefdXprt xprt =>
      match s.rendezvous with
      | some ⟨_, .ret sock⟩ => some ({ s with rendezvous := none }.xprtRegister xprt sock)
      | _ => none

/-- A process before its first transport, with this descriptor limit. -/
def start (limit : Nat) (files : Nat → Option Nat) : Process :=
  ⟨SvcConfig.initial, ⟨limit, files⟩, none, none, []⟩

/-- Every access to `sock_xports`, to `sock_sfr` and through `socket_to_xprt` is inside its array. -/
structure InArrays (t : SockTables) (sock : Int) : Prop where
  nonneg : 0 ≤ sock
  lt : sock.toNat < t.xportsSize
  sockXports : ∃ p, t.sockXports[sock.toNat]? = some p
  sockSfr : ∃ b, t.sockSfr[sock.toNat]? = some b
  socketToXprt : ∃ p, t.socketToXprt sock = .ok p

def Process.Sound (s : Process) : Prop := ∀ x ∈ s.registered, ∃ t, s.tables = some t ∧ InArrays t x.xpSock

/-- The numbers that no array lacks: descriptors below the limit and below `FD_SETSIZE`. -/
def Small (limit : Nat) (fd : Int) : Prop := 0 ≤ fd ∧ fd.toNat < limit ∧ fd.toNat < Registry.fdSetsize

/-- A descriptor that is to be a socket as it is, or one that `move_fd` asks for and gets, is small. -/
def GivesSmall (s : Process) : Event → Prop
  | .create sock answer _ _ =>
      if sock = rpcAnysock then answer < Registry.fdSetsize else s.fds.fdIsOpen sock = true → Small s.fds.limit sock
  | .accept answer _ => s.config.socketFdRegion.order = 0 → answer < Registry.fdSetsize
  | .moveFd => ∀ acceptSock newFd, s.rendezvous = some ⟨acceptSock, .dup newFd⟩ →
      (s.fds.dupfd acceptSock newFd).1 = newFd → 0 ≤ newFd ∧ newFd.toNat < Registry.fdSetsize
  | _ => True

/-- The descriptor that a step makes a socket of, or that it is about to. -/
def given (s : Process) : Event → Option Int
  | .create sock answer _ _ => some (if sock = rpcAnysock then answer else sock)
  | .accept answer _ => some answer
  | .moveFd =>
      match s.rendezvous with
      | some ⟨_, .dup newFd⟩ => some newFd
      | _ => none
  | _ => none

/-- The thread inside `rendezvous_request` goes on, and nothing else happens. -/
def OfRendezvous (_ : Process) : Event → Prop
  | .moveFd => True
  | .makefdXprt _ => True
  | _ => False

/-- One more transport than in `s` has been registered, with this socket, which is outside the arrays. -/
structure EntersOutside (s u : Process) (fd : Int) : Prop where
  registered : ∃ xprt, u.registered = ⟨xprt, fd⟩ :: s.registered
  outside : ∃ t, u.tables = some t ∧ ¬ InArrays t fd

/-! ### The arrays -/

/-- The arrays have the entries that `create_xports` gave them. -/
structure SockTables.Sized (limit : Nat) (t : SockTables) : Prop where
  size : t.xportsSize = min Registry.fdSetsize limit
  sockXports : t.sockXports.length = t.xportsSize
  sockSfr : t.sockSfr.length = t.xportsSize

theorem sized_createXports (limit : Nat) : (createXports limit).Sized limit where
  size := by
    simp only [createXports]
    split <;> omega
  sockXports := List.length_replicate
  sockSfr := List.length_replicate

theorem SockTables.Sized.track {limit : Nat} {t : SockTables} (h : t.Sized limit) (sock : Int) (xprt : Addr) :
    (t.track sock xprt).Sized limit := by
  unfold SockTables.track
  split
  · exact h
  · exact ⟨h.size, List.length_set.trans h.sockXports, List.length_set.trans h.sockSfr⟩

theorem inArrays_iff {limit : Nat} {t : SockTables} (h : t.Sized limit) {sock : Int} :
    InArrays t sock ↔ Small limit sock := by
  have hsize := h.size
  constructor
  · intro hin
    have hlt := hin.lt
    exact ⟨hin.nonneg, by omega, by omega⟩
  · rintro ⟨hpos, hlimit, hset⟩
    have hlt : sock.toNat < t.xportsSize := by omega
    have hentry : ∃ p, t.sockXports[sock.toNat]? = some p :=
      ⟨_, List.getElem?_eq_getElem (by rw [h.sockXports]; exact hlt)⟩
    refine ⟨hpos, hlt, hentry, ⟨_, List.getElem?_eq_getElem (by rw [h.sockSfr]; exact hlt)⟩, ?_⟩
    obtain ⟨p, hp⟩ := hentry
    refine ⟨p, ?_⟩
    rw [SockTables.socketToXprt, if_neg (by omega), hp]

/-! ### Runs -/

/-- What every run keeps: the limit, and arrays of their size as soon as there is a transport. -/
structure Process.Ok (limit : Nat) (s : Process) : Prop where
  limit_eq : s.fds.limit = limit
  tables : ∀ t, s.tables = some t → t.Sized limit
  entered : s.registered ≠ [] → s.tables.isSome

/-- The descriptor that `move_fd` has settled on. -/
def settled : Move → Option Int
  | .close fd => some fd
  | .ret fd => some fd
  | _ => none

/-- Every socket is small, and so is the descriptor that is about to be one. -/
structure Process.AllSmall (limit : Nat) (s : Process) : Prop where
  registered : ∀ x ∈ s.registered, Small limit x.xpSock
  settled : ∀ r, s.rendezvous = some r → ∀ fd ∈ settled r.move, Small limit fd

variable {limit : Nat} {s t : Process} {e : Event}

theorem Process.Ok.xprtRegister (h : s.Ok limit) (xprt : Addr) (sock : Int) : (s.xprtRegister xprt sock).Ok limit where
  limit_eq := h.limit_eq
  tables t ht := by
    cases ht
    apply SockTables.Sized.track
    cases htab : s.tables with
    | none => exact h.limit_eq ▸ sized_createXports s.fds.limit
    | some t => exact h.tables t htab
  entered _ := rfl

theorem Move.step_limit {region : FdRegion} {fd : Nat} {fds fds' : FdTable} {m m' : Move}
    (h : m.step region fd fds = some (m', fds')) : fds'.limit = fds.limit := by
  cases m with
  | test newFd =>
      simp only [Move.step] at h
      split at h
      · obtain ⟨_, _, heq⟩ := Option.map_eq_some_iff.mp h
        cases heq
        rfl
      · cases h
        rfl
  | dup newFd =>
      simp only [Move.step] at h
      split at h
      · cases h
        exact fds.dupfd_limit fd newFd
      · obtain ⟨_, _, heq⟩ := Option.map_eq_some_iff.mp h
        cases heq
        exact fds.dupfd_limit fd newFd
  | close dupFd =>
      cases h
      rfl
  | ret fd => cases h

/-- What `move_fd` settles on is what it has settled on before, or a number that it has just got. -/
theorem Move.step_settled {region : FdRegion} {fd : Nat} {fds fds' : FdTable} {m m' : Move}
    (h : m.step region fd fds = some (m', fds')) {r : Int} (hr : r ∈ settled m') :
    r ∈ settled m ∨ m = .dup r ∧ (fds.dupfd fd r).1 = r := by
  have hadvance : ∀ {newFd : Int} {m'' : Move}, Move.advance region newFd = some m'' → settled m'' = none := by
    intro newFd m'' hadv
    simp only [Move.advance] at hadv
    split at hadv
    · cases hadv
    · cases hadv
      rfl
  cases m with
  | test newFd =>
      simp only [Move.step] at h
      split at h
      · obtain ⟨_, hadv, heq⟩ := Option.map_eq_some_iff.mp h
        cases heq
        rw [hadvance hadv] at hr
        cases hr
      · cases h
        cases hr
  | dup newFd =>
      simp only [Move.step] at h
      split at h
      · rename_i hgot
        cases h
        cases hr
        exact Or.inr ⟨rfl, hgot⟩
      · obtain ⟨_, hadv, heq⟩ := Option.map_eq_some_iff.mp h
        cases heq
        rw [hadvance hadv] at hr
        cases hr
  | close dupFd =>
      cases h
      exact Or.inl hr
  | ret fd => cases h

/-! What a step that can be taken does. -/

theorem step_opened {n file : Nat} (hst : step s (.opened n file) = some t) :
    t = { s with fds := s.fds.opened n file } := by
  simp only [step] at hst
  split at hst
  · cases hst
    rfl
  · cases hst

theorem step_create_cases {sock : Int} {answer file : Nat} {xprt : Addr}
    (hst : step s (.create sock answer file xprt) = some t) :
    (sock = rpcAnysock ∧ s.fds.Free answer ∧
        t = { s with fds := s.fds.opened answer file }.xprtRegister xprt answer) ∨
      (sock ≠ rpcAnysock ∧ s.fds.fdIsOpen sock = true ∧ t = s.xprtRegister xprt sock) ∨
      (sock ≠ rpcAnysock ∧ s.fds.fdIsOpen sock = false ∧ t = s) := by
  simp only [step] at hst
  split at hst
  · rename_i hany
    split at hst
    · rename_i hfree
      cases hst
      exact Or.inl ⟨hany, hfree, rfl⟩
    · cases hst
  · rename_i hany
    split at hst
    · rename_i hopen
      cases hst
      exact Or.inr (Or.inl ⟨hany, hopen, rfl⟩)
    · rename_i hclosed
      cases hst
      exact Or.inr (Or.inr ⟨hany, Bool.eq_false_iff.mpr hclosed, rfl⟩)

theorem step_accept {answer file : Nat} (hst : step s (.accept answer file) = some t) :
    s.fds.Free answer ∧ t = { s with
      fds := s.fds.opened answer file
      rendezvous := some ⟨answer, Move.start s.config.socketFdRegion answer⟩ } := by
  simp only [step] at hst
  split at hst
  · rename_i henabled
    cases hst
    exact ⟨henabled.2, rfl⟩
  · cases hst

theorem step_moveFd (hst : step s .moveFd = some t) :
    ∃ r move fds, s.rendezvous = some r ∧
      r.move.step s.config.socketFdRegion r.acceptSock s.fds = some (move, fds) ∧
      t = { s with fds := fds, rendezvous := some { r with move := move } } := by
  obtain ⟨r, hr, hst⟩ := Option.bind_eq_some_iff.mp hst
  obtain ⟨⟨move, fds⟩, hmove, hst⟩ := Option.bind_eq_some_iff.mp hst
  cases hst
  exact ⟨r, move, fds, hr, hmove, rfl⟩

theorem step_makefdXprt {xprt : Addr} (hst : step s (.makefdXprt xprt) = some t) :
    ∃ acceptSock sock, s.rendezvous = some ⟨acceptSock, .ret sock⟩ ∧
      t = { s with rendezvous := none }.xprtRegister xprt sock := by
  simp only [step] at hst
  split at hst
  · rename_i acceptSock sock hr
    cases hst
    exact ⟨acceptSock, sock, hr, rfl⟩
  · cases hst

theorem ok_step (h : s.Ok limit) (hst : step s e = some t) : t.Ok limit := by
  cases e with
  | config cmd =>
      obtain ⟨_, _, rfl⟩ := Option.map_eq_some_iff.mp hst
      exact ⟨h.limit_eq, h.tables, h.entered⟩
  | opened n file =>
      rw [step_opened hst]
      exact ⟨h.limit_eq, h.tables, h.entered⟩
  | closed n =>
      cases hst
      exact ⟨h.limit_eq, h.tables, h.entered⟩
  | create sock answer file xprt =>
      obtain ⟨_, _, rfl⟩ | ⟨_, _, rfl⟩ | ⟨_, _, rfl⟩ := step_create_cases hst
      · apply Process.Ok.xprtRegister
        exact ⟨h.limit_eq, h.tables, h.entered⟩
      · exact h.xprtRegister xprt sock
      · exact h
  | accept answer file =>
      obtain ⟨_, rfl⟩ := step_accept hst
      exact ⟨h.limit_eq, h.tables, h.entered⟩
  | moveFd =>
      obtain ⟨r, move, fds, _, hmove, rfl⟩ := step_moveFd hst
      exact ⟨(Move.step_limit hmove).trans h.limit_eq, h.tables, h.entered⟩
  | makefdXprt xprt =>
      obtain ⟨_, sock, _, rfl⟩ := step_makefdXprt hst
      apply Process.Ok.xprtRegister
      exact ⟨h.limit_eq, h.tables, h.entered⟩

theorem ok_reached {files : Nat → Option Nat} {cond : Process → Event → Prop}
    (hs : Reached step cond (start limit files) s) : s.Ok limit := by
  apply hs.invariant (Process.Ok limit)
  · exact ⟨rfl, fun _ ht => (nomatch ht), fun hne => absurd rfl hne⟩
  · exact fun _ _ _ ih _ hst => ok_step ih hst

theorem Process.AllSmall.xprtRegister (h : s.AllSmall limit) {sock : Int} (hsock : Small limit sock) (xprt : Addr) :
    (s.xprtRegister xprt sock).AllSmall limit where
  registered x hx := by
    rcases List.mem_cons.mp hx with rfl | hx
    · exact hsock
    · exact h.registered x hx
  settled := h.settled

theorem small_answer {fds : FdTable} {n : Nat} (hfree : fds.Free n) (h : n < Registry.fdSetsize) :
    Small fds.limit n :=
  ⟨Int.natCast_nonneg n, hfree.1, h⟩

theorem allSmall_step (hlimit : s.fds.limit = limit) (h : s.AllSmall limit) (hok : GivesSmall s e)
    (hst : step s e = some t) : t.AllSmall limit := by
  subst hlimit
  cases e with
  | config cmd =>
      obtain ⟨_, _, rfl⟩ := Option.map_eq_some_iff.mp hst
      exact ⟨h.registered, h.settled⟩
  | opened n file =>
      rw [step_opened hst]
      exact ⟨h.registered, h.settled⟩
  | closed n =>
      cases hst
      exact ⟨h.registered, h.settled⟩
  | create sock answer file xprt =>
      simp only [GivesSmall] at hok
      obtain ⟨hany, hfree, rfl⟩ | ⟨hany, hopen, rfl⟩ | ⟨_, _, rfl⟩ := step_create_cases hst
      · rw [if_pos hany] at hok
        apply Process.AllSmall.xprtRegister
        · exact ⟨h.registered, h.settled⟩
        · exact small_answer hfree hok
      · rw [if_neg hany] at hok
        exact h.xprtRegister (hok hopen) xprt
      · exact h
  | accept answer file =>
      obtain ⟨hfree, rfl⟩ := step_accept hst
      refine ⟨h.registered, ?_⟩
      rintro _ ⟨⟩ fd hfd
      by_cases horder : s.config.socketFdRegion.order = 0
      · rw [Move.start, if_pos horder] at hfd
        cases hfd
        exact small_answer hfree (hok horder)
      · rw [Move.start, if_neg horder] at hfd
        split at hfd <;> cases hfd
  | moveFd =>
      obtain ⟨r, move, fds, hr, hmove, rfl⟩ := step_moveFd hst
      refine ⟨h.registered, ?_⟩
      rintro _ ⟨⟩ fd hfd
      rcases Move.step_settled hmove hfd with hold | ⟨hdup, hgot⟩
      · exact h.settled r hr fd hold
      · obtain ⟨acceptSock, m⟩ := r
        cases hdup
        obtain ⟨hpos, hlt⟩ := hok acceptSock fd hr hgot
        rcases FdTable.dupfd_range hgot with hneg | ⟨_, hfree⟩
        · omega
        · exact ⟨hpos, hfree.1, hlt⟩
  | makefdXprt xprt =>
      obtain ⟨acceptSock, sock, hr, rfl⟩ := step_makefdXprt hst
      apply Process.AllSmall.xprtRegister
      · refine ⟨h.registered, ?_⟩
        rintro _ ⟨⟩
      · exact h.settled _ hr sock rfl

theorem sound_of_allSmall (hok : s.Ok limit) (h : s.AllSmall limit) : s.Sound := by
  intro x hx
  obtain ⟨t, ht⟩ := Option.isSome_iff_exists.mp (hok.entered (List.ne_nil_of_mem hx))
  exact ⟨t, ht, (inArrays_iff (hok.tables t ht)).mpr (h.registered x hx)⟩

theorem entersOutside (hok : t.Ok limit) {xprt : Addr} {fd : Int} (h : t.registered = ⟨xprt, fd⟩ :: s.registered)
    (hsmall : ¬ Small limit fd) : EntersOutside s t fd := by
  have hne : t.registered ≠ [] := by
    rw [h]
    exact List.cons_ne_nil _ _
  obtain ⟨tables, htables⟩ := Option.isSome_iff_exists.mp (hok.entered hne)
  refine ⟨⟨xprt, h⟩, tables, htables, fun hin => ?_⟩
  exact hsmall ((inArrays_iff (hok.tables tables htables)).mp hin)

theorem EntersOutside.not_sound {fd : Int} (h : EntersOutside s t fd) : ¬ t.Sound := by
  intro hsound
  obtain ⟨xprt, hregistered⟩ := h.registered
  obtain ⟨tables, htables, hout⟩ := h.outside
  obtain ⟨tables', htables', hin⟩ := hsound ⟨xprt, fd⟩ (by rw [hregistered]; exact List.mem_cons_self)
  cases htables.symm.trans htables'
  exact hout hin

/-- A settled descriptor that is not small becomes a socket. -/
theorem settled_registers (hok : s.Ok limit) {r : Rendezvous} {fd : Int} (hr : s.rendezvous = some r)
    (hfd : fd ∈ settled r.move) (hsmall : ¬ Small limit fd) :
    ∃ u, Reached step OfRendezvous s u ∧ EntersOutside s u fd := by
  have hret : ∀ s' acceptSock, Reached step OfRendezvous s s' → s'.Ok limit → s'.registered = s.registered →
      s'.rendezvous = some ⟨acceptSock, .ret fd⟩ → ∃ u, Reached step OfRendezvous s u ∧ EntersOutside s u fd := by
    intro s' acceptSock hs' hok' hregistered hr'
    have hst : step s' (.makefdXprt 0) = some ({ s' with rendezvous := none }.xprtRegister 0 fd) := by
      simp only [step, hr']
    have hlist : ({ s' with rendezvous := none }.xprtRegister 0 fd).registered = ⟨0, fd⟩ :: s.registered := by
      show (⟨0, fd⟩ : Registered) :: s'.registered = _
      rw [hregistered]
    exact ⟨_, .next (e := .makefdXprt 0) hs' trivial hst, entersOutside (ok_step hok' hst) hlist hsmall⟩
  obtain ⟨acceptSock, m⟩ := r
  cases m with
  | test newFd => cases hfd
  | dup newFd => cases hfd
  | close dupFd =>
      cases hfd
      have hst : step s .moveFd = some { s with
          fds := s.fds.closed acceptSock
          rendezvous := some ⟨acceptSock, .ret fd⟩ } := by
        simp only [step, hr]
        rfl
      exact hret _ acceptSock (.next (e := .moveFd) .start trivial hst) (ok_step hok hst) rfl rfl
  | ret fd' =>
      cases hfd
      exact hret s acceptSock .start hok rfl hr

/-- The descriptor of a step that gives one which is not small becomes a socket outside the arrays, at once or
when `rendezvous_request` goes on. -/
theorem unsound_follows (hok : s.Ok limit) (hst : step s e = some t) (hbad : ¬ GivesSmall s e) :
    ∃ fd ∈ given s e, ∃ u, Reached step OfRendezvous t u ∧ EntersOutside s u fd := by
  have hokt := ok_step hok hst
  cases e with
  | config cmd => exact absurd trivial hbad
  | opened n file => exact absurd trivial hbad
  | closed n => exact absurd trivial hbad
  | create sock answer file xprt =>
      simp only [GivesSmall] at hbad
      refine ⟨_, rfl, t, .start, ?_⟩
      obtain ⟨hany, _, rfl⟩ | ⟨hany, _, rfl⟩ | ⟨hany, hclosed, _⟩ := step_create_cases hst
      · rw [if_pos hany] at hbad
        rw [if_pos hany]
        exact entersOutside hokt rfl fun hsmall => hbad hsmall.2.2
      · rw [if_neg hany] at hbad
        rw [if_neg hany]
        obtain ⟨_, hsmall⟩ := Classical.not_imp.mp hbad
        rw [hok.limit_eq] at hsmall
        exact entersOutside hokt rfl hsmall
      · rw [if_neg hany] at hbad
        obtain ⟨hopen, _⟩ := Classical.not_imp.mp hbad
        cases hclosed.symm.trans hopen
  | accept answer file =>
      obtain ⟨horder, hlarge⟩ := Classical.not_imp.mp hbad
      obtain ⟨_, rfl⟩ := step_accept hst
      have hstart : Move.start s.config.socketFdRegion answer = .ret answer := if_pos horder
      have hret : (answer : Int) ∈ settled (Move.start s.config.socketFdRegion answer) := by
        rw [hstart]
        rfl
      obtain ⟨u, hu, hout⟩ := settled_registers hokt rfl hret fun hsmall => hlarge hsmall.2.2
      exact ⟨answer, rfl, u, hu, hout.registered, hout.outside⟩
  | moveFd =>
      simp only [GivesSmall, Classical.not_forall] at hbad
      obtain ⟨acceptSock, newFd, hr, hgot, hlarge⟩ := hbad
      have hmove : (Move.dup newFd).step s.config.socketFdRegion acceptSock s.fds =
          some (.close newFd, (s.fds.dupfd acceptSock newFd).2) := if_pos hgot
      obtain ⟨r, move, fds, hr', hmove', rfl⟩ := step_moveFd hst
      cases hr.symm.trans hr'
      cases hmove.symm.trans hmove'
      have hgiven : newFd ∈ given s .moveFd := by
        rw [given, hr]
        rfl
      obtain ⟨u, hu, hout⟩ := settled_registers hokt rfl rfl fun hsmall => hlarge ⟨hsmall.1, hsmall.2.2⟩
      exact ⟨newFd, hgiven, u, hu, hout.registered, hout.outside⟩
  | makefdXprt xprt => exact absurd trivial hbad

/-- A run that gives small descriptors only has every socket inside the arrays. In any run, the descriptor of a
step that gives another one becomes a socket outside them: at once, or when the thread inside `rendezvous_request`
goes on, with nothing else in between. -/
theorem sockets_in_range (limit : Nat) (files : Nat → Option Nat) :
    (∀ s, Reached step GivesSmall (start limit files) s → s.Sound) ∧
      ∀ s e t, Reached step anyStep (start limit files) s → step s e = some t → ¬ GivesSmall s e →
        ∃ fd ∈ given s e, ∃ u, Reached step OfRendezvous t u ∧ EntersOutside s u fd ∧ ¬ u.Sound := by
  constructor
  · intro s hs
    apply sound_of_allSmall (ok_reached hs)
    have hinv : s.Ok limit ∧ s.AllSmall limit := by
      apply hs.invariant fun s => s.Ok limit ∧ s.AllSmall limit
      · have hstart : Reached step anyStep (start limit files) (start limit files) := .start
        refine ⟨ok_reached hstart, fun _ hx => (nomatch hx), ?_⟩
        rintro _ ⟨⟩
      · exact fun _ _ _ ih hsmall hst => ⟨ok_step ih.1 hst, allSmall_step ih.1.limit_eq ih.2 hsmall hst⟩
    exact hinv.2
  · intro s e t hs hst hbad
    obtain ⟨fd, hfd, u, hu, hout⟩ := unsound_follows (ok_reached hs) hst hbad
    exact ⟨fd, hfd, u, hu, hout, hout.not_sound⟩

/-- `n` open descriptors, the lowest numbers there are. -/
def firstOpen (n k : Nat) : Option Nat := if k < n then some 0 else none

theorem step_create {n : Nat} (hfree : s.fds.Free n) (file : Nat) (xprt : Addr) :
    step s (.create rpcAnysock n file xprt) =
      some ({ s with fds := s.fds.opened n file }.xprtRegister xprt n) := by
  simp only [step]
  rw [if_pos trivial, if_pos hfree]

theorem sockets_in_range_example :
    (∃ s, Reached step GivesSmall (start 2048 (firstOpen 3)) s ∧ s.registered.map Registered.xpSock = [3] ∧ s.Sound) ∧
      ∃ t, step (start 2048 (firstOpen 1024)) (.create rpcAnysock 1024 1 0) = some t ∧
        ∃ fd ∈ given (start 2048 (firstOpen 1024)) (.create rpcAnysock 1024 1 0), ∃ u, Reached step OfRendezvous t u ∧
          EntersOutside (start 2048 (firstOpen 1024)) u fd ∧ ¬ u.Sound := by
  refine ⟨?_, ?_⟩
  · have hsmall : GivesSmall (start 2048 (firstOpen 3)) (.create rpcAnysock 3 1 0) := by
      show 3 < Registry.fdSetsize
      decide
    have hfree : (start 2048 (firstOpen 3)).fds.Free 3 := by decide
    have hs := Reached.next .start hsmall (step_create hfree 1 0)
    exact ⟨_, hs, rfl, (sockets_in_range 2048 (firstOpen 3)).1 _ hs⟩
  · have hlarge : ¬ GivesSmall (start 2048 (firstOpen 1024)) (.create rpcAnysock 1024 1 0) := by
      show ¬ 1024 < Registry.fdSetsize
      decide
    have hfree : (start 2048 (firstOpen 1024)).fds.Free 1024 := by decide
    have hst := step_create hfree 1 0
    exact ⟨_, hst, (sockets_in_range 2048 (firstOpen 1024)).2 _ _ _ .start hst hlarge⟩

/-- With more than `FD_SETSIZE` descriptors allowed and that many open, `socket()` answers with the number
of entries, which `socket_to_xprt` lets through. -/
theorem sockets_in_range_counterexample :
    ¬ ∀ limit files s, Reached step anyStep (start limit files) s → s.Sound := by
  intro hall
  have hfree : (start 2048 (firstOpen 1024)).fds.Free 1024 := by decide
  have hstart : Reached step anyStep (start 2048 (firstOpen 1024)) (start 2048 (firstOpen 1024)) := .start
  have hs := hstart.next trivial (step_create hfree 1 0)
  obtain ⟨t, ht, hin⟩ := hall 2048 (firstOpen 1024) _ hs ⟨0, 1024⟩ List.mem_cons_self
  cases ht
  have hlt : 1024 < 1024 := hin.lt
  exact absurd hlt (by decide)

end SocketRange

end RpcMt
