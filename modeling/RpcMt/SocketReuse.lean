import RpcMt.RegistryScans

/-! Reuse of a socket number. `socket_xprt_is_available` lets a new master be registered on the socket
of an old one that has returned and waits for its destruction. From then on the old transport still
answers for the socket in three places: its destructor closes the descriptor, takes the socket out of
every poll slot and vacates `sock_xports`, and none of the three asks whose the socket is by now. -/

open RpcMt.Runs

namespace RpcMt.Registry

variable {π : Type}

/-- The registry together with the descriptors that are open. -/
structure Host (π : Type) where
  reg : Registry Bitvec π
  fds : Nat → Bool

inductive HostOp (π : Type) where
  | register (a : Addr) (sock port : Nat) (isClone : Bool) (priv : π) (stat : XprtStat)
  | clone (parent a : Addr) (priv : π)
  | destroy (a : Addr)
  | mark (a : Addr)
  | touch (a : Addr) (x : Svcxprt π)
  | socket (fd : Nat)

namespace Host

/-- `SVC_DESTROY`, that is `svctcp_destroy` or `svcudp_destroy`: the socket of a transport that is not
a clone is closed if it is open, then the transport is unregistered and freed. -/
def svcDestroyXprt (s : Host π) (a : Addr) : Res (Host π) := do
  let x ← s.reg.deref a
  let fds := if x.mtxpParent = noParent then Function.update s.fds x.xpSock false else s.fds
  let reg ← s.reg.svcDestroy a
  pure ⟨reg, fds⟩

def step (s : Host π) : HostOp π → Option (Host π)
  | .register a sock port isClone priv stat =>
      (regStep s.reg (.register a sock port isClone priv stat)).map fun r => ⟨r, s.fds⟩
  | .clone parent a priv => (regStep s.reg (.clone parent a priv)).map fun r => ⟨r, s.fds⟩
  | .destroy a => (s.svcDestroyXprt a).toOption
  | .mark a => (s.reg.xprtGcMark a).toOption.map fun r => ⟨r, s.fds⟩
  | .touch a x => (s.reg.touch a x).map fun r => ⟨r, s.fds⟩
  | .socket fd => some { s with fds := Function.update s.fds fd true }

/-- A transport that is fully registered on its socket: the socket is its own in `sock_xports`, is in
exactly one poll slot and is open. -/
def FullyRegistered (s : Host π) (a : Addr) (sock : Nat) : Prop :=
  s.reg.sockXports sock = .ref a ∧
    (∃! slot, slot < s.reg.maxPollfd ∧ s.reg.pollfd slot = some sock) ∧ s.fds sock = true

/-- A live transport that is not a clone and has this socket. -/
def MasterOn (s : Host π) (a : Addr) (sock : Nat) : Prop :=
  ∃ x, s.reg.heap a = some x ∧ x.mtxpParent = noParent ∧ x.xpSock = sock

variable {s t : Host π} {old : Addr} {sock : Nat}

/-! ### An old master stays one until it is destroyed -/

theorem MasterOn.of_core (h : MasterOn s old sock) {r : Registry Bitvec π} {fds : Nat → Bool}
    (hcore : (r.heap old).map Svcxprt.core = (s.reg.heap old).map Svcxprt.core) :
    MasterOn ⟨r, fds⟩ old sock := by
  obtain ⟨x, hx, hp, hs⟩ := h
  obtain ⟨y, hy, hxy⟩ := Svcxprt.exists_of_map_core hcore.symm hx
  obtain ⟨hpar, hsock⟩ := socks_of_core hxy
  exact ⟨y, hy, hpar.symm.trans hp, hsock.symm.trans hs⟩

/-- A registration at an address that was free leaves every other transport as it was. -/
theorem register_core {r t : Registry Bitvec π} {a b : Addr} {x : Svcxprt π} (hb : b ≠ a)
    (hid : x.mtxpId = xprtIdInvalid) (hreg : (r.store a x).xprtRegister a = .ok t) :
    (t.heap b).map Svcxprt.core = (r.heap b).map Svcxprt.core := by
  obtain ⟨id, s₁, halloc, hent⟩ := xprtRegister_ok (Function.update_self ..) hid hreg
  obtain ⟨maxid, idset, _, _, _, rfl⟩ := xprtIdAlloc_ok halloc
  rw [hent.core_registered rfl b, Function.update_of_ne hb]

theorem MasterOn.ne (h : MasterOn s old sock) {a : Addr} (ha : s.reg.heap a = none) : old ≠ a := by
  rintro rfl
  obtain ⟨x, hx, _⟩ := h
  rw [ha] at hx
  cases hx

theorem MasterOn.step (h : MasterOn s old sock) {op : HostOp π} (hop : op ≠ .destroy old)
    (hst : s.step op = some t) : MasterOn t old sock := by
  cases op with
  | register a sock' port isClone priv stat =>
      obtain ⟨r, hr, rfl⟩ := Option.map_eq_some_iff.mp hst
      obtain ⟨hp, hreg⟩ := regStep_ok hr
      exact h.of_core (register_core (h.ne (Option.isNone_iff_eq_none.mp hp)) rfl hreg)
  | clone parent a priv =>
      obtain ⟨r, hr, rfl⟩ := Option.map_eq_some_iff.mp hst
      obtain ⟨hp, hreg⟩ := regStep_ok hr
      obtain ⟨px, _, hreg⟩ := bind_ok hreg
      have hfree := Option.isNone_iff_eq_none.mp (Bool.and_eq_true_iff.mp hp).1
      exact h.of_core (register_core (h.ne hfree) rfl hreg)
  | destroy a =>
      obtain ⟨x, _, hdes⟩ := bind_ok (toOption_ok hst)
      obtain ⟨r, hr, hpure⟩ := bind_ok hdes
      cases hpure
      obtain ⟨y, _, hd⟩ := svcDestroy_ok hr
      have hne : old ≠ a := fun heq => hop (by rw [heq])
      exact h.of_core (hd.core hne)
  | mark a =>
      obtain ⟨r, hr, rfl⟩ := Option.map_eq_some_iff.mp hst
      have hok := toOption_ok hr
      obtain ⟨x, hx, _⟩ := bind_ok hok
      refine h.of_core ?_
      rw [(xprtGcMark_ok (deref_ok hx) hok).1]
  | touch a x =>
      obtain ⟨r, hr, rfl⟩ := Option.map_eq_some_iff.mp hst
      unfold Registry.touch at hr
      split at hr
      · cases hr
      · rename_i y hy
        split at hr
        · rename_i hsame
          cases hr
          obtain ⟨z, hz, hp, hs⟩ := h
          by_cases hb : old = a
          · subst hb
            cases hy.symm.trans hz
            exact ⟨x, Function.update_self .., hsame.2.1.trans hp, hsame.2.2.trans hs⟩
          · exact ⟨z, (Function.update_of_ne hb _ _).trans hz, hp, hs⟩
        · cases hr
  | socket fd =>
      cases hst
      exact h

theorem MasterOn.exec (h : MasterOn s old sock) {ops : List (HostOp π)}
    (hops : ∀ op ∈ ops, op ≠ .destroy old) (hrun : Runs.exec Host.step anyStep s ops = some t) :
    MasterOn t old sock := by
  induction ops generalizing s with
  | nil =>
      cases hrun
      exact h
  | cons op ops ih =>
      obtain ⟨_, u, hu, hrest⟩ := exec_cons Host.step anyStep hrun
      have hu' := h.step (hops op List.mem_cons_self) hu
      exact ih hu' (fun op' hop' => hops op' (List.mem_cons_of_mem _ hop')) hrest

/-! ### What its destruction leaves of the socket -/

/-- The destruction of a master vacates the socket in all three places, whoever uses it. -/
theorem destroy_master (h : MasterOn s old sock) (hdes : s.svcDestroyXprt old = .ok t) :
    t.reg.sockXports sock = .bad ∧
      (∀ slot, slot < t.reg.maxPollfd → t.reg.pollfd slot ≠ some sock) ∧ t.fds sock = false := by
  obtain ⟨x, hx, hp, rfl⟩ := h
  obtain ⟨x', hx', hdes⟩ := bind_ok hdes
  cases hx.symm.trans (deref_ok hx')
  obtain ⟨r, hr, hpure⟩ := bind_ok hdes
  cases hpure
  obtain ⟨u, hu, hfree⟩ := bind_ok hr
  cases hfree
  obtain ⟨y, hy, hu⟩ := bind_ok hu
  cases hx.symm.trans (deref_ok hy)
  obtain ⟨entry, _, hu⟩ := bind_ok hu
  split at hu
  · cases hu
  · split at hu
    · cases hu
    · obtain ⟨v, hv, hu⟩ := bind_ok hu
      obtain ⟨_, idset, _, rfl⟩ := unregisterId_ok hu
      rw [releaseSocket, if_pos hp] at hv
      split at hv
      · cases hv
        refine ⟨Function.update_self .., fun slot hslot => ?_, ?_⟩
        · change slot < s.reg.maxPollfd at hslot
          change (if slot < s.reg.maxPollfd ∧ s.reg.pollfd slot = some x.xpSock then none
            else s.reg.pollfd slot) ≠ some x.xpSock
          split
          · simp
          · rename_i hnot
            exact fun heq => hnot ⟨hslot, heq⟩
        · show (if x.mtxpParent = noParent then Function.update s.fds x.xpSock false else s.fds) x.xpSock =
            false
          rw [if_pos hp, Function.update_self]
      · cases hv

/-- In every state with a returned master on a socket, registering a new master there and destroying
the old one later, whatever has happened in between, leaves the new one without the socket: it is out
of `sock_xports`, out of the poll slots and closed. -/
theorem reuse_loses_socket {s₁ s₂ s₃ : Host π} {new : Addr} {x : Svcxprt π} {port : Nat} {isClone : Bool}
    {priv : π} {stat : XprtStat} {ops : List (HostOp π)} (hold : s.reg.heap old = some x)
    (hmaster : x.mtxpParent = noParent) (hsock : x.xpSock = sock)
    (_hreturn : x.mtxpProgress .returned = true)
    (hnew : s.step (.register new sock port isClone priv stat) = some s₁)
    (hops : ∀ op ∈ ops, op ≠ .destroy old) (hrun : exec step anyStep s₁ ops = some s₂)
    (hdes : s₂.step (.destroy old) = some s₃) :
    ¬FullyRegistered s₃ new sock ∧ s₃.reg.sockXports sock = .bad ∧
      (∀ slot, slot < s₃.reg.maxPollfd → s₃.reg.pollfd slot ≠ some sock) ∧ s₃.fds sock = false := by
  have hfirst : MasterOn s old sock := ⟨x, hold, hmaster, hsock⟩
  have hlater := (hfirst.step (by simp) hnew).exec hops hrun
  obtain ⟨hentry, hslots, hfd⟩ := destroy_master hlater (toOption_ok hdes)
  refine ⟨fun hfull => ?_, hentry, hslots, hfd⟩
  rw [hfull.1] at hentry
  cases hentry

/-! ### A concrete history -/

/-- A table of 128 slots, and a master on the open socket 3 that has returned. -/
def returnedMaster : Option (Host Unit) :=
  exec step anyStep ⟨createXports 128, fun _ => false⟩
    [.socket 3, .register 0 3 0 false () .idle,
      .touch 0 { Svcxprt.newXprt 3 0 false () .idle with
        mtxpId := 0, mtxpProgress := Progress.zero.setbits .returned }]

/-- What is left of a socket: its entry in `sock_xports`, the poll slots that have it, and whether it
is open. -/
structure SocketView where
  entry : XprtPtr
  slots : List Nat
  isOpen : Bool
  deriving DecidableEq

def view (s : Host Unit) (sock : Nat) : SocketView where
  entry := s.reg.sockXports sock
  slots := (List.range s.reg.maxPollfd).filter fun slot => s.reg.pollfd slot = some sock
  isOpen := s.fds sock

/-- A new transport at address 1 is registered on the socket, and then the old one is destroyed. -/
def reuseThree (s : Host Unit) : Option (SocketView × SocketView) := do
  let s₁ ← s.step (.register 1 3 0 false () .idle)
  let s₃ ← s₁.step (.destroy 0)
  pure (s₁.view 3, s₃.view 3)

/-- What the old transport is, as far as the reuse depends on it. -/
def oldFields (s : Host Unit) : Option (Nat × Nat × Bool) :=
  (s.reg.heap 0).map fun x => (x.mtxpParent, x.xpSock, x.mtxpProgress .returned)

theorem returnedMaster_old : returnedMaster.map oldFields = some (some (noParent, 3, true)) := by
  decide +kernel

theorem returnedMaster_reuse :
    returnedMaster.map reuseThree = some (some (⟨.ref 1, [0, 1], true⟩, ⟨.bad, [], false⟩)) := by
  decide +kernel

/-- The states of the history. -/
theorem reuseThree_states :
    ∃ (s s₁ s₃ : Host Unit) (x : Svcxprt Unit), s.reg.heap 0 = some x ∧ x.mtxpParent = noParent ∧
      x.xpSock = 3 ∧ x.mtxpProgress .returned = true ∧ s.step (.register 1 3 0 false () .idle) = some s₁ ∧
      s₁.step (.destroy 0) = some s₃ ∧ s₁.view 3 = ⟨.ref 1, [0, 1], true⟩ ∧ s₃.view 3 = ⟨.bad, [], false⟩ := by
  obtain ⟨s, hs, hold⟩ := Option.map_eq_some_iff.mp returnedMaster_old
  obtain ⟨s', hs', hreuse⟩ := Option.map_eq_some_iff.mp returnedMaster_reuse
  cases hs.symm.trans hs'
  obtain ⟨x, hx, hfields⟩ := Option.map_eq_some_iff.mp hold
  obtain ⟨hp, hrest⟩ := Prod.mk.inj hfields
  obtain ⟨hsock, hret⟩ := Prod.mk.inj hrest
  unfold reuseThree at hreuse
  obtain ⟨s₁, h₁, hreuse⟩ := Option.bind_eq_some_iff.mp hreuse
  obtain ⟨s₃, h₃, hreuse⟩ := Option.bind_eq_some_iff.mp hreuse
  obtain ⟨hbefore, hafter⟩ := Prod.mk.inj (Option.some.inj hreuse)
  exact ⟨s, s₁, s₃, x, hx, hp, hsock, hret, h₁, h₃, hbefore, hafter⟩

theorem reuse_loses_socket_three :
    ∃ s s₁ s₃ : Host Unit, s.step (.register 1 3 0 false () .idle) = some s₁ ∧
      s₁.step (.destroy 0) = some s₃ ∧ ¬FullyRegistered s₃ 1 3 := by
  obtain ⟨s, s₁, s₃, x, hx, hp, hsock, hret, h₁, h₃, _, _⟩ := reuseThree_states
  have hnone : ∀ op ∈ ([] : List (HostOp Unit)), op ≠ .destroy 0 := by simp
  exact ⟨s, s₁, s₃, h₁, h₃, (reuse_loses_socket hx hp hsock hret h₁ hnone rfl h₃).1⟩

/-- The new transport is entered on socket 3, in two poll slots; after the old one is destroyed the
socket is in none, is nobody's and is closed. -/
theorem reuse_of_three_fails :
    ∃ (s s₁ s₃ : Host Unit) (x : Svcxprt Unit), s.reg.heap 0 = some x ∧ x.mtxpParent = noParent ∧
      x.xpSock = 3 ∧ x.mtxpProgress .returned = true ∧ s.step (.register 1 3 0 false () .idle) = some s₁ ∧
      s₁.step (.destroy 0) = some s₃ ∧ s₁.view 3 = ⟨.ref 1, [0, 1], true⟩ ∧
      s₃.view 3 = ⟨.bad, [], false⟩ ∧ ¬FullyRegistered s₃ 1 3 := by
  obtain ⟨s, s₁, s₃, x, hx, hp, hsock, hret, h₁, h₃, hbefore, hafter⟩ := reuseThree_states
  refine ⟨s, s₁, s₃, x, hx, hp, hsock, hret, h₁, h₃, hbefore, hafter, fun hfull => ?_⟩
  have hentry : s₃.reg.sockXports 3 = .bad := (SocketView.mk.inj hafter).1
  rw [hfull.1] at hentry
  cases hentry

end Host

end RpcMt.Registry
