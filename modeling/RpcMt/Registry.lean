import Mathlib.Logic.Function.Basic
import RpcMt.Xprt

/-! The registry of transports in `svc.c`: the tables `xports` and `sock_xports`, the id set, the
high-water mark, the poll slots, and the heap the transports live on. Every operation returns the
registry it leaves behind or the fault that ends the program. The code runs them under `xports_lock`,
so each is one atomic step; `xports_view`, `xports_version` and the flight recorder are only ever
shown and are left out. -/

namespace RpcMt

structure Registry (β π : Type) where
  xports : Nat → XprtPtr
  sockXports : Nat → XprtPtr
  xportsIdset : β
  xprtgcIdset : β
  xportsSize : Nat
  xportsCount : Nat
  xportsMaxid : Nat
  xprtgcMarkCount : Nat
  pollfd : Nat → Option Nat
  pollfdSize : Nat
  maxPollfd : Nat
  heap : Addr → Option (Svcxprt π)

namespace Registry

variable {β π : Type} [IdSet β]

def fdSetsize : Nat := 1024

/-- `create_xports`: the tables hold `_rpc_dtablesize()` entries, at most `FD_SETSIZE`. -/
def createXports (dtablesize : Nat) : Registry β π :=
  let size := if fdSetsize < dtablesize then fdSetsize else dtablesize
  { xports := fun _ => .bad
    sockXports := fun _ => .bad
    xportsIdset := IdSet.init size
    xprtgcIdset := IdSet.init size
    xportsSize := size
    xportsCount := 0
    xportsMaxid := sizeMax
    xprtgcMarkCount := 0
    pollfd := fun _ => none
    pollfdSize := size
    maxPollfd := 0
    heap := fun _ => none }

def deref (s : Registry β π) (a : Addr) : Res (Svcxprt π) :=
  match s.heap a with
  | none => .error .badPointer
  | some x => .ok x

/-- Follow a pointer read from a table. -/
def derefPtr (s : Registry β π) : XprtPtr → Res (Addr × Svcxprt π)
  | .ref a => do
      let x ← s.deref a
      pure (a, x)
  | _ => .error .badPointer

def store (s : Registry β π) (a : Addr) (x : Svcxprt π) : Registry β π :=
  { s with heap := Function.update s.heap a (some x) }

/-- The read `xports[id]`. -/
def xportsAt (s : Registry β π) (id : Nat) : Res XprtPtr :=
  if id < s.xportsSize then .ok (s.xports id) else .error .slotOutOfBounds

/-- The read `sock_xports[sock]`. -/
def sockXportsAt (s : Registry β π) (sock : Nat) : Res XprtPtr :=
  if sock < s.xportsSize then .ok (s.sockXports sock) else .error .slotOutOfBounds

/-- The scan of `xprt_id_alloc`: the first id from `id` on whose bit is clear, `left` ids tried. -/
def xprtIdScan (set : β) : Nat → Nat → Res Nat
  | 0, id => .ok id
  | left + 1, id => do
      if ← IdSet.getBit set id then xprtIdScan set left (id + 1) else .ok id

/-- The id that `xprt_id_alloc` settles on and the high-water mark it leaves. -/
def xprtIdChoose (s : Registry β π) : Res (Nat × Nat) :=
  if s.xportsMaxid = sizeMax then .ok (0, 0)
  else do
    let id ← xprtIdScan s.xportsIdset (s.xportsMaxid + 1) 0
    pure (id, if s.xportsMaxid < id then id else s.xportsMaxid)

def xprtIdAlloc (s : Registry β π) : Res (Nat × Registry β π) := do
  let (id, maxid) ← s.xprtIdChoose
  if s.xportsSize ≤ id then .error .svcDie
  else do
    let idset ← IdSet.setBit s.xportsIdset id
    pure (id, { s with
      xportsMaxid := maxid
      xportsIdset := idset
      xportsCount := s.xportsCount + 1 })

def socketXprtIsAvailable (s : Registry β π) : XprtPtr → Res Bool
  | .null => .ok true
  | .bad => .ok true
  | .ref a => do
      let x ← s.deref a
      pure (x.mtxpProgress .returned)

/-- `init_pollfd`: the first empty slot, else a new one past the last. Its error code makes
`xprt_register` die. -/
def initPollfd (s : Registry β π) (fd : Nat) : Res (Registry β π) :=
  match (List.range s.maxPollfd).find? fun slot => (s.pollfd slot).isNone with
  | some slot => .ok { s with pollfd := Function.update s.pollfd slot (some fd) }
  | none =>
      if s.pollfdSize < s.maxPollfd then .error .svcDie
      else if s.pollfdSize = s.maxPollfd then .error .slotOutOfBounds
      else .ok { s with
        pollfd := Function.update s.pollfd s.maxPollfd (some fd)
        maxPollfd := s.maxPollfd + 1 }

/-- The part of `xprt_register_with_lock` for a transport that owns its socket. -/
def registerMaster (s : Registry β π) (a : Addr) (sock : Nat) : Res (Registry β π) := do
  let sxprt ← s.sockXportsAt sock
  if ← s.socketXprtIsAvailable sxprt then
    initPollfd { s with sockXports := Function.update s.sockXports sock (.ref a) } sock
  else .error .svcDie

/-- Adding `delta` to the reference count of the transport with id `parent`. -/
def countParent (s : Registry β π) (parent : Nat) (delta : Int) : Res (Registry β π) := do
  let (p, px) ← s.derefPtr (← s.xportsAt parent)
  pure (s.store p { px with mtxpRefcnt := px.mtxpRefcnt + delta })

/-- Entering a transport under its id, once it has one. -/
def enterXports (s : Registry β π) (a : Addr) (x : Svcxprt π) (id : Nat) : Res (Registry β π) :=
  if s.xportsSize ≤ id then .error .svcDie
  else
    let s' := { s with xports := Function.update s.xports id (.ref a) }
    if x.mtxpParent = noParent then s'.registerMaster a x.xpSock
    else s'.countParent x.mtxpParent 1

/-- `xprt_register`, with `xprt_register_with_lock` inside. -/
def xprtRegister (s : Registry β π) (a : Addr) : Res (Registry β π) := do
  let x ← s.deref a
  if x.mtxpId = xprtIdInvalid then do
    let (id, s') ← s.xprtIdAlloc
    (s'.store a { x with mtxpId := id }).enterXports a x id
  else s.enterXports a x x.mtxpId

/-- `pollfd_remove` on the registry's own slots. -/
def pollfdRemove (s : Registry β π) (sock : Nat) : Registry β π :=
  { s with pollfd := fun slot =>
      if slot < s.maxPollfd ∧ s.pollfd slot = some sock then none else s.pollfd slot }

def unregisterId (s : Registry β π) (id : Nat) : Res (Registry β π) :=
  if s.xportsMaxid < id then .error .svcDie
  else do
    let idset ← IdSet.clrBit s.xportsIdset id
    pure { s with
      xports := Function.update s.xports id .bad
      xportsIdset := idset
      xportsCount := s.xportsCount - 1 }

/-- The part of `xprt_unregister_with_lock` that depends on whether the transport is a clone. -/
def releaseSocket (s : Registry β π) (x : Svcxprt π) : Res (Registry β π) :=
  if x.mtxpParent = noParent then
    if x.xpSock < s.xportsSize then
      .ok { s.pollfdRemove x.xpSock with
        sockXports := Function.update s.sockXports x.xpSock .bad }
    else .error .slotOutOfBounds
  else s.countParent x.mtxpParent (-1)

/-- `xprt_unregister`, with the checks of `check_svcxprt_exists`. -/
def xprtUnregister (s : Registry β π) (a : Addr) : Res (Registry β π) := do
  let x ← s.deref a
  let entry ← s.xportsAt x.mtxpId
  if entry ≠ .ref a then .error .svcDie
  else if s.xportsMaxid < x.mtxpId then .error .svcDie
  else do
    let s' ← s.releaseSocket x
    s'.unregisterId x.mtxpId

/-- The tail of `svctcp_destroy` and `svcudp_destroy`: unregister the transport, then free it. -/
def svcDestroy (s : Registry β π) (a : Addr) : Res (Registry β π) := do
  let s' ← s.xprtUnregister a
  pure { s' with heap := Function.update s'.heap a none }

/-! ### What each operation leaves behind -/

omit [IdSet β] in
theorem deref_ok {s : Registry β π} {a : Addr} {x : Svcxprt π} (h : s.deref a = .ok x) :
    s.heap a = some x := by
  unfold deref at h
  split at h
  · cases h
  · cases h
    assumption

omit [IdSet β] in
theorem deref_of_heap {s : Registry β π} {a : Addr} {x : Svcxprt π} (h : s.heap a = some x) :
    s.deref a = .ok x := by
  rw [deref, h]

omit [IdSet β] in
theorem xportsAt_ok {s : Registry β π} {id : Nat} {p : XprtPtr} (h : s.xportsAt id = .ok p) :
    id < s.xportsSize ∧ s.xports id = p := by
  unfold xportsAt at h
  split at h
  · exact ⟨by assumption, Except.ok.inj h⟩
  · cases h

omit [IdSet β] in
theorem derefPtr_ok {s : Registry β π} {ptr : XprtPtr} {p : Addr} {px : Svcxprt π}
    (h : s.derefPtr ptr = .ok (p, px)) : ptr = .ref p ∧ s.heap p = some px := by
  cases ptr with
  | null => cases h
  | bad => cases h
  | ref q =>
      obtain ⟨y, hy, hpure⟩ := bind_ok h
      cases hpure
      exact ⟨rfl, deref_ok hy⟩

omit [IdSet β] in
theorem countParent_ok {s t : Registry β π} {parent : Nat} {delta : Int}
    (h : s.countParent parent delta = .ok t) :
    ∃ p px, s.xports parent = .ref p ∧ s.heap p = some px ∧
      t = s.store p { px with mtxpRefcnt := px.mtxpRefcnt + delta } := by
  obtain ⟨entry, hentry, h⟩ := bind_ok h
  obtain ⟨⟨p, px⟩, hp, h⟩ := bind_ok h
  obtain ⟨hptr, hpx⟩ := derefPtr_ok hp
  exact ⟨p, px, (xportsAt_ok hentry).2.trans hptr, hpx, (Except.ok.inj h).symm⟩

omit [IdSet β] in
theorem countParent_of {s : Registry β π} {parent : Nat} {p : Addr} {px : Svcxprt π} (delta : Int)
    (hlt : parent < s.xportsSize) (hp : s.xports parent = .ref p) (hpx : s.heap p = some px) :
    s.countParent parent delta = .ok (s.store p { px with mtxpRefcnt := px.mtxpRefcnt + delta }) := by
  rw [countParent, xportsAt, if_pos hlt, hp]
  show (derefPtr s (.ref p) >>= _ : Res _) = _
  rw [derefPtr, deref_of_heap hpx]
  rfl

omit [IdSet β] in
/-- Entering a clone is entering its id and counting its parent up. -/
theorem enterXports_clone {s : Registry β π} {a : Addr} {x : Svcxprt π} {id : Nat} (hlt : id < s.xportsSize)
    (hclone : x.mtxpParent ≠ noParent) :
    s.enterXports a x id =
      { s with xports := Function.update s.xports id (.ref a) }.countParent x.mtxpParent 1 := by
  rw [enterXports, if_neg (Nat.not_le.mpr hlt), if_neg hclone]

/-- The state after `xprt_register` entered a transport under `id`: only the slot of `id`, the socket
side of a master and the reference count of a clone's parent have changed. -/
structure Entered (s t : Registry β π) (a : Addr) (x : Svcxprt π) (id : Nat) : Prop where
  lt : id < s.xportsSize
  xports : t.xports = Function.update s.xports id (.ref a)
  idset : t.xportsIdset = s.xportsIdset
  gcset : t.xprtgcIdset = s.xprtgcIdset
  size : t.xportsSize = s.xportsSize
  maxid : t.xportsMaxid = s.xportsMaxid
  marks : t.xprtgcMarkCount = s.xprtgcMarkCount
  heap : (x.mtxpParent = noParent ∧ t.heap = s.heap) ∨
    (x.mtxpParent ≠ noParent ∧ ∃ p px, t.xports x.mtxpParent = .ref p ∧ s.heap p = some px ∧
      t.heap = Function.update s.heap p (some { px with mtxpRefcnt := px.mtxpRefcnt + 1 }))

omit [IdSet β] in
theorem Entered.core {s t : Registry β π} {a : Addr} {x : Svcxprt π} {id : Nat}
    (h : Entered s t a x id) (b : Addr) :
    (t.heap b).map Svcxprt.core = (s.heap b).map Svcxprt.core := by
  rcases h.heap with ⟨_, heq⟩ | ⟨_, p, px, _, hpx, heq⟩
  · rw [heq]
  · rw [heq]
    by_cases hb : b = p
    · subst hb
      rw [Function.update_self, hpx]
      rfl
    · rw [Function.update_of_ne hb]

omit [IdSet β] in
/-- After a registration the heap differs from the one before it at the new transport and in reference
counts only. -/
theorem Entered.core_registered {s s₁ t : Registry β π} {a : Addr} {x x' : Svcxprt π} {id : Nat}
    (h : Entered (s₁.store a x') t a x id) (hheap : s₁.heap = (s.store a x).heap) (b : Addr) :
    (t.heap b).map Svcxprt.core = (Function.update s.heap a (some x') b).map Svcxprt.core := by
  rw [h.core b]
  simp only [store, hheap, Function.update_idem]

omit [IdSet β] in
/-- A live transport after a registration is the new one or was live before it. -/
theorem core_update_cases {s t : Registry β π} {a b : Addr} {x' y : Svcxprt π}
    (h : ∀ b, (t.heap b).map Svcxprt.core = (Function.update s.heap a (some x') b).map Svcxprt.core)
    (hy : t.heap b = some y) :
    (b = a ∧ y.core = x'.core) ∨ (b ≠ a ∧ ∃ y', s.heap b = some y' ∧ y.core = y'.core) := by
  obtain ⟨y', hy', hcore⟩ := Svcxprt.exists_of_map_core (h b) hy
  rcases update_eq_some hy' with ⟨rfl, rfl⟩ | ⟨hb, hold⟩
  · exact Or.inl ⟨rfl, hcore⟩
  · exact Or.inr ⟨hb, y', hold, hcore⟩

omit [IdSet β] in
/-- A registration keeps what the table holds under its own id. -/
theorem entries_registered {s t : Registry β π} {a : Addr} {x : Svcxprt π} {id : Nat}
    (h : ∀ i b, s.xports i = .ref b → ∃ y, s.heap b = some y ∧ y.mtxpId = i) (ha : s.heap a = none)
    (hxports : t.xports = Function.update s.xports id (.ref a))
    (hcore : ∀ b, (t.heap b).map Svcxprt.core =
      (Function.update s.heap a (some { x with mtxpId := id }) b).map Svcxprt.core)
    (i : Nat) (b : Addr) (hb : t.xports i = .ref b) : ∃ y, t.heap b = some y ∧ y.mtxpId = i := by
  rw [hxports] at hb
  by_cases hi : i = id
  · rw [hi, Function.update_self] at hb
    cases hb
    obtain ⟨y, hy, hyc⟩ := Svcxprt.exists_of_map_core (hcore a).symm (Function.update_self ..)
    exact ⟨y, hy, hi ▸ (Svcxprt.mtxpId_of_core hyc).symm⟩
  · rw [Function.update_of_ne hi] at hb
    obtain ⟨y, hy, hyid⟩ := h i b hb
    have hba : b ≠ a := by
      rintro rfl
      cases ha.symm.trans hy
    obtain ⟨z, hz, hzc⟩ := Svcxprt.exists_of_map_core (hcore b).symm ((Function.update_of_ne hba _ _).trans hy)
    exact ⟨z, hz, (Svcxprt.mtxpId_of_core hzc).symm.trans hyid⟩

omit [IdSet β] in
theorem initPollfd_ok {s t : Registry β π} {fd : Nat} (h : s.initPollfd fd = .ok t) :
    ∃ pollfd maxPollfd, t = { s with pollfd := pollfd, maxPollfd := maxPollfd } := by
  unfold initPollfd at h
  split at h
  · cases h
    exact ⟨_, s.maxPollfd, rfl⟩
  · split at h
    · cases h
    · split at h
      · cases h
      · cases h
        exact ⟨_, _, rfl⟩

omit [IdSet β] in
theorem registerMaster_ok {s t : Registry β π} {a : Addr} {sock : Nat}
    (h : s.registerMaster a sock = .ok t) :
    ∃ pollfd maxPollfd, t = { s with
      sockXports := Function.update s.sockXports sock (.ref a)
      pollfd := pollfd
      maxPollfd := maxPollfd } := by
  obtain ⟨sxprt, _, h⟩ := bind_ok h
  obtain ⟨free, _, h⟩ := bind_ok h
  cases free with
  | false => cases h
  | true => exact initPollfd_ok h

omit [IdSet β] in
theorem enterXports_ok {s t : Registry β π} {a : Addr} {x : Svcxprt π} {id : Nat}
    (h : s.enterXports a x id = .ok t) : Entered s t a x id := by
  unfold enterXports at h
  split at h
  · cases h
  · rename_i hlt
    dsimp only at h
    split at h
    · rename_i hmaster
      obtain ⟨pollfd, maxPollfd, rfl⟩ := registerMaster_ok h
      exact ⟨by omega, rfl, rfl, rfl, rfl, rfl, rfl, Or.inl ⟨hmaster, rfl⟩⟩
    · rename_i hclone
      obtain ⟨p, px, hp, hpx, rfl⟩ := countParent_ok h
      exact ⟨by omega, rfl, rfl, rfl, rfl, rfl, rfl, Or.inr ⟨hclone, p, px, hp, hpx, rfl⟩⟩

theorem xprtIdAlloc_ok {s t : Registry β π} {id : Nat} (h : s.xprtIdAlloc = .ok (id, t)) :
    ∃ maxid idset, s.xprtIdChoose = .ok (id, maxid) ∧ id < s.xportsSize ∧
      IdSet.setBit s.xportsIdset id = .ok idset ∧
      t = { s with
        xportsMaxid := maxid, xportsIdset := idset, xportsCount := s.xportsCount + 1 } := by
  obtain ⟨⟨id', maxid⟩, hchoose, h⟩ := bind_ok h
  dsimp only at h
  split at h
  · cases h
  · rename_i hlt
    obtain ⟨idset, hset, h⟩ := bind_ok h
    cases h
    exact ⟨maxid, idset, hchoose, by omega, hset, rfl⟩

theorem xprtRegister_ok {s t : Registry β π} {a : Addr} {x : Svcxprt π} (hx : s.heap a = some x)
    (hid : x.mtxpId = xprtIdInvalid) (h : s.xprtRegister a = .ok t) :
    ∃ id s₁, s.xprtIdAlloc = .ok (id, s₁) ∧
      Entered (s₁.store a { x with mtxpId := id }) t a x id := by
  obtain ⟨x', hx', h⟩ := bind_ok h
  cases hx.symm.trans (deref_ok hx')
  rw [if_pos hid] at h
  obtain ⟨⟨id, s₁⟩, halloc, h⟩ := bind_ok h
  exact ⟨id, s₁, halloc, enterXports_ok h⟩

theorem xprtRegister_of_alloc {s s₁ : Registry β π} {a : Addr} {x : Svcxprt π} {id : Nat}
    (hx : s.heap a = some x) (hid : x.mtxpId = xprtIdInvalid) (halloc : s.xprtIdAlloc = .ok (id, s₁)) :
    s.xprtRegister a = (s₁.store a { x with mtxpId := id }).enterXports a x id := by
  rw [xprtRegister, deref_of_heap hx]
  show (if x.mtxpId = xprtIdInvalid then _ else _ : Res _) = _
  rw [if_pos hid, halloc]
  rfl

/-- The state after `xprt_unregister` and the `free` that follows it. -/
structure Destroyed (s t : Registry β π) (a : Addr) (x : Svcxprt π) : Prop where
  entry : s.xports x.mtxpId = .ref a
  lt : x.mtxpId < s.xportsSize
  valid : x.mtxpId ≤ s.xportsMaxid
  clr : IdSet.clrBit s.xportsIdset x.mtxpId = .ok t.xportsIdset
  xports : t.xports = Function.update s.xports x.mtxpId .bad
  gcset : t.xprtgcIdset = s.xprtgcIdset
  size : t.xportsSize = s.xportsSize
  maxid : t.xportsMaxid = s.xportsMaxid
  marks : t.xprtgcMarkCount = s.xprtgcMarkCount
  heap : (x.mtxpParent = noParent ∧ t.heap = Function.update s.heap a none) ∨
    (x.mtxpParent ≠ noParent ∧ ∃ p px, s.xports x.mtxpParent = .ref p ∧ s.heap p = some px ∧
      t.heap = Function.update
        (Function.update s.heap p (some { px with mtxpRefcnt := px.mtxpRefcnt + -1 })) a none)

theorem Destroyed.core {s t : Registry β π} {a : Addr} {x : Svcxprt π} (h : Destroyed s t a x)
    {b : Addr} (hb : b ≠ a) : (t.heap b).map Svcxprt.core = (s.heap b).map Svcxprt.core := by
  rcases h.heap with ⟨_, heq⟩ | ⟨_, p, px, _, hpx, heq⟩
  · rw [heq, Function.update_of_ne hb]
  · rw [heq, Function.update_of_ne hb]
    by_cases hp : b = p
    · subst hp
      rw [Function.update_self, hpx]
      rfl
    · rw [Function.update_of_ne hp]

theorem Destroyed.gone {s t : Registry β π} {a : Addr} {x : Svcxprt π} (h : Destroyed s t a x) :
    t.heap a = none := by
  rcases h.heap with ⟨_, heq⟩ | ⟨_, p, px, _, _, heq⟩
  · rw [heq, Function.update_self]
  · rw [heq, Function.update_self]

/-- What is live after a destruction was live before it. -/
theorem Destroyed.live_before {s t : Registry β π} {a b : Addr} {x y : Svcxprt π} (h : Destroyed s t a x)
    (hy : t.heap b = some y) : b ≠ a ∧ ∃ y', s.heap b = some y' ∧ y.core = y'.core := by
  have hb : b ≠ a := by
    rintro rfl
    rw [h.gone] at hy
    cases hy
  exact ⟨hb, Svcxprt.exists_of_map_core (h.core hb) hy⟩

/-- A destruction keeps what else the table holds under its own id. -/
theorem Destroyed.entries {s t : Registry β π} {a : Addr} {x : Svcxprt π} (hd : Destroyed s t a x)
    (h : ∀ i b, s.xports i = .ref b → ∃ y, s.heap b = some y ∧ y.mtxpId = i) (hx : s.heap a = some x)
    (i : Nat) (b : Addr) (hb : t.xports i = .ref b) : ∃ y, t.heap b = some y ∧ y.mtxpId = i := by
  rw [hd.xports] at hb
  have hi : i ≠ x.mtxpId := by
    rintro rfl
    rw [Function.update_self] at hb
    cases hb
  rw [Function.update_of_ne hi] at hb
  obtain ⟨y, hy, hyid⟩ := h i b hb
  have hba : b ≠ a := by
    rintro rfl
    cases hx.symm.trans hy
    exact hi hyid.symm
  obtain ⟨z, hz, hcore⟩ := Svcxprt.exists_of_map_core (hd.core hba).symm hy
  exact ⟨z, hz, (Svcxprt.mtxpId_of_core hcore).symm.trans hyid⟩

theorem unregisterId_ok {s t : Registry β π} {id : Nat} (h : s.unregisterId id = .ok t) :
    id ≤ s.xportsMaxid ∧ ∃ idset, IdSet.clrBit s.xportsIdset id = .ok idset ∧
      t = { s with
        xports := Function.update s.xports id .bad
        xportsIdset := idset
        xportsCount := s.xportsCount - 1 } := by
  unfold unregisterId at h
  split at h
  · cases h
  · rename_i hid
    obtain ⟨idset, hclr, h⟩ := bind_ok h
    cases h
    exact ⟨by omega, idset, hclr, rfl⟩

theorem svcDestroy_ok {s t : Registry β π} {a : Addr} (h : s.svcDestroy a = .ok t) :
    ∃ x, s.heap a = some x ∧ Destroyed s t a x := by
  obtain ⟨u, hu, ht⟩ := bind_ok h
  obtain ⟨x, hx, hu⟩ := bind_ok hu
  obtain ⟨entry, hentry, hu⟩ := bind_ok hu
  split at hu
  · cases hu
  · rename_i hat
    split at hu
    · cases hu
    · obtain ⟨v, hv, hu⟩ := bind_ok hu
      obtain ⟨hlt, hval⟩ := xportsAt_ok hentry
      obtain ⟨hvalid, idset, hclr, rfl⟩ := unregisterId_ok hu
      cases ht
      have hself : s.xports x.mtxpId = .ref a := hval.trans (not_not.mp hat)
      refine ⟨x, deref_ok hx, ?_⟩
      unfold releaseSocket at hv
      split at hv
      · rename_i hmaster
        split at hv
        · cases hv
          exact ⟨hself, hlt, hvalid, hclr, rfl, rfl, rfl, rfl, rfl, Or.inl ⟨hmaster, rfl⟩⟩
        · cases hv
      · rename_i hclone
        obtain ⟨p, px, hp, hpx, rfl⟩ := countParent_ok hv
        exact ⟨hself, hlt, hvalid, hclr, rfl, rfl, rfl, rfl, rfl, Or.inr ⟨hclone, p, px, hp, hpx, rfl⟩⟩

end Registry

end RpcMt
