import RpcMt.Gc
import RpcMt.RegistryIds
import RpcMt.SizeLoops

/-! The scans of the table of transports in `svc.c`: `fsck_busy`, `count_busy`, `xprt_gc_reap_all`,
`check_xports_duplicates`, `check_xports` and `xprt_destroy_all`. All of them run
`for (id = 0; id <= xports_maxid; ++id)`. The bound of an empty registry is `(size_t)(-1)`, and
`xprt_id_alloc` moves it before it finds out that there is no such id, so a scan stays inside the table
when something has been registered and the ids have not run out, and only then. -/

open RpcMt.Runs

namespace RpcMt.Registry

variable {β π : Type}

/-- `id <= xports_maxid`. -/
def idIsValid (s : Registry β π) (id : Nat) : Bool := decide (id ≤ s.xportsMaxid)

/-- One turn of `fsck_busy`; `fdIsOpen` is what the system says of a file descriptor. -/
def fsckBusyTurn (s : Registry β π) (fdIsOpen : Nat → Bool) (id : Nat) : Res Unit := do
  let entry ← s.xportsAt id
  if entry = .bad then pure ()
  else do
    let (_, x) ← s.derefPtr entry
    if x.mtxpBusy ≠ 0 ∧ fdIsOpen x.xpSock = false then .error .svcDie else pure ()

def fsckBusy (fdIsOpen : Nat → Bool) (turns : Nat) (s : Registry β π) : Res Unit :=
  forIds (fun id _ => s.idIsValid id) (fun id _ => s.fsckBusyTurn fdIsOpen id) turns 0 ()

def countBusyTurn (s : Registry β π) (id nbusy : Nat) : Res Nat := do
  let entry ← s.xportsAt id
  if entry = .bad then pure nbusy
  else do
    let (_, x) ← s.derefPtr entry
    pure (if x.mtxpBusy ≠ 0 then nbusy + 1 else nbusy)

def countBusy (turns : Nat) (s : Registry β π) : Res Nat :=
  forIds (fun id _ => s.idIsValid id) s.countBusyTurn turns 0 0

section Reap

variable [IdSet β]

def xprtGcReapScanTurn (id : Nat) (s : Registry β π) : Res (Registry β π) := do
  if ← IdSet.getBit s.xprtgcIdset id then s.xprtGcReapOne id else pure s

/-- `xprt_gc_reap_all`, with the check of the busy transports that it starts with and its loop over
`size_t`. -/
def xprtGcReapScan (fdIsOpen : Nat → Bool) (turns : Nat) (s : Registry β π) : Res (Registry β π) := do
  s.fsckBusy fdIsOpen turns
  forIds (fun id s => s.idIsValid id && s.xprtgcMarkCount != 0) xprtGcReapScanTurn turns 0 s

/-- One turn of the loops of `xprt_destroy_all`: destroy the transport under `id`, if it is one of
those the loop is for. -/
def xprtDestroyTurn (which : Svcxprt π → Bool) (id : Nat) (s : Registry β π) : Res (Registry β π) := do
  let entry ← s.xportsAt id
  if entry = .bad then pure s
  else do
    let (a, x) ← s.derefPtr entry
    if which x then do
      let s' ← s.svcDestroy a
      pure { s' with xports := Function.update s'.xports id .bad }
    else pure s

def xprtDestroyLoop (which : Svcxprt π → Bool) (turns : Nat) (s : Registry β π) : Res (Registry β π) :=
  forIds (fun id s => s.idIsValid id) (xprtDestroyTurn which) turns 0 s

def xprtDestroyAllUdpClones (turns : Nat) (s : Registry β π) : Res (Registry β π) :=
  s.xprtDestroyLoop (fun x => x.mtxpParent != noParent) turns

def xprtDestroyAllTcpRendezvous (turns : Nat) (s : Registry β π) : Res (Registry β π) :=
  s.xprtDestroyLoop (fun x => x.xpPort == 0) turns

/-- `xprt_destroy_all`, called without `xports_lock`. -/
def xprtDestroyAll (turns : Nat) (s : Registry β π) : Res (Registry β π) := do
  let s₁ ← s.xprtDestroyAllUdpClones turns
  let s₂ ← s₁.xprtDestroyAllTcpRendezvous turns
  s₂.xprtDestroyLoop (fun _ => true) turns

end Reap

/-- One turn of the inner loop of `check_xports_duplicates`. The arrays `xp_pad` of two transports have
one address only where the transports have, so the second comparison adds nothing. -/
def duplicateTurn (s : Registry β π) (xprt₁ : XprtPtr) (id : Nat) (err : Bool) : Res Bool := do
  let xprt₂ ← s.xportsAt id
  pure (err || decide (xprt₂ ≠ .bad ∧ xprt₂ = xprt₁))

def duplicatesTurn (s : Registry β π) (turns id : Nat) (err : Bool) : Res Bool := do
  let xprt₁ ← s.xportsAt id
  if xprt₁ = .bad then pure err
  else forIds (fun id _ => s.idIsValid id) (s.duplicateTurn xprt₁) turns ((id + 1) % sizeRange) err

def checkXportsDuplicates (turns : Nat) (s : Registry β π) : Res Bool :=
  forIds (fun id _ => s.idIsValid id) (s.duplicatesTurn turns) turns 0 false

/-- What `check_xports` collects: its error flag and the fields `mtxp_fsck_refcnt`. -/
structure Fsck where
  err : Bool
  fsckRefcnt : Addr → Int

/-- `is_valid_svcxprt`. -/
def isValidSvcxprt : XprtPtr → Bool
  | .null => false
  | .bad => false
  | .ref _ => true

/-- One turn of a loop of `check_xports`: vacant slots are skipped, bad pointers are an error. -/
def fsckTurn (s : Registry β π) (f : Nat → Addr → Svcxprt π → Fsck → Res Fsck) (id : Nat) (st : Fsck) :
    Res Fsck := do
  let entry ← s.xportsAt id
  if entry = .bad then pure st
  else if isValidSvcxprt entry = false then pure { st with err := true }
  else do
    let (a, x) ← s.derefPtr entry
    f id a x st

def fsckLoop (s : Registry β π) (f : Nat → Addr → Svcxprt π → Fsck → Res Fsck) (turns : Nat) (st : Fsck) :
    Res Fsck :=
  forIds (fun id _ => s.idIsValid id) (s.fsckTurn f) turns 0 st

def fsckClear (_ : Nat) (a : Addr) (_ : Svcxprt π) (st : Fsck) : Res Fsck :=
  .ok { st with fsckRefcnt := Function.update st.fsckRefcnt a 0 }

def fsckCount [IdSet β] (s : Registry β π) (id : Nat) (_ : Addr) (x : Svcxprt π) (st : Fsck) : Res Fsck :=
  if x.mtxpParent = noParent then do
    let sockXprt ← s.sockXportsAt x.xpSock
    let inSet ← IdSet.getBit s.xportsIdset id
    pure { st with err := st.err || !isValidSvcxprt sockXprt || !inSet }
  else do
    -- `err` is set for a bad parent, but the parent is followed all the same.
    let (p, _) ← s.derefPtr (← s.xportsAt x.mtxpParent)
    pure { st with fsckRefcnt := Function.update st.fsckRefcnt p (st.fsckRefcnt p + 1) }

def fsckCompare (_ : Nat) (a : Addr) (x : Svcxprt π) (st : Fsck) : Res Fsck :=
  .ok { st with err := st.err || x.mtxpRefcnt != st.fsckRefcnt a }

/-- `check_xports`; `fsckRefcnt` is what the fields held before. -/
def checkXports [IdSet β] (fsckRefcnt : Addr → Int) (turns : Nat) (s : Registry β π) : Res Bool := do
  let err ← s.checkXportsDuplicates turns
  let st₁ ← s.fsckLoop fsckClear turns ⟨err, fsckRefcnt⟩
  let st₂ ← s.fsckLoop s.fsckCount turns st₁
  let st₃ ← s.fsckLoop fsckCompare turns st₂
  pure (!st₃.err)

/-- A scan stays inside the tables and returns, however long one lets it run. -/
def Stays {α : Type} (scan : Nat → Registry β π → Res α) (s : Registry β π) : Prop :=
  ∃ enough, ∀ turns, enough ≤ turns → Within (fun _ => True) (scan turns s)

/-- All the scans do, whatever is open and whatever the counts held. -/
structure ScansStay [IdSet β] (s : Registry β π) : Prop where
  fsckBusy : ∀ fdIsOpen, Stays (fsckBusy fdIsOpen) s
  countBusy : Stays countBusy s
  xprtGcReapAll : ∀ fdIsOpen, Stays (xprtGcReapScan fdIsOpen) s
  checkXportsDuplicates : Stays checkXportsDuplicates s
  checkXports : ∀ fsckRefcnt, Stays (checkXports fsckRefcnt) s
  xprtDestroyAll : Stays xprtDestroyAll s

/-! ### What the scans rely on -/

/-- The tables fit, and what they hold is live: every slot is vacant or holds a live transport under
its own id, and the socket of a master and the parent of a clone are inside the tables. -/
structure TableInv (s : Registry Bitvec π) : Prop where
  size_le : s.xportsSize ≤ fdSetsize
  entries : Entries s
  not_null : ∀ id, s.xports id ≠ .null
  socks : ∀ a x, s.heap a = some x → x.mtxpParent = noParent → x.xpSock < s.xportsSize
  parents : ∀ a x, s.heap a = some x → x.mtxpParent ≠ noParent → x.mtxpParent < s.xportsSize

/-- What a destruction leaves: slots are vacated, transports freed, and nothing else. -/
structure Shrunk (s t : Registry Bitvec π) : Prop where
  size : t.xportsSize = s.xportsSize
  maxid : t.xportsMaxid = s.xportsMaxid
  entries : Entries t
  slots : ∀ id, t.xports id = s.xports id ∨ t.xports id = .bad
  live : ∀ b y, t.heap b = some y → ∃ y', s.heap b = some y' ∧ y.core = y'.core

theorem Shrunk.refl {s : Registry Bitvec π} (h : Entries s) : Shrunk s s :=
  ⟨rfl, rfl, h, fun _ => Or.inl rfl, fun _ y hy => ⟨y, hy, rfl⟩⟩

theorem socks_of_core {x y : Svcxprt π} (h : x.core = y.core) :
    x.mtxpParent = y.mtxpParent ∧ x.xpSock = y.xpSock := by
  have hp : x.core.mtxpParent = y.core.mtxpParent := by rw [h]
  have hs : x.core.xpSock = y.core.xpSock := by rw [h]
  exact ⟨hp, hs⟩

namespace TableInv

variable {s t : Registry Bitvec π} {a : Addr} {x : Svcxprt π} {id : Nat}

theorem shrunk (h : TableInv s) (hst : Shrunk s t) : TableInv t := by
  refine ⟨?_, hst.entries, ?_, ?_, ?_⟩
  · rw [hst.size]
    exact h.size_le
  · intro id hnull
    rcases hst.slots id with heq | heq
    · exact h.not_null id (heq.symm.trans hnull)
    · rw [heq] at hnull
      cases hnull
  · intro b y hy hp
    obtain ⟨y', hy', hcore⟩ := hst.live b y hy
    obtain ⟨hparent, hsock⟩ := socks_of_core hcore
    rw [hst.size, hsock]
    exact h.socks b y' hy' (hparent.symm.trans hp)
  · intro b y hy hp
    obtain ⟨y', hy', hcore⟩ := hst.live b y hy
    have hparent := (socks_of_core hcore).1
    rw [hst.size, hparent]
    exact h.parents b y' hy' (hparent ▸ hp)

theorem size_lt (h : TableInv s) : s.xportsSize < sizeMax := by
  have := h.size_le
  simp only [fdSetsize, sizeMax, sizeRange] at *
  omega

/-- A slot that is not vacant is followed to a live transport with its id. -/
theorem slot (h : TableInv s) (hne : s.xports id ≠ .bad) :
    ∃ a x, s.xports id = .ref a ∧ s.heap a = some x ∧ x.mtxpId = id := by
  cases hat : s.xports id with
  | null => exact absurd hat (h.not_null id)
  | bad => exact absurd hat hne
  | ref a =>
      obtain ⟨x, hx, hid⟩ := h.entries id a hat
      exact ⟨a, x, rfl, hx, hid⟩

end TableInv

/-! ### Single reads and destructions -/

section Reads

variable {s t : Registry Bitvec π} {a : Addr} {x : Svcxprt π} {id : Nat}

theorem xportsAt_within (hid : id < s.xportsSize) :
    Within (fun p => p = s.xports id) (s.xportsAt id) := by
  rw [xportsAt, if_pos hid]
  exact rfl

theorem deref_within : Within (fun x => s.heap a = some x) (s.deref a) := by
  unfold deref
  split
  · exact .error (by decide) (by decide)
  · assumption

theorem derefPtr_within {ptr : XprtPtr} :
    Within (fun p => ptr = .ref p.1 ∧ s.heap p.1 = some p.2) (s.derefPtr ptr) := by
  cases ptr with
  | null => exact .error (by decide) (by decide)
  | bad => exact .error (by decide) (by decide)
  | ref a => exact deref_within.bind fun x _ hx => .pure ⟨rfl, hx⟩

theorem word_within (bv : Bitvec) (idx : Nat) : Within (fun _ => True) (bv.word idx) := by
  rw [Bitvec.word_eq]
  split
  · exact .error (by decide) (by decide)
  · split
    · trivial
    · exact .error (by decide) (by decide)

theorem getBit_within (bv : Bitvec) (idx : Nat) : Within (fun _ => True) (IdSet.getBit bv idx) :=
  (word_within bv idx).bind fun _ _ _ => trivial

theorem clrBit_within (bv : Bitvec) (idx : Nat) : Within (fun _ => True) (IdSet.clrBit bv idx) :=
  (word_within bv idx).bind fun _ _ _ => trivial

theorem countParent_within {parent : Nat} {delta : Int} (h : parent < s.xportsSize) :
    Within (fun _ => True) (s.countParent parent delta) :=
  (xportsAt_within h).bind fun _ _ _ => derefPtr_within.bind fun _ _ _ => trivial

theorem releaseSocket_within (h : TableInv s) (hx : s.heap a = some x) :
    Within (fun _ => True) (s.releaseSocket x) := by
  unfold releaseSocket
  split
  · rename_i hp
    rw [if_pos (h.socks a x hx hp)]
    trivial
  · rename_i hp
    exact countParent_within (h.parents a x hx hp)

theorem unregisterId_within : Within (fun _ => True) (s.unregisterId id) := by
  unfold unregisterId
  split
  · exact .error (by decide) (by decide)
  · exact (clrBit_within _ _).bind fun _ _ _ => trivial

theorem svcDestroy_shrunk (h : TableInv s) (hdes : s.svcDestroy a = .ok t) : Shrunk s t := by
  obtain ⟨x, hx, hd⟩ := svcDestroy_ok hdes
  refine ⟨hd.size, hd.maxid, entries_destroyed h.entries hx hd, fun id => ?_, fun b y hy => ?_⟩
  · rw [hd.xports]
    by_cases hid : id = x.mtxpId
    · rw [hid, Function.update_self]
      exact Or.inr rfl
    · rw [Function.update_of_ne hid]
      exact Or.inl rfl
  · exact (hd.live_before hy).2

/-- Destroying the transport in a slot reads the tables at its id, its socket or its parent only. -/
theorem svcDestroy_within (h : TableInv s) (hat : s.xports id = .ref a) (hid : id < s.xportsSize) :
    Within (fun t => Shrunk s t) (s.svcDestroy a) := by
  obtain ⟨x, hx, rfl⟩ := h.entries id a hat
  have hun : Within (fun _ => True) (s.xprtUnregister a) := by
    refine deref_within.bind fun y _ hy => ?_
    cases hx.symm.trans hy
    refine (xportsAt_within hid).bind fun entry _ _ => ?_
    split
    · exact .error (by decide) (by decide)
    · split
      · exact .error (by decide) (by decide)
      · exact (releaseSocket_within h hx).bind fun _ _ _ => unregisterId_within
  have hdes : Within (fun _ => True) (s.svcDestroy a) := hun.bind fun _ _ _ => trivial
  exact hdes.mono fun t ht _ => svcDestroy_shrunk h ht

/-- Vacating a slot of a destroyed transport once more changes nothing. -/
theorem Shrunk.vacate (h : Shrunk s t) (id : Nat) :
    Shrunk s { t with xports := Function.update t.xports id .bad } := by
  refine ⟨h.size, h.maxid, fun i b hb => ?_, fun i => ?_, h.live⟩
  · by_cases hi : i = id
    · subst hi
      change Function.update t.xports i .bad i = .ref b at hb
      rw [Function.update_self] at hb
      cases hb
    · change Function.update t.xports id .bad i = .ref b at hb
      rw [Function.update_of_ne hi] at hb
      exact h.entries i b hb
  · change Function.update t.xports id .bad i = _ ∨ Function.update t.xports id .bad i = _
    by_cases hi : i = id
    · subst hi
      rw [Function.update_self]
      exact Or.inr rfl
    · rw [Function.update_of_ne hi]
      exact h.slots i

theorem Shrunk.trans {u : Registry Bitvec π} (h : Shrunk s t) (h' : Shrunk t u) : Shrunk s u := by
  refine ⟨h'.size.trans h.size, h'.maxid.trans h.maxid, h'.entries, fun id => ?_, fun b y hy => ?_⟩
  · rcases h'.slots id with heq | heq
    · rw [heq]
      exact h.slots id
    · exact Or.inr heq
  · obtain ⟨z, hz, hcore⟩ := h'.live b y hy
    obtain ⟨w, hw, hcore'⟩ := h.live b z hz
    exact ⟨w, hw, hcore.trans hcore'⟩

theorem xprtDestroyTurn_within (h : TableInv s) (hid : id < s.xportsSize) (which : Svcxprt π → Bool) :
    Within (fun t => Shrunk s t) (xprtDestroyTurn which id s) := by
  refine (xportsAt_within hid).bind fun entry _ hentry => ?_
  split
  · exact .pure (Shrunk.refl h.entries)
  · refine derefPtr_within.bind fun ⟨a, x⟩ _ hp => ?_
    dsimp only at hp ⊢
    split
    · exact (svcDestroy_within h (hentry.symm.trans hp.1) hid).bind fun t _ ht => .pure (ht.vacate id)
    · exact .pure (Shrunk.refl h.entries)

theorem reapXprt_within (h : TableInv s) (hat : s.xports id = .ref a) (hid : id < s.xportsSize) :
    Within (fun t => Shrunk s t) (s.reapXprt id a x) := by
  unfold reapXprt
  split
  · exact (svcDestroy_within h hat hid).bind fun t _ ht => .pure (ht.vacate id)
  · exact Shrunk.refl h.entries

theorem xprtGcReapOne_within (h : TableInv s) (hid : id < s.xportsSize) :
    Within (fun t => Shrunk s t) (s.xprtGcReapOne id) := by
  refine (xportsAt_within hid).bind fun entry _ hentry => ?_
  split
  · exact .pure (Shrunk.refl h.entries)
  · refine derefPtr_within.bind fun ⟨a, x⟩ _ hp => ?_
    refine (reapXprt_within h (hentry.symm.trans hp.1) hid).bind fun t _ ht => ?_
    exact (clrBit_within _ _).bind fun _ _ _ =>
      .pure ⟨ht.size, ht.maxid, ht.entries, ht.slots, ht.live⟩

theorem xprtGcReapScanTurn_within (h : TableInv s) (hid : id < s.xportsSize) :
    Within (fun t => Shrunk s t) (xprtGcReapScanTurn id s) := by
  refine (getBit_within _ _).bind fun b _ _ => ?_
  cases b with
  | false => exact .pure (Shrunk.refl h.entries)
  | true => exact xprtGcReapOne_within h hid

end Reads

/-! ### Scans of a table in use -/

section InTable

variable {s : Registry Bitvec π} {α : Type}

/-- A scan that only reads: its turns at the ids of the table are all that matters. -/
theorem readScan_within (h : TableInv s) (hmax : s.xportsMaxid < s.xportsSize) {body : Nat → α → Res α}
    (hbody : ∀ id st, id < s.xportsSize → Within (fun _ => True) (body id st)) {turns id : Nat} {st : α}
    (hid : id ≤ s.xportsMaxid + 1) (hturns : s.xportsMaxid + 1 < id + turns) :
    Within (fun _ => True) (forIds (fun id _ => s.idIsValid id) body turns id st) := by
  apply forIds_within (hmax.trans h.size_lt) ?_ ?_ hid hturns trivial
  · intro i _ _ hi
    exact of_decide_eq_true hi
  · intro i st' _ hi
    exact hbody i st' (lt_of_le_of_lt (of_decide_eq_true hi) hmax)

/-- A scan that destroys transports leaves a table of the same size with the same high-water mark. -/
theorem destroyScan_within (h : TableInv s) (hmax : s.xportsMaxid < s.xportsSize)
    (more : Registry Bitvec π → Bool) {body : Nat → Registry Bitvec π → Res (Registry Bitvec π)}
    (hbody : ∀ id t, TableInv t → id < t.xportsSize → Within (fun u => Shrunk t u) (body id t))
    {turns : Nat} (hturns : s.xportsMaxid + 1 < turns) :
    Within (fun t => Shrunk s t) (forIds (fun id t => t.idIsValid id && more t) body turns 0 s) := by
  have hle : ∀ id (t : Registry Bitvec π), Shrunk s t → (t.idIsValid id && more t) = true →
      id ≤ s.xportsMaxid := by
    intro id t ht hgo
    rw [← ht.maxid]
    exact of_decide_eq_true (Bool.and_eq_true_iff.mp hgo).1
  apply forIds_within (hmax.trans h.size_lt) hle ?_ (Nat.zero_le _) (by omega) (Shrunk.refl h.entries)
  intro id t ht hgo
  have hlt : id < t.xportsSize := by
    rw [ht.size]
    exact lt_of_le_of_lt (hle id t ht hgo) hmax
  exact (hbody id t (h.shrunk ht) hlt).mono fun u _ hu => ht.trans hu

theorem xprtDestroyLoop_within (h : TableInv s) (hmax : s.xportsMaxid < s.xportsSize)
    (which : Svcxprt π → Bool) {turns : Nat} (hturns : s.xportsMaxid + 1 < turns) :
    Within (fun t => Shrunk s t) (s.xprtDestroyLoop which turns) := by
  have hloop := destroyScan_within h hmax (fun _ => true)
    (fun id t ht hid => xprtDestroyTurn_within ht hid which) hturns
  simp only [Bool.and_true] at hloop
  exact hloop

theorem fsckBusy_within (h : TableInv s) (hmax : s.xportsMaxid < s.xportsSize)
    (fdIsOpen : Nat → Bool) {turns : Nat} (hturns : s.xportsMaxid + 1 < turns) :
    Within (fun _ => True) (s.fsckBusy fdIsOpen turns) := by
  apply readScan_within h hmax ?_ (Nat.zero_le _) (by omega)
  intro id st hid
  refine (xportsAt_within hid).bind fun entry _ _ => ?_
  split
  · trivial
  · refine derefPtr_within.bind fun p _ _ => ?_
    dsimp only
    split
    · exact .error (by decide) (by decide)
    · trivial

theorem fsckLoop_within (h : TableInv s) (hmax : s.xportsMaxid < s.xportsSize)
    {f : Nat → Addr → Svcxprt π → Fsck → Res Fsck}
    (hf : ∀ id a x st, s.heap a = some x → Within (fun _ => True) (f id a x st)) {turns : Nat} {st : Fsck}
    (hturns : s.xportsMaxid + 1 < turns) : Within (fun _ => True) (s.fsckLoop f turns st) := by
  apply readScan_within h hmax ?_ (Nat.zero_le _) (by omega)
  intro id st' hid
  refine (xportsAt_within hid).bind fun entry _ _ => ?_
  split
  · trivial
  · split
    · trivial
    · exact derefPtr_within.bind fun p _ hp => hf id p.1 p.2 st' hp.2

theorem fsckClear_within (id : Nat) (a : Addr) (x : Svcxprt π) (st : Fsck) (_ : s.heap a = some x) :
    Within (fun _ => True) (fsckClear id a x st) := trivial

theorem fsckCompare_within (id : Nat) (a : Addr) (x : Svcxprt π) (st : Fsck) (_ : s.heap a = some x) :
    Within (fun _ => True) (fsckCompare id a x st) := trivial

theorem fsckCount_within (h : TableInv s) {a : Addr} {x : Svcxprt π} (hx : s.heap a = some x) (id : Nat)
    (st : Fsck) : Within (fun _ => True) (s.fsckCount id a x st) := by
  unfold fsckCount
  split
  · rename_i hp
    rw [sockXportsAt, if_pos (h.socks a x hx hp)]
    exact (getBit_within _ _).bind fun _ _ _ => trivial
  · rename_i hp
    exact (xportsAt_within (h.parents a x hx hp)).bind fun _ _ _ => derefPtr_within.bind fun _ _ _ => trivial

theorem checkXportsDuplicates_within (h : TableInv s) (hmax : s.xportsMaxid < s.xportsSize) {turns : Nat}
    (hturns : s.xportsMaxid + 1 < turns) : Within (fun _ => True) (s.checkXportsDuplicates turns) := by
  -- The inner loop starts past an id inside the table, so it does not wrap.
  have hinner : ∀ id err, id ≤ s.xportsMaxid → Within (fun _ => True) (s.duplicatesTurn turns id err) := by
    intro id err hid
    refine (xportsAt_within (lt_of_le_of_lt hid hmax)).bind fun entry _ _ => ?_
    split
    · trivial
    · have hwrap : (id + 1) % sizeRange = id + 1 := by
        apply Nat.mod_eq_of_lt
        have := h.size_lt
        simp only [sizeMax] at this
        omega
      rw [hwrap]
      apply readScan_within h hmax ?_ (by omega) (by omega)
      intro i st' hi
      exact (xportsAt_within hi).bind fun _ _ _ => trivial
  apply forIds_within (hmax.trans h.size_lt) ?_ ?_ (Nat.zero_le _) (by omega) trivial
  · intro i _ _ hi
    exact of_decide_eq_true hi
  · intro i err _ hi
    exact hinner i err (of_decide_eq_true hi)

/-- In a table whose high-water mark is inside it, every scan stays inside it. -/
theorem scansStay_of_maxid_lt (h : TableInv s) (hmax : s.xportsMaxid < s.xportsSize) : ScansStay s where
  fsckBusy fdIsOpen := ⟨s.xportsMaxid + 2, fun _ hn => fsckBusy_within h hmax fdIsOpen (by omega)⟩
  countBusy := by
    refine ⟨s.xportsMaxid + 2, fun turns hn => readScan_within h hmax ?_ (Nat.zero_le _) (by omega)⟩
    intro id st hid
    refine (xportsAt_within hid).bind fun entry _ _ => ?_
    split
    · trivial
    · exact derefPtr_within.bind fun _ _ _ => trivial
  xprtGcReapAll fdIsOpen := by
    refine ⟨s.xportsMaxid + 2, fun turns hn => ?_⟩
    refine (fsckBusy_within h hmax fdIsOpen (by omega)).bind fun _ _ _ => ?_
    exact (destroyScan_within h hmax _ (fun id t ht hid => xprtGcReapScanTurn_within ht hid)
      (by omega)).mono fun _ _ _ => trivial
  checkXportsDuplicates :=
    ⟨s.xportsMaxid + 2, fun _ hn => checkXportsDuplicates_within h hmax (by omega)⟩
  checkXports fsckRefcnt := by
    refine ⟨s.xportsMaxid + 2, fun turns hn => ?_⟩
    refine (checkXportsDuplicates_within h hmax (by omega)).bind fun _ _ _ => ?_
    refine (fsckLoop_within h hmax fsckClear_within (by omega)).bind fun _ _ _ => ?_
    refine (fsckLoop_within h hmax (fun id _ _ st hx => fsckCount_within h hx id st)
      (by omega)).bind fun _ _ _ => ?_
    exact (fsckLoop_within h hmax fsckCompare_within (by omega)).bind fun _ _ _ => trivial
  xprtDestroyAll := by
    refine ⟨s.xportsMaxid + 2, fun turns hn => ?_⟩
    refine (xprtDestroyLoop_within h hmax _ (by omega)).bind fun t _ ht => ?_
    have hmax₁ : t.xportsMaxid < t.xportsSize := by rwa [ht.maxid, ht.size]
    have hturns : t.xportsMaxid + 1 < turns := by
      rw [ht.maxid]
      omega
    refine (xprtDestroyLoop_within (h.shrunk ht) hmax₁ _ hturns).bind fun u _ hu => ?_
    have htu := ht.trans hu
    have hmax₂ : u.xportsMaxid < u.xportsSize := by rwa [htu.maxid, htu.size]
    have hturns' : u.xportsMaxid + 1 < turns := by
      rw [htu.maxid]
      omega
    exact (xprtDestroyLoop_within (h.shrunk htu) hmax₂ _ hturns').mono fun _ _ _ => trivial

end InTable

/-! ### Scans past the end -/

/-- The count walks out of a table whose high-water mark is not inside it. -/
theorem countBusy_walksOut {s : Registry Bitvec π} (hsize : s.xportsSize < sizeMax) (hent : Entries s)
    (hnull : ∀ id, s.xports id ≠ .null) (hmax : s.xportsSize ≤ s.xportsMaxid) (turns : Nat) :
    WalksOut (s.countBusy turns) := by
  apply forIds_walksOut (fun _ => True) hsize ?_ ?_ (Nat.zero_le _) trivial
  · intro id nbusy hid _
    refine ⟨decide_eq_true (by omega), Or.inr ?_⟩
    rw [countBusyTurn, xportsAt, if_pos hid]
    cases hat : s.xports id with
    | null => exact absurd hat (hnull id)
    | bad => exact ⟨nbusy, rfl, trivial⟩
    | ref a =>
        obtain ⟨x, hx, _⟩ := hent id a hat
        refine ⟨if x.mtxpBusy ≠ 0 then nbusy + 1 else nbusy, ?_, trivial⟩
        show (derefPtr s (.ref a) >>= fun _ => _ : Res _) = _
        rw [derefPtr, deref_of_heap hx]
        rfl
  · intro nbusy _
    refine ⟨decide_eq_true hmax, Or.inr ?_⟩
    rw [countBusyTurn, xportsAt, if_neg (lt_irrefl _)]
    rfl

theorem Stays.not_walksOut {α : Type} {scan : Nat → Registry Bitvec π → Res α} {s : Registry Bitvec π}
    (h : Stays scan s) (hout : ∀ turns, WalksOut (scan turns s)) : False := by
  obtain ⟨enough, hstay⟩ := h
  exact (hstay enough (le_refl _)).not_walksOut (hout enough)

/-- A loop that passes over vacant slots walks out of a vacant table with the mark `(size_t)(-1)`. -/
theorem vacantScan_walksOut {s : Registry Bitvec π} {α : Type} (hsize : s.xportsSize < sizeMax)
    (hmax : s.xportsMaxid = sizeMax) {guard : Nat → α → Bool} {body : Nat → α → Res α} {st : α}
    (hguard : ∀ id, guard id st = s.idIsValid id)
    (hbody : ∀ id, id < s.xportsSize → body id st = .ok st)
    (hend : body s.xportsSize st = .error .slotOutOfBounds) (turns : Nat) :
    WalksOut (forIds guard body turns 0 st) := by
  have hvalid : ∀ id ≤ s.xportsSize, s.idIsValid id = true := by
    intro id hid
    apply decide_eq_true
    omega
  apply forIds_walksOut (fun st' => st' = st) hsize ?_ ?_ (Nat.zero_le _) rfl
  · rintro id _ hid rfl
    exact ⟨(hguard id).trans (hvalid id hid.le), Or.inr ⟨_, hbody id hid, rfl⟩⟩
  · rintro _ rfl
    exact ⟨(hguard _).trans (hvalid _ (le_refl _)), Or.inr hend⟩

/-- In the registry that `xports_init` leaves none of the scans stays inside the table. -/
theorem createXports_scans_walkOut (dtablesize : Nat) (fdIsOpen : Nat → Bool) (fsckRefcnt : Addr → Int)
    (turns : Nat) :
    let s : Registry Bitvec π := createXports dtablesize
    WalksOut (s.fsckBusy fdIsOpen turns) ∧ WalksOut (s.countBusy turns) ∧
      WalksOut (s.xprtGcReapScan fdIsOpen turns) ∧ WalksOut (s.checkXportsDuplicates turns) ∧
      WalksOut (s.checkXports fsckRefcnt turns) ∧ WalksOut (s.xprtDestroyAll turns) := by
  intro s
  have hsize : s.xportsSize < sizeMax := by
    have hle := (idInv_createXports (π := π) dtablesize).size_le
    change s.xportsSize ≤ fdSetsize at hle
    simp only [fdSetsize, sizeMax, sizeRange] at *
    omega
  have hat : ∀ id < s.xportsSize, s.xportsAt id = .ok .bad := fun id hid => by
    rw [xportsAt, if_pos hid]
    rfl
  have hend : s.xportsAt s.xportsSize = .error .slotOutOfBounds := by
    rw [xportsAt, if_neg (lt_irrefl _)]
  have hbusy : WalksOut (s.fsckBusy fdIsOpen turns) := by
    apply vacantScan_walksOut hsize rfl (fun _ => rfl)
    · intro id hid
      rw [fsckBusyTurn, hat id hid]
      rfl
    · rw [fsckBusyTurn, hend]
      rfl
  have hdup : WalksOut (s.checkXportsDuplicates turns) := by
    apply vacantScan_walksOut hsize rfl (fun _ => rfl)
    · intro id hid
      rw [duplicatesTurn, hat id hid]
      rfl
    · rw [duplicatesTurn, hend]
      rfl
  refine ⟨hbusy, ?_, hbusy.bind, hdup, hdup.bind, ?_⟩
  · apply vacantScan_walksOut hsize rfl (fun _ => rfl)
    · intro id hid
      rw [countBusyTurn, hat id hid]
      rfl
    · rw [countBusyTurn, hend]
      rfl
  · apply WalksOut.bind
    apply vacantScan_walksOut hsize rfl (fun _ => rfl)
    · intro id hid
      rw [xprtDestroyTurn, hat id hid]
      rfl
    · rw [xprtDestroyTurn, hend]
      rfl

/-! ### Whole histories -/

/-- A call that changes the registry or a transport in it: a registration or an unregistration, a call
of `xprt_gc_mark`, a turn of the reaper at an id, or a store to a live transport that leaves its id,
its parent and its socket alone. -/
inductive XportsOp (π : Type) where
  | reg (op : RegOp π)
  | mark (a : Addr)
  | reapOne (id : Nat)
  | touch (a : Addr) (x : Svcxprt π)

/-- A call of `xprt_register`. -/
def XportsOp.registers : XportsOp π → Bool
  | .reg (.unregister _) => false
  | .reg _ => true
  | _ => false

/-- The registry, and whether `xprt_id_alloc` has called `svc_die` because the ids ran out. The other
threads go on from such a state until the process is gone. -/
structure XportsState (π : Type) where
  reg : Registry Bitvec π
  dying : Bool

/-- What the constructor has allocated when it calls `xprt_register`. -/
def RegOp.built (s : Registry Bitvec π) : RegOp π → Option (Addr × Svcxprt π)
  | .register a sock port isClone priv stat => some (a, .newXprt sock port isClone priv stat)
  | .clone parent a priv => (s.heap parent).map fun px => (a, px.cloneXprt priv)
  | .unregister _ => none

/-- The high-water mark that `xprt_id_alloc` leaves when it finds the ids run out. -/
def runsOut (s : Registry Bitvec π) : Option Nat :=
  match s.xprtIdChoose with
  | .ok (id, maxid) => if s.xportsSize ≤ id then some maxid else none
  | .error _ => none

/-- A registration or unregistration, with the state at the `svc_die` of `xprt_id_alloc`. -/
def regOrDie (s : Registry Bitvec π) (op : RegOp π) : Option (XportsState π) :=
  match regStep s op with
  | some t => some ⟨t, false⟩
  | none =>
      if op.possible s then do
        let (a, x) ← op.built s
        let maxid ← s.runsOut
        some ⟨{ s.store a x with xportsMaxid := maxid }, true⟩
      else none

def touch (s : Registry Bitvec π) (a : Addr) (x : Svcxprt π) : Option (Registry Bitvec π) :=
  match s.heap a with
  | none => none
  | some y =>
      if x.mtxpId = y.mtxpId ∧ x.mtxpParent = y.mtxpParent ∧ x.xpSock = y.xpSock then
        some (s.store a x)
      else none

def xportsStep (s : XportsState π) (op : XportsOp π) : Option (XportsState π) :=
  if s.dying then none
  else match op with
    | .reg op => regOrDie s.reg op
    | .mark a => (s.reg.xprtGcMark a).toOption.map fun r => ⟨r, false⟩
    | .reapOne id => (xprtGcReapScanTurn id s.reg).toOption.map fun r => ⟨r, false⟩
    | .touch a x => (s.reg.touch a x).map fun r => ⟨r, false⟩

/-- `xports_init`. -/
def xportsInit (dtablesize : Nat) : XportsState π := ⟨createXports dtablesize, false⟩

section Histories

variable {s t : Registry Bitvec π} {a : Addr} {x : Svcxprt π} {id maxid : Nat}

/-- The id settled on is inside the table or just past it, and the mark is moved up to it. -/
theorem xprtIdChoose_maxid (hmax : s.xportsMaxid = sizeMax ∨ s.xportsMaxid < s.xportsSize)
    (h : s.xprtIdChoose = .ok (id, maxid)) :
    (id < s.xportsSize → maxid < s.xportsSize) ∧ (s.xportsSize ≤ id → s.xportsSize ≤ maxid) := by
  rcases xprtIdChoose_ok h with ⟨_, rfl, rfl⟩ | ⟨hne, hle, rfl, _, _⟩
  · exact ⟨fun h => h, fun h => h⟩
  · have hlt := hmax.resolve_left hne
    omega

/-- Entering a transport reads the tables at its socket or at its parent. -/
theorem enterXports_bounds (h : s.enterXports a x id = .ok t) :
    (x.mtxpParent = noParent → x.xpSock < s.xportsSize) ∧
      (x.mtxpParent ≠ noParent → x.mtxpParent < s.xportsSize) := by
  unfold enterXports at h
  split at h
  · cases h
  · dsimp only at h
    split at h
    · rename_i hp
      refine ⟨fun _ => ?_, fun hne => absurd hp hne⟩
      obtain ⟨sxprt, hat, _⟩ := bind_ok h
      unfold sockXportsAt at hat
      split at hat
      · assumption
      · cases hat
    · rename_i hp
      refine ⟨fun heq => absurd heq hp, fun _ => ?_⟩
      obtain ⟨entry, hat, _⟩ := bind_ok h
      exact (xportsAt_ok hat).1

theorem TableInv.register (h : TableInv s)
    (hmax : s.xportsMaxid = sizeMax ∨ s.xportsMaxid < s.xportsSize) (ha : s.heap a = none)
    (hid : x.mtxpId = xprtIdInvalid) (hreg : (s.store a x).xprtRegister a = .ok t) :
    TableInv t ∧ t.xportsMaxid < t.xportsSize := by
  obtain ⟨id, maxid, hchoose, hentries⟩ := xprtRegister_registered h.entries ha hid hreg
  obtain ⟨id', s₁, halloc, hent⟩ := xprtRegister_ok (Function.update_self ..) hid hreg
  rw [xprtRegister_of_alloc (Function.update_self ..) hid halloc] at hreg
  obtain ⟨hsock, hparent⟩ := enterXports_bounds hreg
  obtain ⟨maxid', idset, hchoose', hlt, _, rfl⟩ := xprtIdAlloc_ok halloc
  change s.xprtIdChoose = .ok (id', maxid') at hchoose'
  have hsize : t.xportsSize = s.xportsSize := hent.size
  have hheap := fun b => hent.core_registered rfl b
  refine ⟨⟨?_, hentries.entries, ?_, ?_, ?_⟩, ?_⟩
  · rw [hsize]
    exact h.size_le
  · intro i hnull
    rw [hent.xports] at hnull
    by_cases hi : i = id'
    · rw [hi, Function.update_self] at hnull
      cases hnull
    · rw [Function.update_of_ne hi] at hnull
      exact h.not_null i hnull
  · intro b y hy hp
    rw [hsize]
    rcases core_update_cases hheap hy with ⟨rfl, hcore⟩ | ⟨_, y', hy', hcore⟩
    · obtain ⟨hpar, hs⟩ := socks_of_core hcore
      rw [hs]
      exact hsock (hpar.symm.trans hp)
    · obtain ⟨hpar, hs⟩ := socks_of_core hcore
      rw [hs]
      exact h.socks b y' hy' (hpar.symm.trans hp)
  · intro b y hy hp
    rw [hsize]
    rcases core_update_cases hheap hy with ⟨rfl, hcore⟩ | ⟨_, y', hy', hcore⟩
    · have hpar := (socks_of_core hcore).1
      rw [hpar]
      exact hparent (hpar ▸ hp)
    · have hpar := (socks_of_core hcore).1
      rw [hpar]
      exact h.parents b y' hy' (hpar ▸ hp)
  · rw [hent.maxid, hsize]
    exact (xprtIdChoose_maxid hmax hchoose').1 hlt

theorem TableInv.mark (h : TableInv s) (hmark : s.xprtGcMark a = .ok t) :
    TableInv t ∧ t.xportsMaxid = s.xportsMaxid ∧ t.xportsSize = s.xportsSize := by
  obtain ⟨y, hy, hmark⟩ := bind_ok hmark
  obtain ⟨b, _, hmark⟩ := bind_ok hmark
  cases b with
  | true =>
      cases hmark
      exact ⟨h, rfl, rfl⟩
  | false =>
      obtain ⟨idset, _, hpure⟩ := bind_ok hmark
      cases hpure
      exact ⟨⟨h.size_le, h.entries, h.not_null, h.socks, h.parents⟩, rfl, rfl⟩

theorem TableInv.touch (h : TableInv s) (htouch : s.touch a x = some t) :
    TableInv t ∧ t.xportsMaxid = s.xportsMaxid ∧ t.xportsSize = s.xportsSize := by
  unfold Registry.touch at htouch
  split at htouch
  · cases htouch
  · rename_i y hy
    split at htouch
    · rename_i hsame
      cases htouch
      refine ⟨⟨h.size_le, entries_store h.entries hy hsame.1, h.not_null, ?_, ?_⟩, rfl, rfl⟩
      · intro b z hz hp
        rcases update_eq_some hz with ⟨rfl, rfl⟩ | ⟨_, hold⟩
        · rw [hsame.2.2]
          exact h.socks b y hy (hsame.2.1.symm.trans hp)
        · exact h.socks b z hold hp
      · intro b z hz hp
        rcases update_eq_some hz with ⟨rfl, rfl⟩ | ⟨_, hold⟩
        · rw [hsame.2.1]
          exact h.parents b y hy (hsame.2.1 ▸ hp)
        · exact h.parents b z hold hp
    · cases htouch

theorem TableInv.reapOne (h : TableInv s) (hreap : xprtGcReapScanTurn id s = .ok t) : Shrunk s t := by
  by_cases hid : id < s.xportsSize
  · have hin := xprtGcReapScanTurn_within h hid
    rw [hreap] at hin
    exact hin
  · obtain ⟨b, _, hreap⟩ := bind_ok hreap
    cases b with
    | false =>
        cases hreap
        exact Shrunk.refl h.entries
    | true =>
        obtain ⟨entry, hat, _⟩ := bind_ok hreap
        exact absurd (xportsAt_ok hat).1 hid

/-- In a table in use the loop over `size_t` is the reaper that counts its turns. -/
theorem reapScan_eq_reapFrom (h : TableInv s) (hmax : s.xportsMaxid < s.xportsSize) {left turns : Nat}
    (hid : id + left = s.xportsMaxid + 1) (hturns : left < turns) :
    forIds (fun id t => t.idIsValid id && t.xprtgcMarkCount != 0) xprtGcReapScanTurn turns id s =
      reapFrom left id s := by
  induction left generalizing id s turns with
  | zero =>
      obtain ⟨turns, rfl⟩ := Nat.exists_eq_add_of_lt hturns
      have hstop : s.idIsValid id = false := decide_eq_false (by omega)
      rw [show 0 + turns + 1 = turns + 1 by omega, forIds, reapFrom, hstop]
      rfl
  | succ left ih =>
      obtain ⟨turns, rfl⟩ : ∃ n, turns = n + 1 := ⟨turns - 1, by omega⟩
      have hvalid : id ≤ s.xportsMaxid := by omega
      rw [forIds, reapFrom, xprtGcReapTurn, idIsValid, decide_eq_true hvalid]
      by_cases hcount : s.xprtgcMarkCount = 0
      · simp only [hcount, bne_self_eq_false, Bool.and_false, ne_eq, not_true_eq_false, and_false,
          if_false]
        rfl
      · rw [if_pos (by simp [hcount]), if_pos ⟨hvalid, hcount⟩]
        have hwrap : (id + 1) % sizeRange = id + 1 := by
          apply Nat.mod_eq_of_lt
          have := h.size_lt
          simp only [sizeMax] at this
          omega
        have hnext : ∀ t, xprtGcReapScanTurn id s = .ok t →
            forIds (fun id t => t.idIsValid id && t.xprtgcMarkCount != 0) xprtGcReapScanTurn turns
              ((id + 1) % sizeRange) t = reapFrom left (id + 1) t := by
          intro t ht
          have hsh := h.reapOne ht
          rw [hwrap]
          refine ih (h.shrunk hsh) ?_ ?_ (by omega)
          · rwa [hsh.maxid, hsh.size]
          · rw [hsh.maxid]
            omega
        unfold xprtGcReapScanTurn at hnext ⊢
        cases hb : IdSet.getBit s.xprtgcIdset id with
        | error e => rfl
        | ok b =>
            rw [hb] at hnext
            cases b with
            | false => exact hnext s rfl
            | true =>
                change ∀ t, s.xprtGcReapOne id = .ok t → _ at hnext
                show (s.xprtGcReapOne id >>= _ : Res _) = ((s.xprtGcReapOne id >>= _) >>= _ : Res _)
                cases hone : s.xprtGcReapOne id with
                | error e => rfl
                | ok t => exact hnext t hone

/-- `xprt_gc_reap_all` in a table in use: once no busy transport has a closed socket, it is the reaper
of the other results. -/
theorem xprtGcReapScan_eq_xprtGcReapAll (h : TableInv s) (hmax : s.xportsMaxid < s.xportsSize)
    {fdIsOpen : Nat → Bool} {turns : Nat} (hturns : s.xportsMaxid + 1 < turns)
    (hbusy : s.fsckBusy fdIsOpen turns = .ok ()) :
    s.xprtGcReapScan fdIsOpen turns = s.xprtGcReapAll := by
  rw [xprtGcReapScan, hbusy]
  exact reapScan_eq_reapFrom h hmax (Nat.zero_add _) hturns

/-- What is known of a state after a run: `registered` tells whether the run had a registration. -/
structure HistoryInv (registered : Bool) (s : XportsState π) : Prop where
  size_lt : s.reg.xportsSize < sizeMax
  entries : Entries s.reg
  not_null : ∀ id, s.reg.xports id ≠ .null
  tables : s.dying = false → TableInv s.reg
  empty : s.dying = false → registered = false → s.reg.xportsMaxid = sizeMax
  used : s.dying = false → registered = true → s.reg.xportsMaxid < s.reg.xportsSize
  past : s.dying = true → s.reg.xportsSize ≤ s.reg.xportsMaxid

theorem HistoryInv.ofTables {registered : Bool} (h : TableInv s)
    (hempty : registered = false → s.xportsMaxid = sizeMax)
    (hused : registered = true → s.xportsMaxid < s.xportsSize) :
    HistoryInv registered ⟨s, false⟩ :=
  ⟨h.size_lt, h.entries, h.not_null, fun _ => h, fun _ => hempty, fun _ => hused, by rintro ⟨⟩⟩

/-- A step that keeps the mark and the size keeps what is known. -/
theorem HistoryInv.keep {registered : Bool} (hinv : HistoryInv registered ⟨s, false⟩) (h : TableInv t)
    (hmax : t.xportsMaxid = s.xportsMaxid) (hsize : t.xportsSize = s.xportsSize) :
    HistoryInv registered ⟨t, false⟩ := by
  refine HistoryInv.ofTables h (fun hr => ?_) (fun hr => ?_)
  · rw [hmax]
    exact hinv.empty rfl hr
  · rw [hmax, hsize]
    exact hinv.used rfl hr

theorem historyInv_xportsInit (dtablesize : Nat) : HistoryInv (π := π) false (xportsInit dtablesize) := by
  have h := idInv_createXports (π := π) dtablesize
  refine HistoryInv.ofTables ⟨h.size_le, h.entry, ?_, ?_, ?_⟩ (fun _ => rfl) (by rintro ⟨⟩)
  · intro id hnull
    cases hnull
  · intro a x hx
    cases hx
  · intro a x hx
    cases hx

theorem HistoryInv.dies {registered : Bool} (hinv : HistoryInv registered ⟨s, false⟩)
    (ha : s.heap a = none) (hout : s.runsOut = some maxid) (r : Bool) :
    HistoryInv r ⟨{ s.store a x with xportsMaxid := maxid }, true⟩ := by
  have hmark : s.xportsMaxid = sizeMax ∨ s.xportsMaxid < s.xportsSize := by
    cases registered with
    | false => exact Or.inl (hinv.empty rfl rfl)
    | true => exact Or.inr (hinv.used rfl rfl)
  refine ⟨hinv.size_lt, ?_, hinv.not_null, by rintro ⟨⟩, by rintro ⟨⟩, by rintro ⟨⟩, fun _ => ?_⟩
  · intro i b hb
    obtain ⟨y, hy, hyid⟩ := hinv.entries i b hb
    have hba : b ≠ a := by
      rintro rfl
      exact absurd (ha.symm.trans hy) (by rintro ⟨⟩)
    exact ⟨y, (Function.update_of_ne hba _ _).trans hy, hyid⟩
  · unfold runsOut at hout
    split at hout
    · rename_i id m hchoose
      split at hout
      · rename_i hle
        cases hout
        exact (xprtIdChoose_maxid hmark hchoose).2 hle
      · cases hout
    · cases hout

theorem HistoryInv.reg {registered : Bool} {u : XportsState π} {op : RegOp π}
    (hinv : HistoryInv registered ⟨s, false⟩) (hop : regOrDie s op = some u) :
    HistoryInv (registered || (XportsOp.reg op).registers) u := by
  have h := hinv.tables rfl
  have hmark : s.xportsMaxid = sizeMax ∨ s.xportsMaxid < s.xportsSize := by
    cases registered with
    | false => exact Or.inl (hinv.empty rfl rfl)
    | true => exact Or.inr (hinv.used rfl rfl)
  unfold regOrDie at hop
  split at hop
  · rename_i t hst
    cases hop
    obtain ⟨hp, hop⟩ := regStep_ok hst
    cases op with
    | register b sock port isClone priv stat =>
        obtain ⟨ht, hlt⟩ := h.register hmark (Option.isNone_iff_eq_none.mp hp) rfl hop
        exact HistoryInv.ofTables ht (by simp [XportsOp.registers]) fun _ => hlt
    | clone parent b priv =>
        obtain ⟨hnone, _⟩ := Bool.and_eq_true_iff.mp hp
        obtain ⟨px, _, hop⟩ := bind_ok hop
        obtain ⟨ht, hlt⟩ := h.register hmark (Option.isNone_iff_eq_none.mp hnone) rfl hop
        exact HistoryInv.ofTables ht (by simp [XportsOp.registers]) fun _ => hlt
    | unregister b =>
        have hsh := svcDestroy_shrunk h hop
        rw [show (XportsOp.reg (.unregister b : RegOp π)).registers = false from rfl, Bool.or_false]
        exact hinv.keep (h.shrunk hsh) hsh.maxid hsh.size
  · split at hop
    · rename_i hp
      obtain ⟨⟨b, y⟩, hbuilt, hop⟩ := Option.bind_eq_some_iff.mp hop
      obtain ⟨maxid, hout, hop⟩ := Option.bind_eq_some_iff.mp hop
      cases hop
      have hfree : s.heap b = none := by
        cases op with
        | register b' sock port isClone priv stat =>
            cases hbuilt
            exact Option.isNone_iff_eq_none.mp hp
        | clone parent b' priv =>
            obtain ⟨px, _, hpair⟩ := Option.map_eq_some_iff.mp hbuilt
            cases hpair
            exact Option.isNone_iff_eq_none.mp (Bool.and_eq_true_iff.mp hp).1
        | unregister b' => cases hbuilt
      exact hinv.dies hfree hout _
    · cases hop

theorem HistoryInv.step {registered : Bool} {u v : XportsState π} {op : XportsOp π}
    (hinv : HistoryInv registered u) (hst : xportsStep u op = some v) :
    HistoryInv (registered || op.registers) v := by
  obtain ⟨s, dying⟩ := u
  cases dying with
  | true => cases hst
  | false =>
      have h := hinv.tables rfl
      cases op with
      | reg op => exact hinv.reg hst
      | mark a =>
          obtain ⟨t, ht, rfl⟩ := Option.map_eq_some_iff.mp hst
          obtain ⟨htab, hmax, hsize⟩ := h.mark (toOption_ok ht)
          rw [show (XportsOp.mark a : XportsOp π).registers = false from rfl, Bool.or_false]
          exact hinv.keep htab hmax hsize
      | reapOne id =>
          obtain ⟨t, ht, rfl⟩ := Option.map_eq_some_iff.mp hst
          have hsh := h.reapOne (toOption_ok ht)
          rw [show (XportsOp.reapOne id : XportsOp π).registers = false from rfl, Bool.or_false]
          exact hinv.keep (h.shrunk hsh) hsh.maxid hsh.size
      | touch a x =>
          obtain ⟨t, ht, rfl⟩ := Option.map_eq_some_iff.mp hst
          obtain ⟨htab, hmax, hsize⟩ := h.touch ht
          rw [show (XportsOp.touch a x : XportsOp π).registers = false from rfl, Bool.or_false]
          exact hinv.keep htab hmax hsize

theorem HistoryInv.exec {registered : Bool} {u v : XportsState π} {ops : List (XportsOp π)}
    (hinv : HistoryInv registered u) (hrun : Runs.exec xportsStep anyStep u ops = some v) :
    HistoryInv (registered || ops.any XportsOp.registers) v := by
  induction ops generalizing registered u with
  | nil =>
      cases hrun
      rw [List.any_nil, Bool.or_false]
      exact hinv
  | cons op ops ih =>
      obtain ⟨_, w, hw, hrest⟩ := exec_cons xportsStep anyStep hrun
      have hv := ih (hinv.step hw) hrest
      rwa [Bool.or_assoc] at hv

theorem HistoryInv.scansStay_iff {registered : Bool} {u : XportsState π} (hinv : HistoryInv registered u) :
    ScansStay u.reg ↔ registered = true ∧ u.dying = false := by
  constructor
  · intro hstay
    -- The count alone walks out, of an empty table and of one whose mark was moved past its end.
    by_contra hnot
    have hmax : u.reg.xportsSize ≤ u.reg.xportsMaxid := by
      cases hd : u.dying with
      | true => exact hinv.past hd
      | false =>
          cases hr : registered with
          | true => exact absurd ⟨hr, hd⟩ hnot
          | false =>
              rw [hinv.empty hd hr]
              exact hinv.size_lt.le
    exact hstay.countBusy.not_walksOut
      (countBusy_walksOut hinv.size_lt hinv.entries hinv.not_null hmax)
  · rintro ⟨hr, hd⟩
    exact scansStay_of_maxid_lt (hinv.tables hd) (hinv.used hd hr)

end Histories

/-- After any history, the scans stay inside the registry if and only if something has been registered
and `xprt_id_alloc` has not found the ids run out. -/
theorem scansStay_iff_registered {dtablesize : Nat} {ops : List (XportsOp π)} {t : XportsState π}
    (hrun : exec xportsStep anyStep (xportsInit dtablesize) ops = some t) :
    ScansStay t.reg ↔ (∃ op ∈ ops, op.registers = true) ∧ t.dying = false := by
  have hinv := (historyInv_xportsInit dtablesize).exec hrun
  rw [hinv.scansStay_iff, Bool.false_or, List.any_eq_true]

/-- A master on socket `a`, registered. -/
def registerOn (a : Addr) : XportsOp Unit := .reg (.register a a 0 false () .idle)

/-- One transport is registered and destroyed, and the scans of the table it leaves stay inside it. -/
theorem scansStay_after_one :
    ∃ t, exec xportsStep anyStep (xportsInit 4) [registerOn 0, .reg (.unregister 0)] = some t ∧
      ScansStay t.reg := by
  have hrun : (exec xportsStep anyStep (xportsInit 4) [registerOn 0, .reg (.unregister 0)]).map
      XportsState.dying = some false := by decide +kernel
  obtain ⟨t, ht, hdying⟩ := Option.map_eq_some_iff.mp hrun
  refine ⟨t, ht, (scansStay_iff_registered ht).mpr ⟨⟨registerOn 0, ?_, rfl⟩, hdying⟩⟩
  exact List.mem_cons_self

/-- `count_busy` reads `xports[4]` of an empty table of four slots, and `xports[1]` of a table of one
slot in which a second registration has found the ids run out. -/
theorem countBusy_past_end :
    ¬ScansStay (xportsInit 4 : XportsState Unit).reg ∧
      (xportsInit 4 : XportsState Unit).reg.countBusy 8 = .error .slotOutOfBounds ∧
      ∃ t, exec xportsStep anyStep (xportsInit 1) [registerOn 0, registerOn 1] = some t ∧
        ¬ScansStay t.reg ∧ t.reg.countBusy 8 = .error .slotOutOfBounds := by
  have hrun : (exec xportsStep anyStep (xportsInit 1) [registerOn 0, registerOn 1]).map
      (fun t => (t.dying, t.reg.countBusy 8)) = some (true, .error .slotOutOfBounds) := by decide +kernel
  obtain ⟨t, ht, hend⟩ := Option.map_eq_some_iff.mp hrun
  obtain ⟨hdying, hcount⟩ := Prod.mk.inj hend
  refine ⟨fun hstay => ?_, by decide +kernel, t, ht, fun hstay => ?_, hcount⟩
  · apply hstay.countBusy.not_walksOut
    intro turns
    exact (createXports_scans_walkOut 4 (fun _ => true) (fun _ => 0) turns).2.1
  · have hinv := (historyInv_xportsInit 1).exec ht
    rw [hinv.scansStay_iff, hdying] at hstay
    exact absurd hstay.2 (by decide)

end RpcMt.Registry
