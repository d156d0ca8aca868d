import RpcMt.ExactIds
import RpcMt.RegistryScans

/-! `svc_die`. Before it aborts it shuts the service down, and the shutdown destroys the transports: a
destruction takes the lock of its transport and then `xports_lock`. A default mutex that its own thread
holds is never given to it. The functions below are those that call `svc_die`, with what they do to the
registry and to the mutexes up to the call; a second call from inside the shutdown shuts down once more. -/

namespace RpcMt

namespace SvcDie

inductive Mutex where
  | ioLock
  | xportsLock
  | mtxpLock (xprt : Addr)
  | mtxpProgressLock (xprt : Addr)
  deriving DecidableEq

/-- A thread that is alone with the registry, and the mutexes it holds. -/
structure Thread (β π : Type) where
  reg : Registry β π
  held : List Mutex

/-- How a thread comes to a stop: at `abort()`, at a mutex that it holds itself, at a fault, in a loop; or at
a call of `svc_die` that is not followed any further. -/
inductive Stop (β π : Type) where
  | aborted
  | waits (m : Mutex)
  | fault (e : Fault)
  | noReturn
  | svcDie (st : Thread β π)

abbrev Run (β π α : Type) := Except (Stop β π) α

section Shutdown

variable {β π : Type}

/-- `pthread_mutex_lock` and `pthread_mutex_unlock`. -/
def Thread.lock (st : Thread β π) (m : Mutex) : Run β π (Thread β π) :=
  if m ∈ st.held then .error (.waits m) else .ok { st with held := m :: st.held }

def Thread.unlock (st : Thread β π) (m : Mutex) : Thread β π := { st with held := st.held.erase m }

variable [IdSet β]

section Calls

variable (die : Thread β π → Stop β π)

/-- What the registry computes; where it calls `svc_die`, so does the thread. -/
def orDie {α : Type} (st : Thread β π) : Res α → Run β π α
  | .ok v => .ok v
  | .error .svcDie => .error (die st)
  | .error e => .error (.fault e)

/-! ### Registration -/

def xprtIdAlloc (st : Thread β π) : Run β π (Nat × Thread β π) := do
  let (id, maxid) ← orDie die st st.reg.xprtIdChoose
  let st := { st with reg.xportsMaxid := maxid }
  if st.reg.xportsSize ≤ id then .error (die st)
  else do
    let idset ← orDie die st (IdSet.setBit st.reg.xportsIdset id)
    pure (id, { st with reg.xportsIdset := idset, reg.xportsCount := st.reg.xportsCount + 1 })

/-- Entering a master under its socket. The error code of `init_pollfd` goes back to `xprt_register`. -/
def enterMaster (st : Thread β π) (a : Addr) (sock : Nat) : Run β π (Thread β π) := do
  let sxprt ← orDie die st (st.reg.sockXportsAt sock)
  if ← orDie die st (st.reg.socketXprtIsAvailable sxprt) then
    match Registry.initPollfd { st.reg with sockXports := Function.update st.reg.sockXports sock (.ref a) } sock with
    | .ok reg => .ok { st with reg := reg }
    | .error e => .error (.fault e)
  else .error (die st)

/-- `xprt_register_with_lock`, once the transport has an id. -/
def enterXports (st : Thread β π) (a : Addr) (x : Svcxprt π) (id : Nat) : Run β π (Thread β π) :=
  if st.reg.xportsSize ≤ id then .error (die st)
  else
    let st := { st with reg.xports := Function.update st.reg.xports id (.ref a) }
    if x.mtxpParent = noParent then enterMaster die st a x.xpSock
    else do
      let reg ← orDie die st (st.reg.countParent x.mtxpParent 1)
      pure { st with reg := reg }

def xprtRegisterWithLock (st : Thread β π) (a : Addr) : Run β π (Thread β π) := do
  let x ← orDie die st (st.reg.deref a)
  if x.mtxpId = xprtIdInvalid then do
    let (id, st) ← xprtIdAlloc die st
    enterXports die { st with reg := st.reg.store a { x with mtxpId := id } } a x id
  else enterXports die st a x x.mtxpId

/-- `xprt_register`, up to the return of `xprt_register_with_lock`. -/
def xprtRegister (st : Thread β π) (a : Addr) : Run β π (Thread β π) := do
  let st ← st.lock .ioLock
  let st ← st.lock .xportsLock
  xprtRegisterWithLock die st a

/-! ### Destruction -/

def unregisterId (st : Thread β π) (id : Nat) : Run β π (Thread β π) :=
  if st.reg.xportsMaxid < id then .error (die st)
  else do
    let st := { st with reg.xports := Function.update st.reg.xports id .bad }
    let idset ← orDie die st (IdSet.clrBit st.reg.xportsIdset id)
    pure { st with reg.xportsIdset := idset, reg.xportsCount := st.reg.xportsCount - 1 }

/-- `xprt_unregister_with_lock`, with the check of `check_svcxprt_exists`. -/
def xprtUnregisterWithLock (st : Thread β π) (a : Addr) : Run β π (Thread β π) := do
  let x ← orDie die st (st.reg.deref a)
  let entry ← orDie die st (st.reg.xportsAt x.mtxpId)
  if entry ≠ .ref a then .error (die st)
  else if st.reg.xportsMaxid < x.mtxpId then .error (die st)
  else do
    let reg ← orDie die st (st.reg.releaseSocket x)
    unregisterId die { st with reg := reg } x.mtxpId

def xprtSetBusy (st : Thread β π) (a : Addr) (x : Svcxprt π) : Run β π (Thread β π) := do
  let st ← st.lock (.mtxpProgressLock a)
  pure ({ st with reg := st.reg.store a (x.setBusy 1) }.unlock (.mtxpProgressLock a))

/-- Only `svctcp_destroy` begins with marking the transport busy; a transport that can be cloned is UDP. -/
def beginDestroy (st : Thread β π) (a : Addr) (x : Svcxprt π) : Run β π (Thread β π) :=
  if x.mtxpClone then .ok st else xprtSetBusy st a x

/-- `SVC_DESTROY`, that is `svctcp_destroy` or `svcudp_destroy`. -/
def svcDestroy (st : Thread β π) (a : Addr) : Run β π (Thread β π) := do
  let x ← orDie die st (st.reg.deref a)
  let st ← beginDestroy st a x
  let st ← st.lock (.mtxpLock a)
  let st := st.unlock (.mtxpLock a)
  let st ← st.lock .xportsLock
  let st ← xprtUnregisterWithLock die st a
  pure ({ st with reg.heap := Function.update st.reg.heap a none }.unlock .xportsLock)

/-! ### Scans -/

/-- `for (id = 0; id <= xports_maxid; ++id)`. -/
def scan (turn : Nat → Thread β π → Run β π (Thread β π)) : Nat → Nat → Thread β π → Run β π (Thread β π)
  | 0, _, _ => .error .noReturn
  | turns + 1, id, st =>
      if st.reg.idIsValid id then do
        let st ← turn id st
        scan turn turns ((id + 1) % sizeRange) st
      else .ok st

def fsckBusyTurn (fdIsOpen : Nat → Bool) (id : Nat) (st : Thread β π) : Run β π (Thread β π) := do
  let entry ← orDie die st (st.reg.xportsAt id)
  if entry = .bad then pure st
  else do
    let (a, x) ← orDie die st (st.reg.derefPtr entry)
    let st ← st.lock (.mtxpLock a)
    if x.mtxpBusy ≠ 0 ∧ fdIsOpen x.xpSock = false then .error (die st)
    else pure (st.unlock (.mtxpLock a))

def fsckBusy (fdIsOpen : Nat → Bool) (turns : Nat) (st : Thread β π) : Run β π (Thread β π) :=
  scan (fsckBusyTurn die fdIsOpen) turns 0 st

def destroyTurn (which : Svcxprt π → Bool) (id : Nat) (st : Thread β π) : Run β π (Thread β π) := do
  let entry ← orDie die st (st.reg.xportsAt id)
  if entry = .bad then pure st
  else do
    let (a, x) ← orDie die st (st.reg.derefPtr entry)
    if which x then do
      let st ← svcDestroy die st a
      pure { st with reg.xports := Function.update st.reg.xports id .bad }
    else pure st

def xprtDestroyAll (turns : Nat) (st : Thread β π) : Run β π (Thread β π) := do
  let st ← scan (destroyTurn die fun x => x.mtxpParent != noParent) turns 0 st
  let st ← scan (destroyTurn die fun x => x.xpPort == 0) turns 0 st
  scan (destroyTurn die fun _ => true) turns 0 st

end Calls

/-- `svc_die`, with `svc_shutdown`: what the shutdown does after `xprt_destroy_all` takes no mutex. A call
from inside the shutdown may be nested so deep. -/
def svcDie (turns : Nat) : Nat → Thread β π → Stop β π
  | 0, _ => .noReturn
  | depth + 1, st =>
      match xprtDestroyAll (svcDie turns depth) turns st with
      | .error stop => stop
      | .ok _ => .aborted

/-- A call into the functions that may call `svc_die`. -/
inductive Call where
  | xprtRegister (a : Addr)
  | svcDestroy (a : Addr)
  | fsckBusy (fdIsOpen : Nat → Bool) (turns : Nat)

def Call.run (die : Thread β π → Stop β π) (st : Thread β π) : Call → Run β π (Thread β π)
  | .xprtRegister a => SvcDie.xprtRegister die st a
  | .svcDestroy a => SvcDie.svcDestroy die st a
  | .fsckBusy fdIsOpen turns => SvcDie.fsckBusy die fdIsOpen turns st

/-- The thread has come to a call of `svc_die`. -/
def Call.Dies (call : Call) (st st' : Thread β π) : Prop := call.run .svcDie st = .error (.svcDie st')

/-- The table holds a live transport. -/
def HasLive (s : Registry β π) : Prop :=
  ∃ id a, id ≤ s.xportsMaxid ∧ s.xports id = .ref a ∧ (s.heap a).isSome = true

/-! ### A thread that cannot finish a shutdown -/

/-- Where the computation stops, it stops as `E` says; what it returns meets `Q`. -/
def Post {α : Type} (E : Stop β π → Prop) (Q : α → Prop) : Run β π α → Prop
  | .ok v => Q v
  | .error stop => E stop

/-- The computation does not abort. -/
abbrev Survives {α : Type} (Q : α → Prop) (r : Run β π α) : Prop := Post (fun stop => stop ≠ .aborted) Q r

/-- Where the computation comes to a call of `svc_die`, the thread meets `P`. -/
abbrev Dying {α : Type} (P : Thread β π → Prop) (Q : α → Prop) (r : Run β π α) : Prop :=
  Post (fun stop => ∀ st, stop = .svcDie st → P st) Q r

section Rules

variable {α γ : Type} {E : Stop β π → Prop} {Q : α → Prop} {R : γ → Prop} {die : Thread β π → Stop β π}

omit [IdSet β] in
theorem Post.bind {r : Run β π α} {f : α → Run β π γ} (h : Post E Q r)
    (hf : ∀ v, r = .ok v → Q v → Post E R (f v)) : Post E R (r >>= f) := by
  cases r with
  | error stop => exact h
  | ok v => exact hf v rfl h

omit [IdSet β] in
theorem lock_post (st : Thread β π) (m : Mutex) (hwaits : E (.waits m)) :
    Post E (fun st' => m ∉ st.held ∧ st' = { st with held := m :: st.held }) (st.lock m) := by
  unfold Thread.lock
  split
  · exact hwaits
  · rename_i hfree
    exact ⟨hfree, rfl⟩

omit [IdSet β] in
theorem lock_survives (st : Thread β π) (m : Mutex) :
    Survives (fun st' => m ∉ st.held ∧ st' = { st with held := m :: st.held }) (st.lock m) :=
  lock_post st m fun h => (nomatch h)

omit [IdSet β] in
/-- A mutex taken and given back. -/
theorem unlock_locked (st : Thread β π) (m : Mutex) : Thread.unlock { st with held := m :: st.held } m = st := by
  unfold Thread.unlock
  rw [List.erase_cons_head]

omit [IdSet β] in
theorem orDie_post {st : Thread β π} {r : Res α} (hdie : r = .error .svcDie → E (die st))
    (hfault : ∀ e, E (.fault e)) : Post E (fun v => r = .ok v) (orDie die st r) := by
  cases r with
  | ok v => rfl
  | error e => cases e <;> first | exact hdie rfl | exact hfault _

omit [IdSet β] in
theorem orDie_survives {st : Thread β π} (hdie : die st ≠ .aborted) (r : Res α) :
    Survives (fun v => r = .ok v) (orDie die st r) :=
  orDie_post (fun _ => hdie) fun _ h => (nomatch h)

end Rules

/-- A live transport is in the table, and the thread holds a mutex that destroying it takes. -/
structure Stuck (id : Nat) (a : Addr) (st : Thread β π) : Prop where
  valid : id ≤ st.reg.xportsMaxid
  entry : st.reg.xports id = .ref a
  live : (st.reg.heap a).isSome = true
  holds : .xportsLock ∈ st.held ∨ .mtxpLock a ∈ st.held

omit [IdSet β] in
/-- Nothing that counts for being stuck has changed. -/
theorem Stuck.congr {id : Nat} {a : Addr} {st st' : Thread β π} (h : Stuck id a st)
    (hmaxid : st'.reg.xportsMaxid = st.reg.xportsMaxid) (hentry : st'.reg.xports id = st.reg.xports id)
    (hlive : (st'.reg.heap a).isSome = (st.reg.heap a).isSome) (hheld : ∀ m, m ∈ st.held → m ∈ st'.held) :
    Stuck id a st' where
  valid := hmaxid.symm ▸ h.valid
  entry := hentry.trans h.entry
  live := hlive.trans h.live
  holds := h.holds.imp (hheld _) (hheld _)

omit [IdSet β] in
theorem isSome_store (s : Registry β π) {a b : Addr} {x y : Svcxprt π} (hx : s.heap b = some x) :
    ((s.store b y).heap a).isSome = (s.heap a).isSome := by
  by_cases hab : a = b
  · rw [hab, Registry.store, hx]
    simp
  · rw [Registry.store]
    simp only [Function.update_of_ne hab]

omit [IdSet β] in
/-- Releasing a socket or a parent leaves the entries of the table and what is live. -/
theorem releaseSocket_keeps {s t : Registry β π} {x : Svcxprt π} (h : s.releaseSocket x = .ok t) (a : Addr) :
    t.xports = s.xports ∧ t.xportsMaxid = s.xportsMaxid ∧ (t.heap a).isSome = (s.heap a).isSome := by
  unfold Registry.releaseSocket at h
  split at h
  · split at h
    · cases h
      exact ⟨rfl, rfl, rfl⟩
    · cases h
  · obtain ⟨p, px, _, hpx, rfl⟩ := Registry.countParent_ok h
    exact ⟨rfl, rfl, isSome_store s hpx⟩

section Stuck

variable {die : Thread β π → Stop β π} {id : Nat} {a b : Addr} {st : Thread β π}

/-- Unregistering another transport leaves this one in the table. -/
theorem unregister_survives (hdie : ∀ st, Stuck id a st → die st ≠ .aborted) (h : Stuck id a st) (hab : a ≠ b) :
    Survives (fun st' => Stuck id a st' ∧ st'.held = st.held) (xprtUnregisterWithLock die st b) := by
  refine (orDie_survives (hdie st h) _).bind fun x _ hx => ?_
  refine (orDie_survives (hdie st h) _).bind fun entry _ hentry => ?_
  split
  · exact hdie st h
  · rename_i hself
    split
    · exact hdie st h
    · refine (orDie_survives (hdie st h) _).bind fun reg _ hreg => ?_
      obtain ⟨hxports, hmaxid, hlive⟩ := releaseSocket_keeps hreg a
      have hid : id ≠ x.mtxpId := by
        rintro rfl
        have hat := (Registry.xportsAt_ok hentry).2
        rw [not_not.mp hself, h.entry] at hat
        exact hab (XprtPtr.ref.inj hat)
      have hreg' : Stuck id a { st with reg := reg } := h.congr hmaxid (congrFun hxports id) hlive fun _ hm => hm
      unfold unregisterId
      split
      · exact hdie _ hreg'
      · have hvacated : Stuck id a { st with reg := { reg with xports := Function.update reg.xports x.mtxpId .bad } } :=
          hreg'.congr rfl (Function.update_of_ne hid _ _) rfl fun _ hm => hm
        refine (orDie_survives (hdie _ hvacated) _).bind fun idset _ _ => ?_
        exact ⟨hvacated.congr rfl rfl rfl fun _ hm => hm, rfl⟩

omit [IdSet β] in
/-- Marking a transport busy destroys none. -/
theorem beginDestroy_survives (h : Stuck id a st) {x : Svcxprt π} (hx : st.reg.heap b = some x) :
    Survives (Stuck id a) (beginDestroy st b x) := by
  unfold beginDestroy
  split
  · exact h
  · refine (lock_survives st _).bind fun st' _ hlocked => ?_
    rw [hlocked.2]
    show Stuck id a (Thread.unlock { reg := st.reg.store b (x.setBusy 1), held := .mtxpProgressLock b :: st.held } _)
    rw [unlock_locked ⟨st.reg.store b (x.setBusy 1), st.held⟩]
    exact h.congr rfl rfl (isSome_store st.reg hx) fun _ hm => hm

/-- The transport itself cannot be destroyed, and destroying another one changes nothing for it. -/
theorem svcDestroy_survives (hdie : ∀ st, Stuck id a st → die st ≠ .aborted) (h : Stuck id a st) (b : Addr) :
    Survives (fun st' => a ≠ b ∧ Stuck id a st') (svcDestroy die st b) := by
  refine (orDie_survives (hdie st h) _).bind fun x _ hx => ?_
  refine (beginDestroy_survives h (Registry.deref_ok hx)).bind fun st₁ _ h₁ => ?_
  refine (lock_survives st₁ _).bind fun st₂ _ hmtxp => ?_
  obtain ⟨hfree, rfl⟩ := hmtxp
  dsimp only
  rw [unlock_locked]
  refine (lock_survives st₁ _).bind fun st₃ _ hxports => ?_
  obtain ⟨hnotheld, rfl⟩ := hxports
  -- Both mutexes were to be had: it is not this transport that is being destroyed.
  have hab : a ≠ b := by
    rintro rfl
    exact h₁.holds.elim hnotheld hfree
  have hlocked : Stuck id a { st₁ with held := .xportsLock :: st₁.held } :=
    h₁.congr rfl rfl rfl fun _ hm => List.mem_cons_of_mem _ hm
  refine (unregister_survives hdie hlocked hab).bind fun st₄ _ hst₄ => ?_
  obtain ⟨h₄, hheld⟩ := hst₄
  refine ⟨hab, h₄.valid, h₄.entry, ?_, ?_⟩
  · show (Function.update st₄.reg.heap b none a).isSome = true
    rw [Function.update_of_ne hab]
    exact h₄.live
  · show _ ∈ st₄.held.erase .xportsLock ∨ _ ∈ st₄.held.erase .xportsLock
    rw [hheld, List.erase_cons_head]
    exact h₁.holds

theorem destroyTurn_survives (hdie : ∀ st, Stuck id a st → die st ≠ .aborted) (h : Stuck id a st)
    (which : Svcxprt π → Bool) (i : Nat) :
    Survives (fun st' => Stuck id a st' ∧ (i = id → ∃ x, st.reg.heap a = some x ∧ which x = false))
      (destroyTurn die which i st) := by
  refine (orDie_survives (hdie st h) _).bind fun entry _ hentry => ?_
  have hat := (Registry.xportsAt_ok hentry).2
  split
  · rename_i hbad
    refine ⟨h, ?_⟩
    rintro rfl
    rw [h.entry, hbad] at hat
    cases hat
  · refine (orDie_survives (hdie st h) _).bind fun ⟨b, x⟩ _ hb => ?_
    obtain ⟨rfl, hx⟩ := Registry.derefPtr_ok hb
    dsimp only
    split
    · refine (svcDestroy_survives hdie h b).bind fun st' _ hst' => ?_
      obtain ⟨hab, hstuck⟩ := hst'
      have hne : id ≠ i := by
        rintro rfl
        rw [h.entry] at hat
        exact hab (XprtPtr.ref.inj hat)
      exact ⟨hstuck.congr rfl (Function.update_of_ne hne _ _) rfl fun _ hm => hm, fun heq => absurd heq.symm hne⟩
    · rename_i hkeep
      refine ⟨h, ?_⟩
      rintro rfl
      rw [h.entry] at hat
      cases hat
      exact ⟨x, hx, Bool.eq_false_iff.mpr hkeep⟩

theorem scan_survives (hdie : ∀ st, Stuck id a st → die st ≠ .aborted) (which : Svcxprt π → Bool) {turns i : Nat}
    (h : Stuck id a st) : Survives (Stuck id a) (scan (destroyTurn die which) turns i st) := by
  induction turns generalizing i st with
  | zero => exact fun hne => (nomatch hne)
  | succ turns ih =>
      rw [scan]
      split
      · exact (destroyTurn_survives hdie h which i).bind fun st' _ hst' => ih hst'.1
      · exact h

/-- The last pass comes to the transport, and no further. -/
theorem lastScan_survives (hdie : ∀ st, Stuck id a st → die st ≠ .aborted) {turns i : Nat} (h : Stuck id a st)
    (hi : i ≤ id) : Survives (fun _ => False) (scan (destroyTurn die fun _ => true) turns i st) := by
  induction turns generalizing i st with
  | zero => exact fun hne => (nomatch hne)
  | succ turns ih =>
      have hvalid : st.reg.idIsValid i = true := decide_eq_true (hi.trans h.valid)
      rw [scan, if_pos hvalid]
      refine (destroyTurn_survives hdie h (fun _ => true) i).bind fun st' _ hst' => ?_
      obtain ⟨hstuck, hself⟩ := hst'
      have hne : i ≠ id := by
        intro heq
        obtain ⟨x, _, hx⟩ := hself heq
        cases hx
      exact ih hstuck ((Nat.mod_le _ _).trans (by omega))

theorem svcDie_ne_aborted (turns depth : Nat) (h : Stuck id a st) : svcDie turns depth st ≠ .aborted := by
  induction depth generalizing st with
  | zero => exact fun hne => (nomatch hne)
  | succ depth ih =>
      have hdie : ∀ st : Thread β π, Stuck id a st → svcDie turns depth st ≠ .aborted := fun _ hst => ih hst
      have hall : Survives (fun _ => False) (xprtDestroyAll (svcDie turns depth) turns st) := by
        refine (scan_survives hdie _ h).bind fun st₁ _ h₁ => ?_
        refine (scan_survives hdie _ h₁).bind fun st₂ _ h₂ => ?_
        exact lastScan_survives hdie h₂ (Nat.zero_le id)
      rw [svcDie]
      cases hrun : xprtDestroyAll (svcDie turns depth) turns st with
      | ok st' =>
          rw [hrun] at hall
          exact hall.elim
      | error stop =>
          rw [hrun] at hall
          exact hall

end Stuck

/-! ### Where `svc_die` is called -/

section Calls

variable {st : Thread β π} {P : Thread β π → Prop}

omit [IdSet β] in
theorem orDie_dying {α : Type} (h : P st) (r : Res α) :
    Dying P (fun v => r = .ok v) (orDie .svcDie st r) := by
  refine orDie_post (fun _ st' heq => ?_) fun _ _ heq => (nomatch heq)
  cases heq
  exact h

omit [IdSet β] in
/-- A read of the registry that cannot die. -/
theorem orDie_reads {α : Type} {r : Res α} (h : r ≠ .error .svcDie) :
    Dying P (fun v => r = .ok v) (orDie .svcDie st r) :=
  orDie_post (fun hdie => absurd hdie h) fun _ _ heq => (nomatch heq)

omit [IdSet β] in
theorem dying_here {α : Type} {Q : α → Prop} (h : P st) : Dying P Q (.error (.svcDie st) : Run β π α) := by
  intro st' heq
  cases heq
  exact h

def HoldsXports (st : Thread β π) : Prop := .xportsLock ∈ st.held

omit [IdSet β] in
theorem enterMaster_dying (h : HoldsXports st) (a : Addr) (sock : Nat) :
    Dying HoldsXports (fun _ => True) (enterMaster .svcDie st a sock) := by
  refine (orDie_dying h _).bind fun sxprt _ _ => ?_
  refine (orDie_dying h _).bind fun free _ _ => ?_
  split
  · split
    · trivial
    · exact fun _ heq => (nomatch heq)
  · exact dying_here h

omit [IdSet β] in
theorem enterXports_dying (h : HoldsXports st) (a : Addr) (x : Svcxprt π) (id : Nat) :
    Dying HoldsXports (fun _ => True) (enterXports .svcDie st a x id) := by
  unfold enterXports
  split
  · exact dying_here h
  · dsimp only
    split
    · apply enterMaster_dying
      exact h
    · refine Post.bind (orDie_dying ?_ _) fun reg _ _ => ?_
      · exact h
      · trivial

theorem xprtIdAlloc_dying (h : HoldsXports st) :
    Dying HoldsXports (fun r => HoldsXports r.2) (xprtIdAlloc .svcDie st) := by
  refine (orDie_dying h _).bind fun ⟨id, maxid⟩ _ _ => ?_
  dsimp only
  split
  · apply dying_here
    exact h
  · refine Post.bind (orDie_dying ?_ _) fun idset _ _ => ?_
    · exact h
    · exact h

theorem xprtRegister_dying (st : Thread β π) (a : Addr) :
    Dying HoldsXports (fun _ => True) (xprtRegister .svcDie st a) := by
  refine (lock_post st _ fun _ heq => (nomatch heq)).bind fun st₁ _ _ => ?_
  refine (lock_post st₁ _ fun _ heq => (nomatch heq)).bind fun st₂ _ hlocked => ?_
  have h : HoldsXports st₂ := by
    rw [hlocked.2]
    exact List.mem_cons_self
  refine (orDie_dying h _).bind fun x _ _ => ?_
  split
  · refine (xprtIdAlloc_dying h).bind fun r _ hr => ?_
    apply enterXports_dying
    exact hr
  · exact enterXports_dying h a x x.mtxpId

omit [IdSet β] in
theorem deref_ne_svcDie (s : Registry β π) (a : Addr) : s.deref a ≠ .error .svcDie := by
  unfold Registry.deref
  split <;> exact fun h => (nomatch h)

omit [IdSet β] in
theorem xportsAt_ne_svcDie (s : Registry β π) (id : Nat) : s.xportsAt id ≠ .error .svcDie := by
  unfold Registry.xportsAt
  split <;> exact fun h => (nomatch h)

omit [IdSet β] in
theorem derefPtr_ne_svcDie (s : Registry β π) (entry : XprtPtr) : s.derefPtr entry ≠ .error .svcDie := by
  cases entry with
  | null => exact fun h => (nomatch h)
  | bad => exact fun h => (nomatch h)
  | ref b =>
      intro h
      rcases bind_error h with hdie | ⟨_, _, hpure⟩
      · exact deref_ne_svcDie s b hdie
      · cases hpure

theorem unregisterId_dying (h : HoldsXports st) (id : Nat) :
    Dying HoldsXports (fun _ => True) (unregisterId .svcDie st id) := by
  unfold unregisterId
  split
  · exact dying_here h
  · refine Post.bind (orDie_dying ?_ _) fun idset _ _ => ?_
    · exact h
    · trivial

theorem xprtUnregisterWithLock_dying (h : HoldsXports st) (b : Addr) :
    Dying HoldsXports (fun _ => True) (xprtUnregisterWithLock .svcDie st b) := by
  refine (orDie_dying h _).bind fun y _ _ => ?_
  refine (orDie_dying h _).bind fun entry _ _ => ?_
  split
  · exact dying_here h
  · split
    · exact dying_here h
    · refine (orDie_dying h _).bind fun reg _ _ => ?_
      apply unregisterId_dying
      exact h

theorem svcDestroy_dying (st : Thread β π) (b : Addr) :
    Dying HoldsXports (fun _ => True) (svcDestroy .svcDie st b) := by
  refine (orDie_reads (deref_ne_svcDie st.reg b)).bind fun x _ _ => ?_
  have hbusy : Dying HoldsXports (fun _ => True) (beginDestroy st b x) := by
    unfold beginDestroy
    split
    · trivial
    · refine (lock_post st _ fun _ heq => (nomatch heq)).bind fun st' _ _ => ?_
      trivial
  refine hbusy.bind fun st₁ _ _ => ?_
  refine (lock_post st₁ _ fun _ heq => (nomatch heq)).bind fun st₂ _ _ => ?_
  refine (lock_post (st₂.unlock (.mtxpLock b)) _ fun _ heq => (nomatch heq)).bind fun st₃ _ hlocked => ?_
  have h : HoldsXports st₃ := by
    rw [hlocked.2]
    exact List.mem_cons_self
  refine (xprtUnregisterWithLock_dying h b).bind fun _ _ _ => ?_
  trivial

omit [IdSet β] in
/-- `fsck_busy` finds what is wrong with a transport when it holds its lock. -/
theorem fsckBusyTurn_dying (fdIsOpen : Nat → Bool) {i : Nat} (hvalid : st.reg.idIsValid i = true) :
    Dying (fun st' => ∃ id a, Stuck id a st') (fun _ => True) (fsckBusyTurn .svcDie fdIsOpen i st) := by
  refine (orDie_reads (xportsAt_ne_svcDie st.reg i)).bind fun entry _ hentry => ?_
  split
  · trivial
  · refine (orDie_reads (derefPtr_ne_svcDie st.reg entry)).bind fun ⟨b, x⟩ _ hb => ?_
    obtain ⟨rfl, hx⟩ := Registry.derefPtr_ok hb
    have hlive : (st.reg.heap b).isSome = true := by
      rw [hx]
      rfl
    refine (lock_post st _ fun _ heq => (nomatch heq)).bind fun st' _ hlocked => ?_
    rw [hlocked.2]
    split
    · exact dying_here
        ⟨i, b, of_decide_eq_true hvalid, (Registry.xportsAt_ok hentry).2, hlive, Or.inr List.mem_cons_self⟩
    · trivial

omit [IdSet β] in
theorem fsckBusy_dying (fdIsOpen : Nat → Bool) (turns i : Nat) (st : Thread β π) :
    Dying (fun st' => ∃ id a, Stuck id a st') (fun _ => True) (scan (fsckBusyTurn .svcDie fdIsOpen) turns i st) := by
  induction turns generalizing i st with
  | zero => exact fun _ heq => (nomatch heq)
  | succ turns ih =>
      rw [scan]
      split
      · rename_i hvalid
        exact (fsckBusyTurn_dying fdIsOpen hvalid).bind fun st' _ _ => ih ((i + 1) % sizeRange) st'
      · trivial

/-- At each of the calls, the thread holds what the shutdown will take. -/
theorem stuck_of_dies {call : Call} {st' : Thread β π} (hcall : call.Dies st st') (hlive : HasLive st'.reg) :
    ∃ id a, Stuck id a st' := by
  obtain ⟨id, a, hvalid, hentry, hlive⟩ := hlive
  have hstuck : HoldsXports st' → ∃ id a, Stuck id a st' := fun h => ⟨id, a, hvalid, hentry, hlive, Or.inl h⟩
  cases call with
  | xprtRegister b =>
      have hrun : xprtRegister .svcDie st b = .error (.svcDie st') := hcall
      have hdying := xprtRegister_dying st b
      rw [hrun] at hdying
      exact hstuck (hdying st' rfl)
  | svcDestroy b =>
      have hrun : svcDestroy .svcDie st b = .error (.svcDie st') := hcall
      have hdying := svcDestroy_dying st b
      rw [hrun] at hdying
      exact hstuck (hdying st' rfl)
  | fsckBusy fdIsOpen turns =>
      have hrun : scan (fsckBusyTurn .svcDie fdIsOpen) turns 0 st = .error (.svcDie st') := hcall
      have hdying := fsckBusy_dying fdIsOpen turns 0 st
      rw [hrun] at hdying
      exact hdying st' rfl

/-- From none of its calls does `svc_die` come to `abort()` while there is a live transport. -/
theorem svcDie_never_aborts {call : Call} {st' : Thread β π} (hcall : call.Dies st st') (hlive : HasLive st'.reg) :
    ¬ ∃ turns depth, svcDie turns depth st' = .aborted := by
  rintro ⟨turns, depth, habort⟩
  obtain ⟨id, a, hstuck⟩ := stuck_of_dies hcall hlive
  exact svcDie_ne_aborted turns depth hstuck habort

end Calls

end Shutdown

/-! ### A connection that was closed while it was being served -/

section BusyConn

open Registry

/-- One TCP connection, marked busy, on descriptor 3. -/
def busyConn : Thread ExactSet Unit :=
  match ((createXports 1024).store 0 (Svcxprt.newXprt 3 0 false () .idle)).xprtRegister 0 with
  | .ok s => ⟨{ s with heap := Function.update s.heap 0 ((s.heap 0).map fun x => x.setBusy 1) }, []⟩
  | .error _ => ⟨createXports 1024, []⟩

def noneOpen : Call := .fsckBusy (fun _ => false) 2

/-- `fsck_busy` finds the descriptor closed, and calls `svc_die` with the lock of the transport. -/
theorem noneOpen_dies : noneOpen.Dies busyConn { busyConn with held := [.mtxpLock 0] } := rfl

theorem busyConn_live : HasLive busyConn.reg := ⟨0, 0, Nat.le_refl 0, rfl, rfl⟩

theorem svcDie_never_aborts_busy :
    ¬ ∃ turns depth, svcDie turns depth { busyConn with held := [.mtxpLock 0] } = .aborted :=
  svcDie_never_aborts noneOpen_dies busyConn_live

/-- The shutdown waits for the lock that `fsck_busy` took. -/
example : svcDie 2 1 { busyConn with held := [.mtxpLock 0] } = .waits (.mtxpLock 0) := rfl

theorem svcDie_aborts_counterexample :
    ¬ ∀ (call : Call) (st st' : Thread ExactSet Unit), call.Dies st st' → HasLive st'.reg →
      ∃ turns depth, svcDie turns depth st' = .aborted := by
  intro haborts
  obtain ⟨turns, depth, habort⟩ := haborts noneOpen busyConn _ noneOpen_dies busyConn_live
  have hstuck : Stuck 0 0 { busyConn with held := [.mtxpLock 0] } :=
    ⟨Nat.le_refl 0, rfl, rfl, Or.inr List.mem_cons_self⟩
  exact svcDie_ne_aborted turns depth hstuck habort

end BusyConn

end SvcDie

end RpcMt
