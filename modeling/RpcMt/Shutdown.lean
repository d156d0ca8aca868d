import RpcMt.RegistryScans
import RpcMt.RegistryTables

/-! Shutdown: `xprt_destroy_all`, with nothing else running, on a registry that has been in use. It goes
over the table three times: for the clones, for the transports without a port, and for what is left. The
registry has seen any registrations, also on the socket of a transport that has finished and is not yet
destroyed, any clonings, and destructions of transports that have no clone. -/

open RpcMt.Runs

namespace RpcMt.Registry

variable {π : Type}

/-! ### A registry in use -/

/-- What happens to a registry: its own operations, and what others write to a transport. -/
inductive LifeOp (π : Type) where
  | reg (op : RegOp π)
  | touch (a : Addr) (x : Svcxprt π)

/-- The fields of a transport that only the registry writes. -/
def SameEntry (x y : Svcxprt π) : Prop :=
  x.mtxpId = y.mtxpId ∧ x.mtxpParent = y.mtxpParent ∧ x.xpSock = y.xpSock ∧ x.mtxpRefcnt = y.mtxpRefcnt

instance (x y : Svcxprt π) : Decidable (SameEntry x y) := by
  unfold SameEntry
  infer_instance

def lifeStep (s : Registry ExactSet π) : LifeOp π → Option (Registry ExactSet π)
  | .reg op => regStep s op
  | .touch a x => do
      let y ← s.heap a
      if SameEntry x y then some (s.store a x) else none

/-- The transport is a clone, or a master that no live clone has for a parent. -/
def Childless (s : Registry ExactSet π) (x : Svcxprt π) : Prop :=
  x.mtxpParent ≠ noParent ∨ s.liveClones x.mtxpId = ∅

/-- Every clone keeps its parent. -/
def ParentsStay (s : Registry ExactSet π) : LifeOp π → Prop
  | .reg (.unregister a) => ∀ x, s.heap a = some x → s.Childless x
  | _ => True

/-- What a shutdown relies on. A socket may have more than one master, of which the table holds one. -/
structure Orderly (s : Registry ExactSet π) : Prop extends Tables s, RefInv s where
  slots : ∀ id, s.xports id = .bad ∨ ∃ a, s.xports id = .ref a
  socks : ∀ sock, s.sockXports sock = .bad ∨ ∃ a, s.MasterOn a sock
  lt : ∀ a sock, s.MasterOn a sock → sock < s.xportsSize
  owned : ∀ slot sock, slot < s.maxPollfd → s.pollfd slot = some sock → ∃ a, s.MasterOn a sock
  counts : ∀ a x, s.heap a = some x → 0 ≤ x.mtxpRefcnt

variable {s t u : Registry ExactSet π} {a : Addr} {x : Svcxprt π}

/-- A registration that succeeds has found an id that was not taken. -/
theorem Tables.room (h : Tables s) (hid : x.mtxpId = xprtIdInvalid) (hreg : (s.store a x).xprtRegister a = .ok t) :
    s.xportsIdset.ids.card < s.xportsSize := by
  obtain ⟨id, s₁, halloc, _⟩ := xprtRegister_ok (Function.update_self ..) hid hreg
  obtain ⟨maxid, idset, hchoose, hlt, _⟩ := xprtIdAlloc_ok halloc
  obtain ⟨id', maxid', hchoose', hvacant, _⟩ := h.choose
  cases hchoose'.symm.trans hchoose
  have hsub : s.xportsIdset.ids ⊆ (Finset.range s.xportsSize).erase id := by
    intro i hi
    rw [Finset.mem_erase, Finset.mem_range]
    have hmax := h.maxid_lt hi
    exact ⟨fun heq => hvacant.1 (heq ▸ hi), by omega⟩
  calc s.xportsIdset.ids.card
    _ ≤ ((Finset.range s.xportsSize).erase id).card := Finset.card_le_card hsub
    _ < (Finset.range s.xportsSize).card := Finset.card_erase_lt_of_mem (Finset.mem_range.mpr hlt)
    _ = s.xportsSize := Finset.card_range _

/-- A registration that succeeds has found the least vacant id inside the table. -/
theorem Tables.registered (h : Tables s) (hid : x.mtxpId = xprtIdInvalid)
    (hreg : (s.store a x).xprtRegister a = .ok t) :
    ∃ id maxid, s.xportsIdset.Vacant id ∧ id < s.xportsSize ∧
      (if x.mtxpParent = noParent then (s.numbered a x id maxid).registerMaster a x.xpSock
        else (s.numbered a x id maxid).countParent x.mtxpParent 1) = .ok t := by
  obtain ⟨id, maxid, hvacant, hlt, heq⟩ := h.xprtRegister_eq a hid (h.room hid hreg)
  exact ⟨id, maxid, hvacant, hlt, heq.symm.trans hreg⟩

/-- `init_pollfd` fills one slot, among those in use or next to them. -/
theorem initPollfd_fills {fd : Nat} (h : s.initPollfd fd = .ok t) :
    ∃ slot maxPollfd, t = { s with pollfd := Function.update s.pollfd slot (some fd), maxPollfd := maxPollfd } ∧
      ∀ i, i < maxPollfd → i < s.maxPollfd ∨ i = slot := by
  unfold initPollfd at h
  split at h
  · cases h
    exact ⟨_, s.maxPollfd, rfl, fun i hi => Or.inl hi⟩
  · split at h
    · cases h
    · split at h
      · cases h
      · cases h
        exact ⟨_, _, rfl, fun i hi => by omega⟩

theorem registerMaster_fills {sock : Nat} (h : s.registerMaster a sock = .ok t) :
    sock < s.xportsSize ∧ ∃ slot maxPollfd, t = { s with
      sockXports := Function.update s.sockXports sock (.ref a)
      pollfd := Function.update s.pollfd slot (some sock)
      maxPollfd := maxPollfd } ∧ ∀ i, i < maxPollfd → i < s.maxPollfd ∨ i = slot := by
  obtain ⟨sxprt, hat, h⟩ := bind_ok h
  obtain ⟨free, _, h⟩ := bind_ok h
  have hlt : sock < s.xportsSize := by
    unfold sockXportsAt at hat
    split at hat
    · assumption
    · cases hat
  cases free with
  | false => cases h
  | true => exact ⟨hlt, initPollfd_fills h⟩

/-- A table of vacant slots and transports stays one. -/
theorem slots_update {table : Nat → XprtPtr} (h : ∀ id, table id = .bad ∨ ∃ a, table id = .ref a) (id : Nat)
    {entry : XprtPtr} (hentry : entry = .bad ∨ ∃ a, entry = .ref a) (i : Nat) :
    Function.update table id entry i = .bad ∨ ∃ a, Function.update table id entry i = .ref a := by
  by_cases hi : i = id
  · rw [hi, Function.update_self]
    exact hentry
  · rw [Function.update_of_ne hi]
    exact h i

/-! ### Writing to a transport -/

section Touch

variable {b : Addr} {y z : Svcxprt π}

theorem touch_before (hy : s.heap a = some y) (hsame : SameEntry x y) (hz : (s.store a x).heap b = some z) :
    ∃ z', s.heap b = some z' ∧ SameEntry z z' := by
  rcases update_eq_some hz with ⟨rfl, rfl⟩ | ⟨_, hz⟩
  · exact ⟨y, hy, hsame⟩
  · exact ⟨z, hz, rfl, rfl, rfl, rfl⟩

theorem touch_after (hy : s.heap a = some y) (hsame : SameEntry x y) (hz : s.heap b = some z) :
    ∃ z', (s.store a x).heap b = some z' ∧ SameEntry z' z := by
  by_cases hb : b = a
  · subst hb
    cases hy.symm.trans hz
    exact ⟨x, Function.update_self .., hsame⟩
  · exact ⟨z, (Function.update_of_ne hb ..).trans hz, rfl, rfl, rfl, rfl⟩

theorem liveClones_touch (hy : s.heap a = some y) (hsame : SameEntry x y) (id : Nat) :
    (s.store a x).liveClones id = s.liveClones id := by
  ext b
  constructor
  · rintro ⟨z, hz, hzp⟩
    obtain ⟨z', hz', hsame'⟩ := touch_before hy hsame hz
    exact ⟨z', hz', hsame'.2.1.symm.trans hzp⟩
  · rintro ⟨z', hz', hzp⟩
    obtain ⟨z, hz, hsame'⟩ := touch_after hy hsame hz'
    exact ⟨z, hz, hsame'.2.1.trans hzp⟩

theorem Tables.touch (h : Tables s) (hy : s.heap a = some y) (hsame : SameEntry x y) : Tables (s.store a x) := by
  refine ⟨h.size_le, h.sz, h.maxid, ?_, ?_, h.listed, h.le_maxid⟩
  · intro b z hz
    obtain ⟨z', hz', hsame'⟩ := touch_before hy hsame hz
    rw [hsame'.1]
    exact h.held b z' hz'
  · intro id b hb
    obtain ⟨z', hz', hzid⟩ := h.entry id b hb
    obtain ⟨z, hz, hsame'⟩ := touch_after hy hsame hz'
    exact ⟨z, hz, hsame'.1.trans hzid⟩

theorem RefInv.touch (h : RefInv s) (hy : s.heap a = some y) (hsame : SameEntry x y) : RefInv (s.store a x) := by
  refine ⟨?_, ?_⟩
  · intro b z hz hzp
    obtain ⟨z', hz', hsame'⟩ := touch_before hy hsame hz
    rw [hsame'.2.1] at hzp ⊢
    obtain ⟨p, px', hp, hpx', hpm⟩ := h.parent b z' hz' hzp
    obtain ⟨px, hpx, hparent⟩ := touch_after hy hsame hpx'
    exact ⟨p, px, hp, hpx, hparent.2.1.trans hpm⟩
  · intro b z hz hzm
    obtain ⟨z', hz', hsame'⟩ := touch_before hy hsame hz
    rw [hsame'.2.2.2, liveClones_touch hy hsame, hsame'.1]
    exact h.refcnt b z' hz' (hsame'.2.1.symm.trans hzm)

end Touch

namespace Orderly

/-- A new master has its socket and its slot; what the other masters have stays. -/
theorem register (h : Orderly s) (ha : s.heap a = none) (hid : x.mtxpId = xprtIdInvalid)
    (hmaster : x.mtxpParent = noParent) (hzero : x.mtxpRefcnt = 0)
    (hreg : (s.store a x).xprtRegister a = .ok t) : Orderly t := by
  obtain ⟨id, maxid, hvacant, hlt, hok⟩ := h.toTables.registered hid hreg
  rw [if_pos hmaster] at hok
  obtain ⟨hsock, slot, maxPollfd, ht, hslots⟩ := registerMaster_fills hok
  have hheap : t.heap = Function.update s.heap a (some { x with mtxpId := id }) := by rw [ht]; rfl
  have hxports : t.xports = Function.update s.xports id (.ref a) := by rw [ht]; rfl
  have hsocks : t.sockXports = Function.update s.sockXports x.xpSock (.ref a) := by rw [ht]; rfl
  have hpollfd : t.pollfd = Function.update s.pollfd slot (some x.xpSock) := by rw [ht]; rfl
  have hmax : t.maxPollfd = maxPollfd := by rw [ht]
  have hsize : t.xportsSize = s.xportsSize := by rw [ht]; rfl
  have hself : t.MasterOn a x.xpSock := by
    refine ⟨{ x with mtxpId := id }, ?_, hmaster, rfl⟩
    rw [hheap, Function.update_self]
  have hold : ∀ b sock, s.MasterOn b sock → t.MasterOn b sock := by
    rintro b sock ⟨y, hy, hyp⟩
    refine ⟨y, ?_, hyp⟩
    rw [hheap, Function.update_of_ne]
    · exact hy
    · rintro rfl
      cases ha.symm.trans hy
  have hnew : ∀ b y, t.heap b = some y → y = { x with mtxpId := id } ∨ s.heap b = some y := by
    intro b y hy
    rw [hheap] at hy
    rcases update_eq_some hy with ⟨_, heq⟩ | ⟨_, hy⟩
    · exact Or.inl heq
    · exact Or.inr hy
  refine ⟨h.toTables.register ha hid hreg,
    h.toRefInv.register h.toTables ha hvacant (h.lt_sizeMax hlt).ne hmaster hzero hheap hxports, ?_, ?_, ?_, ?_, ?_⟩
  · rw [hxports]
    exact slots_update h.slots id (Or.inr ⟨a, rfl⟩)
  · intro sock
    rw [hsocks]
    by_cases heq : sock = x.xpSock
    · rw [heq]
      exact Or.inr ⟨a, hself⟩
    · rw [Function.update_of_ne heq]
      exact (h.socks sock).imp_right fun ⟨b, hb⟩ => ⟨b, hold b sock hb⟩
  · rintro b sock ⟨y, hy, hyp, rfl⟩
    rw [hsize]
    rcases hnew b y hy with rfl | hy
    · exact hsock
    · exact h.lt b _ ⟨y, hy, hyp, rfl⟩
  · intro i sock hi hfilled
    rw [hmax] at hi
    rw [hpollfd] at hfilled
    by_cases heq : i = slot
    · rw [heq, Function.update_self] at hfilled
      cases hfilled
      exact ⟨a, hself⟩
    · rw [Function.update_of_ne heq] at hfilled
      obtain ⟨b, hb⟩ := h.owned i sock ((hslots i hi).resolve_right heq) hfilled
      exact ⟨b, hold b sock hb⟩
  · intro b y hy
    rcases hnew b y hy with rfl | hy
    · exact hzero.ge
    · exact h.counts b y hy

/-- Sockets and slots are as they should be where the masters and their tables are the same. -/
theorem congr (h : Orderly s) (htab : Tables t) (href : RefInv t) (hslots : ∀ id, t.xports id = .bad ∨ ∃ a, t.xports id = .ref a)
    (hon : ∀ a sock, t.MasterOn a sock ↔ s.MasterOn a sock) (hsocks : t.sockXports = s.sockXports)
    (hsize : t.xportsSize = s.xportsSize) (hpollfd : t.pollfd = s.pollfd) (hmax : t.maxPollfd = s.maxPollfd)
    (hcounts : ∀ a x, t.heap a = some x → 0 ≤ x.mtxpRefcnt) : Orderly t := by
  refine ⟨htab, href, hslots, ?_, ?_, ?_, hcounts⟩
  · intro sock
    rw [hsocks]
    simp only [hon]
    exact h.socks sock
  · intro a sock
    rw [hon, hsize]
    exact h.lt a sock
  · intro slot sock
    rw [hmax, hpollfd]
    simp only [hon]
    exact h.owned slot sock

/-- A clone counts on its parent and touches no socket. -/
theorem clone {p : Addr} {px : Svcxprt π} (h : Orderly s) (ha : s.heap a = none) (hid : x.mtxpId = xprtIdInvalid)
    (hp : s.heap p = some px) (hmaster : px.mtxpParent = noParent) (hparent : x.mtxpParent = px.mtxpId)
    (hzero : x.mtxpRefcnt = 0) (hreg : (s.store a x).xprtRegister a = .ok t) : Orderly t := by
  have hpa : p ≠ a := by
    rintro rfl
    cases ha.symm.trans hp
  have hclone : x.mtxpParent ≠ noParent := by
    rw [hparent]
    exact (h.lt_sizeMax (h.id_lt hp)).ne
  obtain ⟨id, maxid, hvacant, hlt, hok⟩ := h.toTables.registered hid hreg
  have hne : px.mtxpId ≠ id := fun heq => hvacant.1 (heq ▸ h.mem hp)
  have hslot : (s.numbered a x id maxid).xports px.mtxpId = .ref p :=
    (Function.update_of_ne hne ..).trans (h.held p px hp)
  have hpx : (s.numbered a x id maxid).heap p = some px := (Function.update_of_ne hpa ..).trans hp
  have hplt : px.mtxpId < (s.numbered a x id maxid).xportsSize := h.id_lt hp
  rw [if_neg hclone, hparent, countParent_of 1 hplt hslot hpx] at hok
  have ht := (Except.ok.inj hok).symm
  have hheap : t.heap = Function.update (Function.update s.heap a (some { x with mtxpId := id })) p
      (some { px with mtxpRefcnt := px.mtxpRefcnt + 1 }) := by rw [ht]; rfl
  have hxports : t.xports = Function.update s.xports id (.ref a) := by rw [ht]; rfl
  refine h.congr (h.toTables.register ha hid hreg)
    (h.toRefInv.clone h.toTables ha hvacant hp hmaster hparent hheap hxports) ?_ ?_ (by rw [ht]; rfl)
    (by rw [ht]; rfl) (by rw [ht]; rfl) (by rw [ht]; rfl) ?_
  · rw [hxports]
    exact slots_update h.slots id (Or.inr ⟨a, rfl⟩)
  · intro b sock
    unfold MasterOn
    rw [hheap]
    by_cases hbp : b = p
    · rw [hbp, Function.update_self, hp]
      simp
    · rw [Function.update_of_ne hbp]
      by_cases hba : b = a
      · rw [hba, Function.update_self, ha]
        simp [hclone]
      · rw [Function.update_of_ne hba]
  · intro b y hy
    rw [hheap] at hy
    rcases update_eq_some hy with ⟨_, rfl⟩ | ⟨_, hy⟩
    · have hpos := h.counts p px hp
      show 0 ≤ px.mtxpRefcnt + 1
      omega
    · rcases update_eq_some hy with ⟨_, rfl⟩ | ⟨_, hy⟩
      · exact hzero.ge
      · exact h.counts b y hy

/-- With a master goes its socket from the table and from every slot. -/
theorem destroyMaster (h : Orderly s) (hx : s.heap a = some x) (hmaster : x.mtxpParent = noParent)
    (hnone : s.liveClones x.mtxpId = ∅) : ∃ t, s.svcDestroy a = .ok t ∧ Orderly t := by
  have hon : s.MasterOn a x.xpSock := ⟨x, hx, hmaster, rfl⟩
  have hrel : s.releaseSocket x = .ok { s.pollfdRemove x.xpSock with
      sockXports := Function.update s.sockXports x.xpSock .bad } := by
    rw [releaseSocket, if_pos hmaster, if_pos (h.lt a _ hon)]
  have hdes := h.svcDestroy_eq hx hrel rfl rfl
  obtain ⟨t, hok⟩ : ∃ t, s.svcDestroy a = .ok t := ⟨_, hdes⟩
  have ht := Except.ok.inj (hok.symm.trans hdes)
  obtain ⟨x', hx', hd⟩ := svcDestroy_ok hok
  cases hx.symm.trans hx'
  have hheap : t.heap = Function.update s.heap a none := by rw [ht]; rfl
  have hxports : t.xports = Function.update s.xports x.mtxpId .bad := by rw [ht]; rfl
  have hsocks : t.sockXports = Function.update s.sockXports x.xpSock .bad := by rw [ht]
  have hpollfd : t.pollfd = (s.pollfdRemove x.xpSock).pollfd := by rw [ht]
  have hmax : t.maxPollfd = s.maxPollfd := by rw [ht]; rfl
  have hsize : t.xportsSize = s.xportsSize := hd.size
  have hlive : ∀ b y, t.heap b = some y → b ≠ a ∧ s.heap b = some y := by
    intro b y hy
    rw [hheap] at hy
    exact update_none_eq_some hy
  have hother : ∀ b sock, s.MasterOn b sock → sock ≠ x.xpSock → t.MasterOn b sock := by
    rintro b sock ⟨y, hy, hyp, hys⟩ hne
    refine ⟨y, ?_, hyp, hys⟩
    rw [hheap, Function.update_of_ne]
    · exact hy
    · rintro rfl
      cases hx.symm.trans hy
      exact hne hys.symm
  refine ⟨t, hok, h.toTables.destroyed hx hd,
    h.toRefInv.destroyMaster h.toTables hx hmaster hnone hheap hxports, ?_, ?_, ?_, ?_, ?_⟩
  · rw [hxports]
    exact slots_update h.slots x.mtxpId (Or.inl rfl)
  · intro sock
    rw [hsocks]
    by_cases heq : sock = x.xpSock
    · rw [heq, Function.update_self]
      exact Or.inl rfl
    · rw [Function.update_of_ne heq]
      refine (h.socks sock).imp_right ?_
      rintro ⟨b, hb⟩
      exact ⟨b, hother b sock hb heq⟩
  · rintro b sock ⟨y, hy, hyp⟩
    rw [hsize]
    exact h.lt b sock ⟨y, (hlive b y hy).2, hyp⟩
  · intro slot sock hslot hfilled
    rw [hmax] at hslot
    rw [hpollfd, pollfdRemove] at hfilled
    dsimp only at hfilled
    split at hfilled
    · cases hfilled
    · rename_i hkept
      obtain ⟨b, hb⟩ := h.owned slot sock hslot hfilled
      refine ⟨b, hother b sock hb ?_⟩
      rintro rfl
      exact hkept ⟨hslot, hfilled⟩
  · exact fun b y hy => h.counts b y (hlive b y hy).2

/-- With a clone goes one of the references to its parent, which had it. -/
theorem destroyClone (h : Orderly s) (hx : s.heap a = some x) (hclone : x.mtxpParent ≠ noParent) :
    ∃ t, s.svcDestroy a = .ok t ∧ Orderly t := by
  obtain ⟨p, px, hp, hpx, hpm⟩ := h.parent a x hx hclone
  obtain ⟨px', hpx', hpid⟩ := h.entry _ _ hp
  cases hpx.symm.trans hpx'
  have hrel : s.releaseSocket x = .ok (s.store p { px with mtxpRefcnt := px.mtxpRefcnt + -1 }) := by
    rw [releaseSocket, if_neg hclone, countParent_of (-1) (hpid ▸ h.id_lt hpx) hp hpx]
  have hdes := h.svcDestroy_eq hx hrel rfl rfl
  obtain ⟨t, hok⟩ : ∃ t, s.svcDestroy a = .ok t := ⟨_, hdes⟩
  have ht := Except.ok.inj (hok.symm.trans hdes)
  obtain ⟨x', hx', hd⟩ := svcDestroy_ok hok
  cases hx.symm.trans hx'
  have hheap : t.heap = Function.update
      (Function.update s.heap p (some { px with mtxpRefcnt := px.mtxpRefcnt + -1 })) a none := by rw [ht]; rfl
  have hxports : t.xports = Function.update s.xports x.mtxpId .bad := by rw [ht]; rfl
  have href := h.toRefInv.destroyClone h.toTables hx hclone hpx hpm hpid.symm hheap hxports
  have hcount : 0 < px.mtxpRefcnt := by
    obtain ⟨n, hn, hcard⟩ := h.refcnt p px hpx hpm
    have hin : a ∈ s.liveClones px.mtxpId := ⟨x, hx, hpid.symm⟩
    have hpos : 0 < n := by
      apply Nat.pos_of_ne_zero
      rintro rfl
      rw [Set.encard_eq_zero.mp hcard] at hin
      exact hin
    omega
  refine ⟨t, hok, h.congr (h.toTables.destroyed hx hd) href ?_ ?_ (by rw [ht]; rfl) hd.size
    (by rw [ht]; rfl) (by rw [ht]; rfl) ?_⟩
  · rw [hxports]
    exact slots_update h.slots x.mtxpId (Or.inl rfl)
  · intro b sock
    unfold MasterOn
    rw [hheap]
    by_cases hba : b = a
    · rw [hba, Function.update_self, hx]
      simp [hclone]
    · rw [Function.update_of_ne hba]
      by_cases hbp : b = p
      · rw [hbp, Function.update_self, hpx]
        simp
      · rw [Function.update_of_ne hbp]
  · intro b y hy
    rw [hheap] at hy
    obtain ⟨_, hy⟩ := update_none_eq_some hy
    rcases update_eq_some hy with ⟨_, rfl⟩ | ⟨_, hy⟩
    · show 0 ≤ px.mtxpRefcnt + -1
      omega
    · exact h.counts b y hy

/-- A transport that is nobody's parent can be destroyed. -/
theorem destroy (h : Orderly s) (hx : s.heap a = some x) (hfree : s.Childless x) :
    ∃ t, s.svcDestroy a = .ok t ∧ Orderly t := by
  by_cases hmaster : x.mtxpParent = noParent
  · exact h.destroyMaster hx hmaster (hfree.resolve_left (not_not_intro hmaster))
  · exact h.destroyClone hx hmaster

/-- What others write to a transport is nothing that a shutdown relies on. -/
theorem touch {y : Svcxprt π} (h : Orderly s) (hy : s.heap a = some y) (hsame : SameEntry x y) :
    Orderly (s.store a x) := by
  refine h.congr (h.toTables.touch hy hsame) (h.toRefInv.touch hy hsame) h.slots ?_ rfl rfl rfl rfl ?_
  · intro b sock
    constructor
    · rintro ⟨z, hz, hzm, hzs⟩
      obtain ⟨z', hz', hsame'⟩ := touch_before hy hsame hz
      exact ⟨z', hz', hsame'.2.1.symm.trans hzm, hsame'.2.2.1.symm.trans hzs⟩
    · rintro ⟨z', hz', hzm, hzs⟩
      obtain ⟨z, hz, hsame'⟩ := touch_after hy hsame hz'
      exact ⟨z, hz, hsame'.2.1.trans hzm, hsame'.2.2.1.trans hzs⟩
  · intro b z hz
    obtain ⟨z', hz', hsame'⟩ := touch_before hy hsame hz
    rw [hsame'.2.2.2]
    exact h.counts b z' hz'

end Orderly

theorem orderly_createXports (dtablesize : Nat) : Orderly (createXports dtablesize : Registry ExactSet π) := by
  have hreg := regInv_createXports (π := π) dtablesize
  refine ⟨hreg.toTables, hreg.toRefInv, fun _ => Or.inl rfl, fun _ => Or.inl rfl, hreg.lt, hreg.owned, ?_⟩
  intro a x hx
  cases hx

theorem orderly_lifeStep {op : LifeOp π} (h : Orderly s) (hok : s.ParentsStay op) (hst : s.lifeStep op = some t) :
    Orderly t := by
  cases op with
  | touch a x =>
      obtain ⟨y, hy, hst⟩ := Option.bind_eq_some_iff.mp hst
      split at hst
      · rename_i hsame
        cases hst
        exact h.touch hy hsame
      · cases hst
  | reg op =>
      have hposs : op.possible s = true ∧ regOp s op = .ok t := by
        simp only [lifeStep, regStep] at hst
        split at hst
        · rename_i hposs
          exact ⟨hposs, toOption_ok hst⟩
        · cases hst
      obtain ⟨hposs, hrun⟩ := hposs
      cases op with
      | register a sock port isClone priv stat =>
          exact h.register (Option.isNone_iff_eq_none.mp hposs) rfl rfl rfl hrun
      | clone p a priv =>
          obtain ⟨px, hpx, hrun⟩ := bind_ok hrun
          have hp := deref_ok hpx
          obtain ⟨ha, hlive⟩ := Bool.and_eq_true_iff.mp hposs
          rw [hp] at hlive
          have hmaster : px.mtxpParent = noParent := beq_iff_eq.mp (Bool.and_eq_true_iff.mp hlive).2
          exact h.clone (x := px.cloneXprt priv) (Option.isNone_iff_eq_none.mp ha) rfl hp hmaster rfl rfl hrun
      | unregister a =>
          obtain ⟨x, hx, _⟩ := svcDestroy_ok hrun
          obtain ⟨t', ht', horderly⟩ := h.destroy hx (hok x hx)
          cases ht'.symm.trans hrun
          exact horderly

/-! ### A sequence of destructions -/

/-- The registry `u` comes from `s` by destroying transports one after the other; the log has them, the
last first, each with the registry it was destroyed in. -/
inductive Destroys (s : Registry ExactSet π) : List (Registry ExactSet π × Addr) → Registry ExactSet π → Prop
  | nil : Destroys s [] s
  | next {log : List (Registry ExactSet π × Addr)} {u v : Registry ExactSet π} {a : Addr} {x : Svcxprt π}
      (h : Destroys s log u) (hx : u.heap a = some x) (hfree : u.Childless x) (hdes : u.svcDestroy a = .ok v) :
      Destroys s ((u, a) :: log) v

namespace Destroys

variable {log : List (Registry ExactSet π × Addr)}

theorem orderly (h : Destroys s log u) (hs : Orderly s) : Orderly u := by
  induction h with
  | nil => exact hs
  | next _ hx hfree hdes ih =>
      obtain ⟨v', hv', horderly⟩ := ih.destroy hx hfree
      cases hv'.symm.trans hdes
      exact horderly

theorem maxid (h : Destroys s log u) : u.xportsMaxid = s.xportsMaxid ∧ u.xportsSize = s.xportsSize := by
  induction h with
  | nil => exact ⟨rfl, rfl⟩
  | next _ hx _ hdes ih =>
      obtain ⟨_, _, hd⟩ := svcDestroy_ok hdes
      exact ⟨hd.maxid.trans ih.1, hd.size.trans ih.2⟩

/-- What is left is what was there, less the transports in the log, but for the reference counts. -/
theorem left (h : Destroys s log u) (b : Addr) :
    (u.heap b).map Svcxprt.core = if b ∈ log.map Prod.snd then none else (s.heap b).map Svcxprt.core := by
  induction h with
  | nil => exact (if_neg List.not_mem_nil).symm
  | @next log u v a x _ hx hfree hdes ih =>
      obtain ⟨x', hx', hd⟩ := svcDestroy_ok hdes
      rw [List.map_cons]
      by_cases hb : b = a
      · rw [hb, hd.gone, if_pos List.mem_cons_self]
        rfl
      · rw [hd.core hb, ih]
        simp only [List.mem_cons, hb, false_or]

theorem live_iff (h : Destroys s log u) (b : Addr) :
    (u.heap b).isSome = true ↔ (s.heap b).isSome = true ∧ b ∉ log.map Prod.snd := by
  have hleft := congrArg Option.isSome (h.left b)
  rw [Option.isSome_map] at hleft
  rw [hleft]
  by_cases hb : b ∈ log.map Prod.snd
  · rw [if_pos hb]
    exact iff_of_false Bool.false_ne_true fun hlive => hlive.2 hb
  · rw [if_neg hb, Option.isSome_map]
    exact (and_iff_left hb).symm

theorem nodup (h : Destroys s log u) : (log.map Prod.snd).Nodup := by
  induction h with
  | nil => exact List.nodup_nil
  | @next log u v a x hpre hx _ _ ih =>
      rw [List.map_cons, List.nodup_cons]
      refine ⟨?_, ih⟩
      have hlive := (hpre.live_iff a).mp (by rw [hx]; rfl)
      exact hlive.2

theorem was_live (h : Destroys s log u) {b : Addr} (hb : b ∈ log.map Prod.snd) : (s.heap b).isSome = true := by
  induction h with
  | nil => cases hb
  | @next log u v a x hpre hx _ _ ih =>
      rcases List.mem_cons.mp hb with rfl | hb
      · exact ((hpre.live_iff b).mp (by rw [hx]; rfl)).1
      · exact ih hb

/-- What is logged was reached by the destructions behind it in the log. -/
theorem at_split (h : Destroys s log t) {later before : List (Registry ExactSet π × Addr)}
    (hlog : log = later ++ (u, a) :: before) :
    Destroys s before u ∧ ∃ x, u.heap a = some x ∧ u.Childless x := by
  induction h generalizing later with
  | nil =>
      cases later with
      | nil => cases hlog
      | cons _ _ => cases hlog
  | @next log u' v a' x hpre hx hfree _ ih =>
      cases later with
      | nil =>
          cases hlog
          exact ⟨hpre, x, hx, hfree⟩
      | cons d later =>
          exact ih (List.cons.inj hlog).2

/-- A clone is destroyed before its parent. -/
theorem clone_first (h : Destroys s log t) {later before : List (Registry ExactSet π × Addr)}
    {c : Addr} {m mc : Svcxprt π} (hlog : log = later ++ (u, a) :: before) (hm : s.heap a = some m)
    (hmaster : m.mtxpParent = noParent) (hc : s.heap c = some mc) (hparent : mc.mtxpParent = m.mtxpId) :
    c ∈ before.map Prod.snd := by
  obtain ⟨hpre, x, hx, hfree⟩ := h.at_split hlog
  by_contra hlater
  have hcore : ∀ b y, s.heap b = some y → b ∉ before.map Prod.snd → ∃ z, u.heap b = some z ∧ z.core = y.core := by
    intro b y hy hb
    have hleft := hpre.left b
    rw [if_neg hb, hy] at hleft
    exact Option.map_eq_some_iff.mp hleft
  have hself := ((hpre.live_iff a).mp (by rw [hx]; rfl)).2
  obtain ⟨x', hx', hxcore⟩ := hcore a m hm hself
  cases hx.symm.trans hx'
  obtain ⟨y, hy, hycore⟩ := hcore c mc hc hlater
  have hxid : x.mtxpId = m.mtxpId := Svcxprt.mtxpId_of_core hxcore
  have hxparent : x.core.mtxpParent = m.core.mtxpParent := by rw [hxcore]
  have hyparent : y.core.mtxpParent = mc.core.mtxpParent := by rw [hycore]
  rcases hfree with hclone | hnone
  · exact hclone (hxparent.trans hmaster)
  · have hin : c ∈ u.liveClones x.mtxpId := ⟨y, hy, (hyparent.trans hparent).trans hxid.symm⟩
    rw [hnone] at hin
    exact hin

end Destroys

end RpcMt.Registry
