import RpcMt.ExactIds

/-! What `check_xports` checks, and the rest of what the registry keeps twice: the sockets, the poll
slots, the reference counts and the number of transports, over every history of registrations,
clonings and destructions. A master is destroyed only when it has no clone left. The limit check of
`init_pollfd` is off by one; the slots suffice because each holds the socket of another live master. -/

open RpcMt.Runs

namespace RpcMt.Registry

variable {π : Type}

/-- The transport at `a` is live and owns the socket `sock`. -/
def MasterOn (s : Registry ExactSet π) (a : Addr) (sock : Nat) : Prop :=
  ∃ x, s.heap a = some x ∧ x.mtxpParent = noParent ∧ x.xpSock = sock

def liveXprts (s : Registry ExactSet π) : Set Addr := { a | (s.heap a).isSome }

/-- The live transports whose parent is the one with this id. -/
def liveClones (s : Registry ExactSet π) (id : Nat) : Set Addr :=
  { a | ∃ x, s.heap a = some x ∧ x.mtxpParent = id }

/-- The tables of `svc.c` agree with each other and with the transports on the heap. -/
structure Consistent (s : Registry ExactSet π) : Prop where
  ids : ∀ id, (∃ a x, s.xports id = .ref a ∧ s.heap a = some x ∧ x.mtxpId = id) ↔
    id ∈ s.xportsIdset.ids
  found : ∀ a x, s.heap a = some x → s.xports x.mtxpId = .ref a
  maxid : ∀ id, id ∈ s.xportsIdset.ids → id ≤ s.xportsMaxid ∧ s.xportsMaxid < s.xportsSize
  count : s.liveXprts.encard = s.xportsCount
  refcnt : ∀ a x, s.heap a = some x → x.mtxpParent = noParent →
    ∃ n : Nat, x.mtxpRefcnt = n ∧ (s.liveClones x.mtxpId).encard = n
  sock : ∀ sock a, s.sockXports sock = .ref a ↔ s.MasterOn a sock
  pollfd : ∀ a sock, s.MasterOn a sock → ∃! slot, slot < s.maxPollfd ∧ s.pollfd slot = some sock
  empty : ∀ slot, slot < s.maxPollfd →
    s.pollfd slot = none ∨ ∃ a sock, s.MasterOn a sock ∧ s.pollfd slot = some sock
  maxPollfd : s.maxPollfd ≤ s.pollfdSize

/-- What the callers of the registry keep to: a master is registered on a socket that is in range and
vacant, there are never more transports than ids, and no master is destroyed before its clones. -/
def Allowed (s : Registry ExactSet π) : RegOp π → Prop
  | .register _ sock _ _ _ _ => sock < s.xportsSize ∧
      (s.sockXports sock = .null ∨ s.sockXports sock = .bad) ∧ s.liveXprts.encard < s.xportsSize
  | .clone _ _ _ => s.liveXprts.encard < s.xportsSize
  | .unregister a => ∀ x, s.heap a = some x →
      x.mtxpParent ≠ noParent ∨ s.liveClones x.mtxpId = ∅

/-! ### Sockets and poll slots -/

structure SockInv (s : Registry ExactSet π) : Prop where
  sock : ∀ sock a, s.sockXports sock = .ref a ↔ s.MasterOn a sock
  lt : ∀ a sock, s.MasterOn a sock → sock < s.xportsSize
  size : s.pollfdSize = s.xportsSize
  maxPollfd : s.maxPollfd ≤ s.pollfdSize
  filled : ∀ a sock, s.MasterOn a sock → ∃! slot, slot < s.maxPollfd ∧ s.pollfd slot = some sock
  owned : ∀ slot sock, slot < s.maxPollfd → s.pollfd slot = some sock → ∃ a, s.MasterOn a sock

namespace SockInv

variable {s t : Registry ExactSet π} {a : Addr} {sock : Nat}

theorem not_masterOn (h : SockInv s) (hvacant : s.sockXports sock = .null ∨ s.sockXports sock = .bad)
    (a : Addr) : ¬s.MasterOn a sock := by
  intro hon
  rw [(h.sock sock a).mpr hon] at hvacant
  rcases hvacant with h | h <;> cases h

/-- If every slot is taken, then by sockets that are distinct and differ from the vacant one. -/
theorem room (h : SockInv s) (hlt : sock < s.xportsSize) (hvacant : ∀ a, ¬s.MasterOn a sock)
    (hfull : ∀ slot, slot < s.maxPollfd → s.pollfd slot ≠ none) : s.maxPollfd < s.pollfdSize := by
  have hval : ∀ slot, slot < s.maxPollfd → ∃ k, s.pollfd slot = some k := fun slot hslot =>
    Option.ne_none_iff_exists'.mp (hfull slot hslot)
  have hmaps : Set.MapsTo (fun slot => (s.pollfd slot).getD 0) (Finset.range s.maxPollfd : Set Nat)
      ((Finset.range s.xportsSize).erase sock : Set Nat) := by
    intro slot hslot
    rw [Finset.coe_range, Set.mem_Iio] at hslot
    obtain ⟨k, hk⟩ := hval slot hslot
    obtain ⟨a, ha⟩ := h.owned slot k hslot hk
    show (s.pollfd slot).getD 0 ∈ ((Finset.range s.xportsSize).erase sock : Set Nat)
    rw [hk, Finset.mem_coe, Finset.mem_erase, Finset.mem_range]
    refine ⟨?_, h.lt a k ha⟩
    rintro rfl
    exact hvacant a ha
  have hinj : Set.InjOn (fun slot => (s.pollfd slot).getD 0) (Finset.range s.maxPollfd : Set Nat) := by
    intro i hi j hj heq
    rw [Finset.coe_range, Set.mem_Iio] at hi hj
    obtain ⟨k, hk⟩ := hval i hi
    obtain ⟨k', hk'⟩ := hval j hj
    have hkk : k = k' := by simpa [hk, hk'] using heq
    subst hkk
    obtain ⟨a, ha⟩ := h.owned i k hi hk
    exact (h.filled a k ha).unique ⟨hi, hk⟩ ⟨hj, hk'⟩
  have hcard := Finset.card_le_card_of_injOn _ hmaps hinj
  rw [Finset.card_range, Finset.card_erase_of_mem (Finset.mem_range.mpr hlt), Finset.card_range] at hcard
  have := h.size
  omega

/-- `init_pollfd` takes an empty slot, or the first one past the last. -/
theorem initPollfd_of {s : Registry ExactSet π} {fd : Nat} (hmax : s.maxPollfd ≤ s.pollfdSize)
    (hroom : (∀ slot, slot < s.maxPollfd → s.pollfd slot ≠ none) → s.maxPollfd < s.pollfdSize) :
    ∃ slot maxPollfd, (slot < s.maxPollfd ∧ s.pollfd slot = none ∧ maxPollfd = s.maxPollfd ∨
        slot = s.maxPollfd ∧ maxPollfd = s.maxPollfd + 1) ∧ maxPollfd ≤ s.pollfdSize ∧
      s.initPollfd fd = .ok { s with
        pollfd := Function.update s.pollfd slot (some fd)
        maxPollfd := maxPollfd } := by
  unfold initPollfd
  split
  · rename_i slot hfind
    have hslot := List.mem_range.mp (List.mem_of_find?_eq_some hfind)
    have hisNone : (s.pollfd slot).isNone = true :=
      @List.find?_some _ (fun slot => (s.pollfd slot).isNone) _ _ hfind
    have hnone := Option.isNone_iff_eq_none.mp hisNone
    exact ⟨slot, s.maxPollfd, Or.inl ⟨hslot, hnone, rfl⟩, hmax, rfl⟩
  · rename_i hfind
    have hfull : ∀ slot, slot < s.maxPollfd → s.pollfd slot ≠ none := by
      intro slot hslot hnone
      have := List.find?_eq_none.mp hfind slot (List.mem_range.mpr hslot)
      rw [hnone] at this
      exact this rfl
    have hlt := hroom hfull
    refine ⟨s.maxPollfd, s.maxPollfd + 1, Or.inr ⟨rfl, rfl⟩, hlt, ?_⟩
    rw [if_neg (by omega), if_neg (by omega)]

/-- Nothing about the sockets changes where masters and slots are the same. -/
theorem congr (h : SockInv s) (hon : ∀ a sock, t.MasterOn a sock ↔ s.MasterOn a sock)
    (hsock : t.sockXports = s.sockXports) (hsize : t.xportsSize = s.xportsSize)
    (hpoll : t.pollfd = s.pollfd) (hpsize : t.pollfdSize = s.pollfdSize)
    (hmax : t.maxPollfd = s.maxPollfd) : SockInv t := by
  refine ⟨?_, ?_, ?_, ?_, ?_, ?_⟩
  · intro sock a
    rw [hsock, hon]
    exact h.sock sock a
  · intro a sock
    rw [hon, hsize]
    exact h.lt a sock
  · rw [hpsize, hsize]
    exact h.size
  · rw [hmax, hpsize]
    exact h.maxPollfd
  · intro a sock
    rw [hon, hmax, hpoll]
    exact h.filled a sock
  · intro slot sock
    rw [hmax, hpoll]
    simp only [hon]
    exact h.owned slot sock

/-- A new master takes its socket and one slot that was empty or new. -/
theorem register (h : SockInv s) {slot : Nat} (hlt : sock < s.xportsSize)
    (hvacant : ∀ a, ¬s.MasterOn a sock)
    (hon : ∀ b k, t.MasterOn b k ↔ (b = a ∧ k = sock) ∨ s.MasterOn b k)
    (hsock : t.sockXports = Function.update s.sockXports sock (.ref a))
    (hsize : t.xportsSize = s.xportsSize) (hpsize : t.pollfdSize = s.pollfdSize)
    (hpoll : t.pollfd = Function.update s.pollfd slot (some sock))
    (hslot : slot < s.maxPollfd ∧ s.pollfd slot = none ∧ t.maxPollfd = s.maxPollfd ∨
      slot = s.maxPollfd ∧ t.maxPollfd = s.maxPollfd + 1)
    (hmax : t.maxPollfd ≤ s.pollfdSize) : SockInv t := by
  have hlt' : slot < t.maxPollfd := by omega
  -- Any other slot below the new limit was there before.
  have hother : ∀ i, i < t.maxPollfd → i ≠ slot → i < s.maxPollfd := by
    intro i hi hne
    omega
  have hgrow : s.maxPollfd ≤ t.maxPollfd := by omega
  -- A slot that held a socket is not the one taken.
  have hkept : ∀ i k, i < s.maxPollfd → s.pollfd i = some k → i ≠ slot := by
    rintro i k hi hk rfl
    rcases hslot with ⟨_, hnone, _⟩ | ⟨heq, _⟩
    · rw [hnone] at hk
      cases hk
    · omega
  refine ⟨?_, ?_, ?_, ?_, ?_, ?_⟩
  · intro k b
    rw [hsock, hon]
    by_cases hk : k = sock
    · subst hk
      rw [Function.update_self, or_iff_left (hvacant b)]
      exact ⟨fun heq => ⟨(XprtPtr.ref.inj heq).symm, rfl⟩, fun heq => by rw [heq.1]⟩
    · rw [Function.update_of_ne hk, h.sock, or_iff_right (fun heq => hk heq.2)]
  · intro b k hb
    rw [hsize]
    rcases (hon b k).mp hb with ⟨_, rfl⟩ | hb
    · exact hlt
    · exact h.lt b k hb
  · rw [hpsize, hsize]
    exact h.size
  · rw [hpsize]
    exact hmax
  · intro b k hb
    rw [hpoll]
    rcases (hon b k).mp hb with ⟨_, rfl⟩ | hb
    · refine ⟨slot, ⟨hlt', Function.update_self ..⟩, ?_⟩
      rintro i ⟨hi, hik⟩
      by_contra hne
      rw [Function.update_of_ne hne] at hik
      obtain ⟨c, hc⟩ := h.owned i k (hother i hi hne) hik
      exact hvacant c hc
    · obtain ⟨i, ⟨hi, hik⟩, huniq⟩ := h.filled b k hb
      refine ⟨i, ⟨by omega, ?_⟩, ?_⟩
      · show Function.update s.pollfd slot (some sock) i = some k
        rw [Function.update_of_ne (hkept i k hi hik)]
        exact hik
      · rintro j ⟨hj, hjk⟩
        by_cases hjs : j = slot
        · subst hjs
          rw [Function.update_self] at hjk
          cases hjk
          exact absurd hb (hvacant b)
        · rw [Function.update_of_ne hjs] at hjk
          exact huniq j ⟨hother j hj hjs, hjk⟩
  · intro i k hi hik
    rw [hpoll] at hik
    by_cases his : i = slot
    · subst his
      rw [Function.update_self] at hik
      cases hik
      exact ⟨a, (hon a sock).mpr (Or.inl ⟨rfl, rfl⟩)⟩
    · rw [Function.update_of_ne his] at hik
      obtain ⟨c, hc⟩ := h.owned i k (hother i hi his) hik
      exact ⟨c, (hon c k).mpr (Or.inr hc)⟩

/-- A master that goes gives back its socket and its slot. -/
theorem destroy (h : SockInv s) (ha : s.MasterOn a sock)
    (hon : ∀ b k, t.MasterOn b k ↔ b ≠ a ∧ s.MasterOn b k)
    (hsock : t.sockXports = Function.update s.sockXports sock .bad)
    (hsize : t.xportsSize = s.xportsSize) (hpsize : t.pollfdSize = s.pollfdSize)
    (hpoll : t.pollfd = (s.pollfdRemove sock).pollfd) (hmax : t.maxPollfd = s.maxPollfd) :
    SockInv t := by
  have howner : ∀ b, s.MasterOn b sock → b = a := by
    intro b hb
    have hb' := (h.sock sock b).mpr hb
    rw [(h.sock sock a).mpr ha] at hb'
    exact (XprtPtr.ref.inj hb').symm
  have hslot : ∀ i k, i < s.maxPollfd → (t.pollfd i = some k ↔ k ≠ sock ∧ s.pollfd i = some k) := by
    intro i k hi
    rw [hpoll]
    show (if i < s.maxPollfd ∧ s.pollfd i = some sock then none else s.pollfd i) = some k ↔ _
    by_cases hs : s.pollfd i = some sock
    · rw [if_pos ⟨hi, hs⟩, hs]
      simp [eq_comm]
    · rw [if_neg (fun hc => hs hc.2)]
      constructor
      · intro hk
        refine ⟨?_, hk⟩
        rintro rfl
        exact hs hk
      · exact fun hk => hk.2
  refine ⟨?_, ?_, ?_, ?_, ?_, ?_⟩
  · intro k b
    rw [hsock, hon]
    by_cases hk : k = sock
    · subst hk
      rw [Function.update_self]
      constructor
      · intro heq
        cases heq
      · intro hb
        exact absurd (howner b hb.2) hb.1
    · rw [Function.update_of_ne hk, h.sock]
      refine ⟨fun hb => ⟨?_, hb⟩, fun hb => hb.2⟩
      rintro rfl
      obtain ⟨x, hx, _, hxs⟩ := ha
      obtain ⟨y, hy, _, hys⟩ := hb
      cases hx.symm.trans hy
      exact hk (hys.symm.trans hxs)
  · intro b k hb
    rw [hsize]
    exact h.lt b k ((hon b k).mp hb).2
  · rw [hpsize, hsize]
    exact h.size
  · rw [hmax, hpsize]
    exact h.maxPollfd
  · intro b k hb
    obtain ⟨hba, hb⟩ := (hon b k).mp hb
    have hk : k ≠ sock := by
      rintro rfl
      exact hba (howner b hb)
    obtain ⟨i, ⟨hi, hik⟩, huniq⟩ := h.filled b k hb
    rw [hmax]
    refine ⟨i, ⟨hi, (hslot i k hi).mpr ⟨hk, hik⟩⟩, ?_⟩
    rintro j ⟨hj, hjk⟩
    exact huniq j ⟨hj, ((hslot j k hj).mp hjk).2⟩
  · intro i k hi hik
    rw [hmax] at hi
    obtain ⟨hk, hik⟩ := (hslot i k hi).mp hik
    obtain ⟨c, hc⟩ := h.owned i k hi hik
    refine ⟨c, (hon c k).mpr ⟨?_, hc⟩⟩
    rintro rfl
    obtain ⟨x, hx, _, hxs⟩ := ha
    obtain ⟨y, hy, _, hys⟩ := hc
    cases hx.symm.trans hy
    exact hk (hys.symm.trans hxs)

end SockInv

/-! ### Reference counts -/

structure RefInv (s : Registry ExactSet π) : Prop where
  parent : ∀ b y, s.heap b = some y → y.mtxpParent ≠ noParent →
    ∃ p px, s.xports y.mtxpParent = .ref p ∧ s.heap p = some px ∧ px.mtxpParent = noParent
  refcnt : ∀ a x, s.heap a = some x → x.mtxpParent = noParent →
    ∃ n : Nat, x.mtxpRefcnt = n ∧ (s.liveClones x.mtxpId).encard = n

namespace RefInv

variable {s t : Registry ExactSet π} {a p : Addr} {x px : Svcxprt π} {id : Nat}

/-- An id under which no transport is live is nobody's parent. -/
theorem no_clones (h : RefInv s) (htab : Tables s) (hid : id ∉ s.xportsIdset.ids) (hlt : id ≠ noParent) :
    s.liveClones id = ∅ := by
  apply Set.eq_empty_of_forall_notMem
  rintro b ⟨y, hy, rfl⟩
  obtain ⟨p, _, hp, _⟩ := h.parent b y hy hlt
  exact hid ((htab.listed _).mpr ⟨p, hp⟩)

theorem register (h : RefInv s) (htab : Tables s) (ha : s.heap a = none) (hid : s.xportsIdset.Vacant id)
    (hne : id ≠ noParent) (hmaster : x.mtxpParent = noParent) (hzero : x.mtxpRefcnt = 0)
    (hheap : t.heap = Function.update s.heap a (some { x with mtxpId := id }))
    (hxports : t.xports = Function.update s.xports id (.ref a)) : RefInv t := by
  have hclones : ∀ k, k ≠ noParent → t.liveClones k = s.liveClones k := by
    intro k hk
    ext b
    show (∃ y, t.heap b = some y ∧ _) ↔ (∃ y, s.heap b = some y ∧ _)
    by_cases hb : b = a
    · subst hb
      rw [hheap, Function.update_self, ha]
      simp [hmaster, hk.symm]
    · rw [hheap, Function.update_of_ne hb]
  refine ⟨?_, ?_⟩
  · intro b y hy hyp
    rw [hheap] at hy
    rcases update_eq_some hy with ⟨_, rfl⟩ | ⟨_, hy⟩
    · exact absurd hmaster hyp
    · obtain ⟨p, px, hp, hpx, hpp⟩ := h.parent b y hy hyp
      refine ⟨p, px, ?_, ?_, hpp⟩
      · rw [hxports, Function.update_of_ne]
        · exact hp
        · intro heq
          exact hid.1 (heq ▸ (htab.listed _).mpr ⟨p, hp⟩)
      · rw [hheap, Function.update_of_ne]
        · exact hpx
        · rintro rfl
          rw [ha] at hpx
          cases hpx
  · intro b y hy hyp
    rw [hheap] at hy
    rcases update_eq_some hy with ⟨_, rfl⟩ | ⟨_, hy⟩
    · refine ⟨0, hzero, ?_⟩
      show (t.liveClones id).encard = _
      rw [hclones id hne, h.no_clones htab hid.1 hne]
      exact Set.encard_empty
    · rw [hclones _ ((htab.lt_sizeMax (htab.id_lt hy)).ne)]
      exact h.refcnt b y hy hyp

theorem clone (h : RefInv s) (htab : Tables s) (ha : s.heap a = none) (hid : s.xportsIdset.Vacant id)
    (hp : s.heap p = some px) (hmaster : px.mtxpParent = noParent) (hparent : x.mtxpParent = px.mtxpId)
    (hheap : t.heap = Function.update (Function.update s.heap a (some { x with mtxpId := id })) p
      (some { px with mtxpRefcnt := px.mtxpRefcnt + 1 }))
    (hxports : t.xports = Function.update s.xports id (.ref a)) : RefInv t := by
  have hpa : p ≠ a := by
    rintro rfl
    rw [ha] at hp
    cases hp
  have hclone : x.mtxpParent ≠ noParent := by
    rw [hparent]
    exact (htab.lt_sizeMax (htab.id_lt hp)).ne
  have hpt : t.heap p = some { px with mtxpRefcnt := px.mtxpRefcnt + 1 } := by
    rw [hheap, Function.update_self]
  have hat : t.heap a = some { x with mtxpId := id } := by
    rw [hheap, Function.update_of_ne hpa.symm, Function.update_self]
  have hother : ∀ b, b ≠ p → b ≠ a → t.heap b = s.heap b := by
    intro b hbp hba
    rw [hheap, Function.update_of_ne hbp, Function.update_of_ne hba]
  have hslot : ∀ k c, s.xports k = .ref c → t.xports k = .ref c := by
    intro k c hk
    rw [hxports, Function.update_of_ne]
    · exact hk
    · rintro rfl
      exact hid.1 ((htab.listed _).mpr ⟨c, hk⟩)
  have hclones : ∀ k, t.liveClones k = { b | b = a ∧ k = px.mtxpId } ∪ s.liveClones k := by
    intro k
    ext b
    show (∃ y, t.heap b = some y ∧ _) ↔ (b = a ∧ k = px.mtxpId) ∨ ∃ y, s.heap b = some y ∧ _
    by_cases hba : b = a
    · subst hba
      rw [hat, ha]
      simp [hparent, eq_comm]
    · by_cases hbp : b = p
      · subst hbp
        rw [hpt, hp]
        simp [hba]
      · rw [hother b hbp hba]
        simp [hba]
  refine ⟨?_, ?_⟩
  · -- Every clone, the new one included, has a parent that was a live master before.
    have hold : ∀ k q qx, s.xports k = .ref q → s.heap q = some qx → qx.mtxpParent = noParent →
        ∃ q' qx', t.xports k = .ref q' ∧ t.heap q' = some qx' ∧ qx'.mtxpParent = noParent := by
      intro k q qx hk hq hqp
      by_cases hqa : q = p
      · subst hqa
        exact ⟨q, _, hslot k q hk, hpt, hmaster⟩
      · refine ⟨q, qx, hslot k q hk, (hother q hqa ?_).trans hq, hqp⟩
        rintro rfl
        rw [ha] at hq
        cases hq
    intro b y hy hyp
    by_cases hbp : b = p
    · subst hbp
      rw [hpt] at hy
      cases hy
      exact absurd hmaster hyp
    · by_cases hba : b = a
      · subst hba
        rw [hat] at hy
        cases hy
        show ∃ q qx, t.xports x.mtxpParent = .ref q ∧ _
        rw [hparent]
        exact hold _ p px (htab.held p px hp) hp hmaster
      · rw [hother b hbp hba] at hy
        obtain ⟨q, qx, hq, hqx, hqp⟩ := h.parent b y hy hyp
        exact hold _ q qx hq hqx hqp
  · intro b y hy hyp
    rw [hclones]
    by_cases hbp : b = p
    · subst hbp
      rw [hpt] at hy
      cases hy
      obtain ⟨n, hn, hcard⟩ := h.refcnt b px hp hmaster
      refine ⟨n + 1, by rw [hn]; rfl, ?_⟩
      have hins : { c | c = a ∧ px.mtxpId = px.mtxpId } ∪ s.liveClones px.mtxpId =
          insert a (s.liveClones px.mtxpId) := by
        ext c
        simp
      show ({ c | c = a ∧ px.mtxpId = px.mtxpId } ∪ s.liveClones px.mtxpId).encard = _
      rw [hins, Set.encard_insert_of_notMem, hcard]
      · rfl
      · rintro ⟨y, hy, _⟩
        rw [ha] at hy
        cases hy
    · by_cases hba : b = a
      · subst hba
        rw [hat] at hy
        cases hy
        exact absurd hyp hclone
      · rw [hother b hbp hba] at hy
        have hids : y.mtxpId ≠ px.mtxpId := fun heq => hbp (htab.eq_of_id hy hp heq)
        obtain ⟨n, hn, hcard⟩ := h.refcnt b y hy hyp
        refine ⟨n, hn, ?_⟩
        rw [← hcard]
        congr 1
        ext c
        simp [hids]

theorem destroyClone (h : RefInv s) (htab : Tables s) (hx : s.heap a = some x)
    (hclone : x.mtxpParent ≠ noParent) (hp : s.heap p = some px) (hmaster : px.mtxpParent = noParent)
    (hparent : x.mtxpParent = px.mtxpId)
    (hheap : t.heap = Function.update
      (Function.update s.heap p (some { px with mtxpRefcnt := px.mtxpRefcnt + -1 })) a none)
    (hxports : t.xports = Function.update s.xports x.mtxpId .bad) : RefInv t := by
  have hpa : p ≠ a := by
    rintro rfl
    cases hx.symm.trans hp
    exact hclone hmaster
  have hpt : t.heap p = some { px with mtxpRefcnt := px.mtxpRefcnt + -1 } := by
    rw [hheap, Function.update_of_ne hpa, Function.update_self]
  have hat : t.heap a = none := by rw [hheap, Function.update_self]
  have hother : ∀ b, b ≠ p → b ≠ a → t.heap b = s.heap b := by
    intro b hbp hba
    rw [hheap, Function.update_of_ne hba, Function.update_of_ne hbp]
  have hclones : ∀ k, t.liveClones k = s.liveClones k \ {a} := by
    intro k
    ext b
    show (∃ y, t.heap b = some y ∧ _) ↔ (∃ y, s.heap b = some y ∧ _) ∧ b ≠ a
    by_cases hba : b = a
    · subst hba
      rw [hat]
      simp
    · by_cases hbp : b = p
      · subst hbp
        rw [hpt, hp]
        simp [hba]
      · rw [hother b hbp hba]
        simp [hba]
  refine ⟨?_, ?_⟩
  · intro b y hy hyp
    have hba : b ≠ a := by
      rintro rfl
      rw [hat] at hy
      cases hy
    by_cases hbp : b = p
    · subst hbp
      rw [hpt] at hy
      cases hy
      exact absurd hmaster hyp
    · rw [hother b hbp hba] at hy
      obtain ⟨q, qx, hq, hqx, hqp⟩ := h.parent b y hy hyp
      have hqa : q ≠ a := by
        rintro rfl
        cases hx.symm.trans hqx
        exact hclone hqp
      have hslot : t.xports y.mtxpParent = .ref q := by
        rw [hxports, Function.update_of_ne]
        · exact hq
        · intro heq
          rw [heq, htab.held a x hx] at hq
          exact hqa (XprtPtr.ref.inj hq).symm
      by_cases hqp' : q = p
      · subst hqp'
        exact ⟨q, _, hslot, hpt, hmaster⟩
      · exact ⟨q, qx, hslot, (hother q hqp' hqa).trans hqx, hqp⟩
  · intro b y hy hyp
    have hba : b ≠ a := by
      rintro rfl
      rw [hat] at hy
      cases hy
    rw [hclones]
    by_cases hbp : b = p
    · subst hbp
      rw [hpt] at hy
      cases hy
      obtain ⟨n, hn, hcard⟩ := h.refcnt b px hp hmaster
      have hmem : a ∈ s.liveClones px.mtxpId := ⟨x, hx, hparent⟩
      have hpos : 1 ≤ n := by
        have := Set.one_le_encard_iff_nonempty.mpr ⟨a, hmem⟩
        rw [hcard] at this
        exact_mod_cast this
      refine ⟨n - 1, ?_, ?_⟩
      · show px.mtxpRefcnt + -1 = _
        rw [hn]
        omega
      · show (s.liveClones px.mtxpId \ {a}).encard = _
        rw [Set.encard_sdiff_singleton_of_mem hmem, hcard]
        rfl
    · rw [hother b hbp hba] at hy
      have hnot : a ∉ s.liveClones y.mtxpId := by
        rintro ⟨x', hx', heq⟩
        cases hx.symm.trans hx'
        exact hbp (htab.eq_of_id hy hp (heq.symm.trans hparent))
      rw [Set.sdiff_singleton_eq_self hnot]
      exact h.refcnt b y hy hyp

theorem destroyMaster (h : RefInv s) (htab : Tables s) (hx : s.heap a = some x)
    (hmaster : x.mtxpParent = noParent) (hnone : s.liveClones x.mtxpId = ∅)
    (hheap : t.heap = Function.update s.heap a none)
    (hxports : t.xports = Function.update s.xports x.mtxpId .bad) : RefInv t := by
  have hclones : ∀ k, k ≠ noParent → t.liveClones k = s.liveClones k := by
    intro k hk
    ext b
    show (∃ y, t.heap b = some y ∧ _) ↔ (∃ y, s.heap b = some y ∧ _)
    by_cases hb : b = a
    · subst hb
      rw [hheap, Function.update_self, hx]
      simp [hmaster, hk.symm]
    · rw [hheap, Function.update_of_ne hb]
  refine ⟨?_, ?_⟩
  · intro b y hy hyp
    rw [hheap] at hy
    obtain ⟨_, hy⟩ := update_none_eq_some hy
    obtain ⟨q, qx, hq, hqx, hqp⟩ := h.parent b y hy hyp
    have hne : y.mtxpParent ≠ x.mtxpId := by
      intro heq
      have hmem : b ∈ s.liveClones x.mtxpId := ⟨y, hy, heq⟩
      rw [hnone] at hmem
      exact hmem
    refine ⟨q, qx, ?_, ?_, hqp⟩
    · rw [hxports, Function.update_of_ne hne]
      exact hq
    · rw [hheap, Function.update_of_ne]
      · exact hqx
      · rintro rfl
        obtain ⟨qx', hqx', hid⟩ := htab.entry _ _ hq
        cases hx.symm.trans hqx'
        exact hne hid.symm
  · intro b y hy hyp
    rw [hheap] at hy
    obtain ⟨_, hy⟩ := update_none_eq_some hy
    rw [hclones _ ((htab.lt_sizeMax (htab.id_lt hy)).ne)]
    exact h.refcnt b y hy hyp

end RefInv

/-! ### Every history -/

structure RegInv (s : Registry ExactSet π) : Prop extends Tables s, SockInv s, RefInv s where
  count : s.xportsCount = s.xportsIdset.ids.card

theorem Tables.encard_live {s : Registry ExactSet π} (h : Tables s) :
    s.liveXprts.encard = s.xportsIdset.ids.card := by
  let idOf : Addr → Nat := fun a => (s.heap a).elim 0 Svcxprt.mtxpId
  have hidOf : ∀ a x, s.heap a = some x → idOf a = x.mtxpId := by
    intro a x hx
    show (s.heap a).elim 0 Svcxprt.mtxpId = _
    rw [hx]
    rfl
  have hinj : Set.InjOn idOf s.liveXprts := by
    intro a ha b hb heq
    obtain ⟨x, hx⟩ := Option.isSome_iff_exists.mp ha
    obtain ⟨y, hy⟩ := Option.isSome_iff_exists.mp hb
    rw [hidOf a x hx, hidOf b y hy] at heq
    exact h.eq_of_id hx hy heq
  have himage : Set.image idOf s.liveXprts = (s.xportsIdset.ids : Set Nat) := by
    ext id
    constructor
    · rintro ⟨a, ha, rfl⟩
      obtain ⟨x, hx⟩ := Option.isSome_iff_exists.mp ha
      rw [hidOf a x hx]
      exact h.mem hx
    · intro hid
      obtain ⟨a, ha⟩ := (h.listed id).mp hid
      obtain ⟨x, hx, hxid⟩ := h.entry id a ha
      exact ⟨a, Option.isSome_iff_exists.mpr ⟨x, hx⟩, (hidOf a x hx).trans hxid⟩
  rw [← hinj.encard_image, himage, Set.encard_coe_eq_coe_finsetCard]

/-- What `xprt_unregister` does to a transport it finds under its id, once its socket is released. -/
theorem Tables.svcDestroy_eq {s u : Registry ExactSet π} {a : Addr} {x : Svcxprt π} (h : Tables s) (hx : s.heap a = some x)
    (hrel : s.releaseSocket x = .ok u) (hset : u.xportsIdset = s.xportsIdset)
    (hmax : u.xportsMaxid = s.xportsMaxid) :
    s.svcDestroy a = .ok { u with
      xports := Function.update u.xports x.mtxpId .bad
      xportsIdset := { s.xportsIdset with ids := s.xportsIdset.ids.erase x.mtxpId }
      xportsCount := u.xportsCount - 1
      heap := Function.update u.heap a none } := by
  have hlt := h.id_lt hx
  have hle := (h.maxid_lt (h.mem hx)).1
  have hclr : IdSet.clrBit u.xportsIdset x.mtxpId =
      .ok { s.xportsIdset with ids := s.xportsIdset.ids.erase x.mtxpId } := by
    rw [hset]
    exact ExactSet.checked_of_lt (by rw [h.sz]; exact hlt) _
  rw [svcDestroy, xprtUnregister, deref_of_heap hx]
  show ((s.xportsAt x.mtxpId >>= _ : Res _) >>= _ : Res _) = _
  rw [xportsAt, if_pos hlt, h.held a x hx]
  show ((if XprtPtr.ref a ≠ XprtPtr.ref a then _ else _ : Res _) >>= _ : Res _) = _
  rw [if_neg (by simp), if_neg (by omega), hrel]
  show (u.unregisterId x.mtxpId >>= _ : Res _) = _
  rw [unregisterId, if_neg (by omega), hclr]
  rfl

namespace RegInv

variable {s t : Registry ExactSet π} {a : Addr} {x : Svcxprt π}

theorem consistent (h : RegInv s) : Consistent s := by
  refine ⟨?_, h.held, fun id => h.maxid_lt, ?_, h.refcnt, h.sock, h.filled, ?_, h.maxPollfd⟩
  · intro id
    rw [h.listed id]
    constructor
    · rintro ⟨a, _, ha, _⟩
      exact ⟨a, ha⟩
    · rintro ⟨a, ha⟩
      obtain ⟨x, hx, hid⟩ := h.entry id a ha
      exact ⟨a, x, ha, hx, hid⟩
  · rw [h.count]
    exact h.encard_live
  · intro slot hslot
    cases hk : s.pollfd slot with
    | none => exact Or.inl rfl
    | some sock =>
        obtain ⟨a, ha⟩ := h.owned slot sock hslot hk
        exact Or.inr ⟨a, sock, ha, rfl⟩

theorem room (h : RegInv s) (hroom : s.liveXprts.encard < s.xportsSize) :
    s.xportsIdset.ids.card < s.xportsSize := by
  rw [h.encard_live] at hroom
  exact_mod_cast hroom

theorem registerMaster_of {sock : Nat} (hlt : sock < s.xportsSize)
    (hvacant : s.sockXports sock = .null ∨ s.sockXports sock = .bad) (a : Addr) :
    s.registerMaster a sock =
      initPollfd { s with sockXports := Function.update s.sockXports sock (.ref a) } sock := by
  rw [registerMaster, sockXportsAt, if_pos hlt]
  show (s.socketXprtIsAvailable (s.sockXports sock) >>= _ : Res _) = _
  rcases hvacant with hs | hs
  · rw [hs]
    rfl
  · rw [hs]
    rfl

/-- Registering a master on a vacant socket succeeds and keeps the tables consistent. -/
theorem register (h : RegInv s) (ha : s.heap a = none) (hid : x.mtxpId = xprtIdInvalid)
    (hmaster : x.mtxpParent = noParent) (hzero : x.mtxpRefcnt = 0) (hlt : x.xpSock < s.xportsSize)
    (hvacant : s.sockXports x.xpSock = .null ∨ s.sockXports x.xpSock = .bad)
    (hroom : s.xportsIdset.ids.card < s.xportsSize) :
    ∃ t, (s.store a x).xprtRegister a = .ok t ∧ RegInv t := by
  have hfree := h.not_masterOn hvacant
  obtain ⟨id, maxid, hid', hidlt, hreg⟩ := h.xprtRegister_eq a hid hroom
  have hlt' : x.xpSock < (s.numbered a x id maxid).xportsSize := hlt
  rw [if_pos hmaster, registerMaster_of hlt' hvacant] at hreg
  obtain ⟨slot, maxPollfd, hslot, hmax, hpoll⟩ := @SockInv.initPollfd_of _
    { s.numbered a x id maxid with sockXports := Function.update s.sockXports x.xpSock (.ref a) } x.xpSock
    h.maxPollfd (h.toSockInv.room hlt hfree)
  have hok := hreg.trans hpoll
  refine ⟨_, hok, h.toTables.register ha hid hok, ?_, ?_, ?_⟩
  · refine h.toSockInv.register hlt hfree (a := a) ?_ rfl rfl rfl rfl hslot hmax
    intro b k
    show (∃ y, Function.update s.heap a (some { x with mtxpId := id }) b = some y ∧ _) ↔ _
    by_cases hb : b = a
    · subst hb
      rw [Function.update_self, MasterOn, ha]
      simp [hmaster, eq_comm]
    · rw [Function.update_of_ne hb]
      simp [hb, MasterOn]
  · exact h.toRefInv.register h.toTables ha hid' (h.lt_sizeMax hidlt).ne hmaster hzero rfl rfl
  · show s.xportsCount + 1 = (insert id s.xportsIdset.ids).card
    rw [Finset.card_insert_of_notMem hid'.1, h.count]

/-- So does a cloning of a live master. -/
theorem clone {p : Addr} {px : Svcxprt π} (h : RegInv s) (ha : s.heap a = none)
    (hid : x.mtxpId = xprtIdInvalid) (hp : s.heap p = some px) (hmaster : px.mtxpParent = noParent)
    (hparent : x.mtxpParent = px.mtxpId) (hroom : s.xportsIdset.ids.card < s.xportsSize) :
    ∃ t, (s.store a x).xprtRegister a = .ok t ∧ RegInv t := by
  have hpa : p ≠ a := by
    rintro rfl
    rw [ha] at hp
    cases hp
  have hclone : x.mtxpParent ≠ noParent := by
    rw [hparent]
    exact (h.lt_sizeMax (h.id_lt hp)).ne
  obtain ⟨id, maxid, hid', hidlt, hreg⟩ := h.xprtRegister_eq a hid hroom
  have hne : px.mtxpId ≠ id := by
    intro heq
    exact hid'.1 (heq ▸ h.mem hp)
  have hslot : (s.numbered a x id maxid).xports px.mtxpId = .ref p :=
    (Function.update_of_ne hne ..).trans (h.held p px hp)
  have hpx : (s.numbered a x id maxid).heap p = some px := (Function.update_of_ne hpa ..).trans hp
  have hplt : px.mtxpId < (s.numbered a x id maxid).xportsSize := h.id_lt hp
  rw [if_neg hclone, hparent, countParent_of 1 hplt hslot hpx] at hreg
  refine ⟨_, hreg, h.toTables.register ha hid hreg, ?_, ?_, ?_⟩
  · refine h.toSockInv.congr ?_ rfl rfl rfl rfl rfl
    intro b k
    show (∃ y, Function.update (Function.update s.heap a _) p _ b = some y ∧ _) ↔ _
    by_cases hbp : b = p
    · subst hbp
      rw [Function.update_self, MasterOn, hp]
      simp
    · rw [Function.update_of_ne hbp]
      by_cases hba : b = a
      · subst hba
        rw [Function.update_self, MasterOn, ha]
        simp [hclone]
      · rw [Function.update_of_ne hba, MasterOn]
  · exact h.toRefInv.clone h.toTables ha hid' hp hmaster hparent rfl rfl
  · show s.xportsCount + 1 = (insert id s.xportsIdset.ids).card
    rw [Finset.card_insert_of_notMem hid'.1, h.count]

/-- Destroying a clone, or a master that has no clone, succeeds and keeps the tables consistent. -/
theorem destroy (h : RegInv s) (hx : s.heap a = some x)
    (hfree : x.mtxpParent ≠ noParent ∨ s.liveClones x.mtxpId = ∅) :
    ∃ t, s.svcDestroy a = .ok t ∧ RegInv t := by
  have hcount : s.xportsCount - 1 = (s.xportsIdset.ids.erase x.mtxpId).card := by
    rw [Finset.card_erase_of_mem (h.mem hx), h.count]
  by_cases hmaster : x.mtxpParent = noParent
  · have hnone := hfree.resolve_left (fun hne => hne hmaster)
    have hon : s.MasterOn a x.xpSock := ⟨x, hx, hmaster, rfl⟩
    have hrel : s.releaseSocket x = .ok { s.pollfdRemove x.xpSock with
        sockXports := Function.update s.sockXports x.xpSock .bad } := by
      rw [releaseSocket, if_pos hmaster, if_pos (h.lt a _ hon)]
    have hok := h.svcDestroy_eq hx hrel rfl rfl
    obtain ⟨x', hx', hd⟩ := svcDestroy_ok hok
    cases hx.symm.trans hx'
    refine ⟨_, hok, h.toTables.destroyed hx hd, ?_, ?_, hcount⟩
    · refine h.toSockInv.destroy hon ?_ rfl rfl rfl rfl rfl
      intro b k
      show (∃ y, Function.update s.heap a none b = some y ∧ _) ↔ _
      by_cases hb : b = a
      · subst hb
        rw [Function.update_self]
        simp
      · rw [Function.update_of_ne hb]
        simp [hb, MasterOn]
    · exact h.toRefInv.destroyMaster h.toTables hx hmaster hnone rfl rfl
  · obtain ⟨p, px, hp, hpx, hpm⟩ := h.parent a x hx hmaster
    obtain ⟨px', hpx', hpid⟩ := h.entry _ _ hp
    cases hpx.symm.trans hpx'
    have hrel : s.releaseSocket x = .ok (s.store p { px with mtxpRefcnt := px.mtxpRefcnt + -1 }) := by
      rw [releaseSocket, if_neg hmaster, countParent_of (-1) (hpid ▸ h.id_lt hpx) hp hpx]
    have hok := h.svcDestroy_eq hx hrel rfl rfl
    obtain ⟨x', hx', hd⟩ := svcDestroy_ok hok
    cases hx.symm.trans hx'
    refine ⟨_, hok, h.toTables.destroyed hx hd, ?_, ?_, hcount⟩
    · refine h.toSockInv.congr ?_ rfl rfl rfl rfl rfl
      intro b k
      show (∃ y, Function.update (Function.update s.heap p _) a none b = some y ∧ _) ↔ _
      by_cases hba : b = a
      · subst hba
        rw [Function.update_self, MasterOn, hx]
        simp [hmaster]
      · rw [Function.update_of_ne hba]
        by_cases hbp : b = p
        · subst hbp
          rw [Function.update_self, MasterOn, hpx]
          simp
        · rw [Function.update_of_ne hbp, MasterOn]
    · exact h.toRefInv.destroyClone h.toTables hx hmaster hpx hpm hpid.symm rfl rfl

/-- A master that counts no clone has none. -/
theorem liveClones_empty (h : RegInv s) (hx : s.heap a = some x) (hmaster : x.mtxpParent = noParent)
    (hzero : x.mtxpRefcnt = 0) : s.liveClones x.mtxpId = ∅ := by
  obtain ⟨n, hn, hcard⟩ := h.refcnt a x hx hmaster
  have hnone : n = 0 := by omega
  rw [hnone] at hcard
  exact Set.encard_eq_zero.mp hcard

end RegInv

theorem regInv_createXports (dtablesize : Nat) :
    RegInv (createXports dtablesize : Registry ExactSet π) := by
  have hnone : ∀ a k, ¬(createXports dtablesize : Registry ExactSet π).MasterOn a k := by
    rintro a k ⟨x, hx, _⟩
    cases hx
  refine ⟨tables_createXports dtablesize, ⟨?_, ?_, rfl, Nat.zero_le _, ?_, ?_⟩, ⟨?_, ?_⟩, rfl⟩
  · intro k a
    constructor
    · intro h
      cases h
    · intro h
      exact absurd h (hnone a k)
  · intro a k h
    exact absurd h (hnone a k)
  · intro a k h
    exact absurd h (hnone a k)
  · intro slot k hslot
    exact absurd hslot (Nat.not_lt_zero slot)
  · intro b y h
    cases h
  · intro b y h
    cases h

/-- A call of the registry that succeeds was possible. -/
theorem regStep_some {s t : Registry ExactSet π} {op : RegOp π} (h : s.regStep op = some t) :
    op.possible s = true ∧ regOp s op = .ok t := by
  unfold regStep at h
  split at h
  · rename_i hposs
    exact ⟨hposs, toOption_ok h⟩
  · cases h

/-- Every call that the callers may make succeeds. -/
theorem RegInv.regStep {s : Registry ExactSet π} (h : RegInv s) {op : RegOp π}
    (hposs : op.possible s = true) (hok : Allowed s op) : ∃ t, regStep s op = some t ∧ RegInv t := by
  have hrun : ∃ t, regOp s op = .ok t ∧ RegInv t := by
    cases op with
    | register a sock port clone priv stat =>
        obtain ⟨hlt, hvacant, hroom⟩ := hok
        exact h.register (Option.isNone_iff_eq_none.mp hposs) rfl rfl rfl hlt hvacant (h.room hroom)
    | clone p a priv =>
        obtain ⟨ha, hp⟩ := Bool.and_eq_true_iff.mp hposs
        cases hpx : s.heap p with
        | none =>
            rw [hpx] at hp
            cases hp
        | some px =>
            rw [hpx] at hp
            have hmaster : px.mtxpParent = noParent := beq_iff_eq.mp (Bool.and_eq_true_iff.mp hp).2
            obtain ⟨t, ht, hinv⟩ := h.clone (x := px.cloneXprt priv) (Option.isNone_iff_eq_none.mp ha) rfl
              hpx hmaster rfl (h.room hok)
            refine ⟨t, ?_, hinv⟩
            rw [regOp, deref_of_heap hpx]
            exact ht
    | unregister a =>
        obtain ⟨x, hx⟩ := Option.isSome_iff_exists.mp hposs
        exact h.destroy hx (hok x hx)
  obtain ⟨t, ht, hinv⟩ := hrun
  refine ⟨t, ?_, hinv⟩
  rw [Registry.regStep, if_pos hposs, ht]
  rfl

theorem RegInv.regStep_of {s t : Registry ExactSet π} (h : RegInv s) {op : RegOp π} (hok : Allowed s op)
    (hst : s.regStep op = some t) : RegInv t := by
  obtain ⟨t', ht', hinv⟩ := h.regStep (regStep_some hst).1 hok
  cases ht'.symm.trans hst
  exact hinv

theorem regInv_reached {dtablesize : Nat} {s : Registry ExactSet π}
    (h : Reached regStep Allowed (createXports dtablesize) s) : RegInv s :=
  h.invariant RegInv (regInv_createXports dtablesize) fun _ _ _ hu hok hst => hu.regStep_of hok hst

/-- In every history of registrations on vacant sockets, clonings of live masters and destructions of
transports without clones, the tables are consistent, and no such call ends the program. -/
theorem registry_consistent {dtablesize : Nat} {s : Registry ExactSet π}
    (h : Reached regStep Allowed (createXports dtablesize) s) :
    Consistent s ∧ ∀ op : RegOp π, op.possible s = true → Allowed s op → ∃ t, regStep s op = some t := by
  have hinv := regInv_reached h
  refine ⟨hinv.consistent, fun op hposs hok => ?_⟩
  obtain ⟨t, ht, _⟩ := hinv.regStep hposs hok
  exact ⟨t, ht⟩

/-- A UDP master on socket 3 and one clone of it: two transports, and the master counts one. -/
theorem registry_consistent_cloned : ∃ s : Registry ExactSet Unit,
    Reached regStep Allowed (createXports 8) s ∧ s.liveXprts.encard = 2 ∧ s.MasterOn 0 3 := by
  have hrun : ((createXports 8 : Registry ExactSet Unit).regStep (.register 0 3 111 true () .idle)).map
      (fun s => (s.xportsSize, s.xportsCount, (s.regStep (.clone 0 1 ())).map fun t =>
        (t.xportsCount, t.sockXports 3))) = some (8, 1, some (2, .ref 0)) := by
    decide +kernel
  obtain ⟨s, hs, heq⟩ := Option.map_eq_some_iff.mp hrun
  obtain ⟨hsize, heq⟩ := Prod.mk.inj heq
  obtain ⟨hone, heq⟩ := Prod.mk.inj heq
  obtain ⟨t, ht, heq⟩ := Option.map_eq_some_iff.mp heq
  obtain ⟨htwo, hsock⟩ := Prod.mk.inj heq
  have hfirst : Reached regStep Allowed (createXports 8) s := by
    refine .next .start ?_ hs
    refine ⟨by decide, Or.inr rfl, ?_⟩
    rw [(registry_consistent .start).1.count]
    decide
  have hsecond : Reached regStep Allowed (createXports 8) t := by
    refine .next hfirst ?_ ht
    show s.liveXprts.encard < s.xportsSize
    rw [(registry_consistent hfirst).1.count, hone, hsize]
    decide
  have hcons := (registry_consistent hsecond).1
  refine ⟨t, hsecond, ?_, (hcons.sock 3 0).mp hsock⟩
  rw [hcons.count, htwo]
  rfl

end RpcMt.Registry
