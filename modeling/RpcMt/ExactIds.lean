import Mathlib.Data.Finset.Card
import Mathlib.Data.Set.Card
import RpcMt.RegistryIds

/-! The registry over an id set that is exact: what `bitvec.c` is for, with its range check and nothing
else of it. The allocator then hands out the least id that is not in the set, and the table `xports`
agrees with the heap and with the set after every registration and every destruction, in whatever
order they come. -/

namespace RpcMt

structure ExactSet where
  sz : Nat
  ids : Finset Nat
  deriving DecidableEq

namespace ExactSet

/-- `svc_die` past the size, as in `bitvec.c`. -/
def checked {α : Type} (set : ExactSet) (idx : Nat) (r : α) : Res α :=
  if set.sz ≤ idx then .error .svcDie else .ok r

instance exactIdSet : IdSet ExactSet where
  init nbits := ⟨nbits, ∅⟩
  setBit set idx := set.checked idx { set with ids := insert idx set.ids }
  clrBit set idx := set.checked idx { set with ids := set.ids.erase idx }
  getBit set idx := set.checked idx (decide (idx ∈ set.ids))

theorem checked_of_lt {α : Type} {set : ExactSet} {idx : Nat} (h : idx < set.sz) (r : α) :
    set.checked idx r = .ok r := by
  rw [checked, if_neg (Nat.not_le.mpr h)]

theorem checked_ok {α : Type} {set : ExactSet} {idx : Nat} {r r' : α} (h : set.checked idx r = .ok r') :
    idx < set.sz ∧ r' = r := by
  unfold checked at h
  split at h
  · cases h
  · cases h
    exact ⟨by omega, rfl⟩

/-- The least id that is not in the set. -/
def Vacant (set : ExactSet) (id : Nat) : Prop := id ∉ set.ids ∧ ∀ i, i < id → i ∈ set.ids

theorem Vacant.le_card {set : ExactSet} {id : Nat} (h : set.Vacant id) : id ≤ set.ids.card := by
  have hsub : Finset.range id ⊆ set.ids := fun i hi => h.2 i (Finset.mem_range.mp hi)
  calc id
    _ = (Finset.range id).card := (Finset.card_range id).symm
    _ ≤ set.ids.card := Finset.card_le_card hsub

theorem Vacant.unique {set : ExactSet} {i j : Nat} (hi : set.Vacant i) (hj : set.Vacant j) : i = j := by
  rcases Nat.lt_trichotomy i j with h | h | h
  · exact absurd (hj.2 i h) hi.1
  · exact h
  · exact absurd (hi.2 j h) hj.1

end ExactSet

namespace Registry

variable {π : Type}

/-- Over an exact set the scan cannot fail, and stops at the least id that is not in the set. -/
theorem xprtIdScan_exact {set : ExactSet} {left id : Nat} (hsz : id + left ≤ set.sz)
    (hbelow : ∀ i, i < id → i ∈ set.ids) :
    ∃ r, xprtIdScan set left id = .ok r ∧ r ≤ id + left ∧ (∀ i, i < r → i ∈ set.ids) ∧
      (r < id + left → r ∉ set.ids) := by
  induction left generalizing id with
  | zero => exact ⟨id, rfl, le_refl _, hbelow, fun hlt => by omega⟩
  | succ left ih =>
      have hget : IdSet.getBit set id = .ok (decide (id ∈ set.ids)) :=
        ExactSet.checked_of_lt (by omega) _
      rw [xprtIdScan, hget]
      by_cases hid : id ∈ set.ids
      · have hbelow' : ∀ i, i < id + 1 → i ∈ set.ids := by
          intro i hi
          rcases Nat.lt_succ_iff_lt_or_eq.mp hi with hlt | rfl
          · exact hbelow i hlt
          · exact hid
        obtain ⟨r, hr, hle, hall, hstop⟩ := ih (by omega) hbelow'
        rw [decide_eq_true hid]
        exact ⟨r, hr, by omega, hall, fun hlt => hstop (by omega)⟩
      · rw [decide_eq_false hid]
        exact ⟨id, rfl, by omega, hbelow, fun _ => hid⟩

/-- The registry once a new transport has its id and its place in `xports`. -/
def numbered (s : Registry ExactSet π) (a : Addr) (x : Svcxprt π) (id maxid : Nat) : Registry ExactSet π :=
  { s with
    heap := Function.update s.heap a (some { x with mtxpId := id })
    xports := Function.update s.xports id (.ref a)
    xportsMaxid := maxid
    xportsIdset := { s.xportsIdset with ids := insert id s.xportsIdset.ids }
    xportsCount := s.xportsCount + 1 }

/-- The table, the id set and the heap agree: a transport is live exactly if the table holds it, it is
held under its own id, and the ids of the live transports are those in the set. -/
structure Tables (s : Registry ExactSet π) : Prop where
  size_le : s.xportsSize ≤ fdSetsize
  sz : s.xportsIdset.sz = s.xportsSize
  maxid : s.xportsMaxid = sizeMax ∨ s.xportsMaxid < s.xportsSize
  held : ∀ a x, s.heap a = some x → s.xports x.mtxpId = .ref a
  entry : ∀ id a, s.xports id = .ref a → ∃ x, s.heap a = some x ∧ x.mtxpId = id
  listed : ∀ id, id ∈ s.xportsIdset.ids ↔ ∃ a, s.xports id = .ref a
  le_maxid : ∀ id, id ∈ s.xportsIdset.ids → s.xportsMaxid ≠ sizeMax ∧ id ≤ s.xportsMaxid

theorem tables_createXports (dtablesize : Nat) :
    Tables (createXports dtablesize : Registry ExactSet π) := by
  refine ⟨?_, rfl, Or.inl rfl, ?_, ?_, ?_, ?_⟩
  · simp only [createXports]
    split <;> omega
  · intro a x h
    cases h
  · intro id a h
    cases h
  · intro id
    constructor
    · intro h
      exact absurd h (Finset.notMem_empty id)
    · rintro ⟨a, h⟩
      cases h
  · intro id h
    exact absurd h (Finset.notMem_empty id)

namespace Tables

variable {s t : Registry ExactSet π} {a b : Addr} {x y : Svcxprt π} {id maxid : Nat}

theorem lt_sizeMax (h : Tables s) (hid : id < s.xportsSize) : id < sizeMax := by
  have := h.size_le
  simp only [fdSetsize, sizeMax, sizeRange] at *
  omega

theorem mem (h : Tables s) (hx : s.heap a = some x) : x.mtxpId ∈ s.xportsIdset.ids :=
  (h.listed _).mpr ⟨a, h.held a x hx⟩

theorem maxid_lt (h : Tables s) (hid : id ∈ s.xportsIdset.ids) :
    id ≤ s.xportsMaxid ∧ s.xportsMaxid < s.xportsSize := by
  obtain ⟨hne, hle⟩ := h.le_maxid id hid
  exact ⟨hle, h.maxid.resolve_left hne⟩

theorem id_lt (h : Tables s) (hx : s.heap a = some x) : x.mtxpId < s.xportsSize := by
  have hmax := h.maxid_lt (h.mem hx)
  omega

theorem eq_of_id (h : Tables s) (hx : s.heap a = some x) (hy : s.heap b = some y)
    (hid : x.mtxpId = y.mtxpId) : a = b := by
  have ha := h.held a x hx
  rw [hid, h.held b y hy] at ha
  exact (XprtPtr.ref.inj ha).symm

/-- The allocator settles on the least vacant id. -/
theorem choose (h : Tables s) : ∃ id maxid, s.xprtIdChoose = .ok (id, maxid) ∧
    s.xportsIdset.Vacant id ∧ id ≤ maxid ∧ (maxid = id ∨ maxid = s.xportsMaxid ∧ maxid ≠ sizeMax) ∧
      (s.xportsMaxid ≠ sizeMax → s.xportsMaxid ≤ maxid) := by
  by_cases hmax : s.xportsMaxid = sizeMax
  · refine ⟨0, 0, ?_, ⟨fun hmem => ?_, fun i hi => by omega⟩, le_refl _, Or.inl rfl, fun hne => absurd hmax hne⟩
    · rw [xprtIdChoose, if_pos hmax]
    · exact (h.le_maxid 0 hmem).1 hmax
  · have hlt := h.maxid.resolve_left hmax
    have hsz : 0 + (s.xportsMaxid + 1) ≤ s.xportsIdset.sz := by
      rw [h.sz]
      omega
    obtain ⟨r, hr, hle, hall, hstop⟩ := xprtIdScan_exact hsz fun i hi => absurd hi (Nat.not_lt_zero i)
    have hfree : r ∉ s.xportsIdset.ids := by
      intro hmem
      have hr' := (h.le_maxid r hmem).2
      exact hstop (by omega) hmem
    refine ⟨r, if s.xportsMaxid < r then r else s.xportsMaxid, ?_, ⟨hfree, hall⟩, ?_, ?_, ?_⟩
    · rw [xprtIdChoose, if_neg hmax, hr]
      rfl
    · split <;> omega
    · split
      · exact Or.inl rfl
      · exact Or.inr ⟨rfl, hmax⟩
    · intro _
      split <;> omega

/-- The allocator fails only when every id is taken. -/
theorem xprtRegister_eq (h : Tables s) (a : Addr) (hid : x.mtxpId = xprtIdInvalid)
    (hroom : s.xportsIdset.ids.card < s.xportsSize) :
    ∃ id maxid, s.xportsIdset.Vacant id ∧ id < s.xportsSize ∧ (s.store a x).xprtRegister a =
      if x.mtxpParent = noParent then (s.numbered a x id maxid).registerMaster a x.xpSock
      else (s.numbered a x id maxid).countParent x.mtxpParent 1 := by
  obtain ⟨id, maxid, hchoose, hvacant, _⟩ := h.choose
  have hlt : id < s.xportsSize := lt_of_le_of_lt hvacant.le_card hroom
  have hset : IdSet.setBit s.xportsIdset id =
      .ok { s.xportsIdset with ids := insert id s.xportsIdset.ids } :=
    ExactSet.checked_of_lt (by rw [h.sz]; exact hlt) _
  have halloc : (s.store a x).xprtIdAlloc = .ok (id, { s.store a x with
      xportsMaxid := maxid
      xportsIdset := { s.xportsIdset with ids := insert id s.xportsIdset.ids }
      xportsCount := s.xportsCount + 1 }) := by
    show (s.xprtIdChoose >>= _ : Res _) = _
    rw [hchoose]
    show (if s.xportsSize ≤ id then _ else IdSet.setBit s.xportsIdset id >>= _ : Res _) = _
    rw [if_neg (Nat.not_le.mpr hlt), hset]
    rfl
  refine ⟨id, maxid, hvacant, hlt, ?_⟩
  rw [xprtRegister_of_alloc (Function.update_self ..) hid halloc]
  show (if s.xportsSize ≤ id then _ else _ : Res _) = _
  rw [if_neg (Nat.not_le.mpr hlt)]
  simp only [numbered, store, Function.update_idem]

/-- A registration that succeeds puts the transport under the least vacant id. -/
theorem register (h : Tables s) (ha : s.heap a = none) (hid : x.mtxpId = xprtIdInvalid)
    (hreg : (s.store a x).xprtRegister a = .ok t) : Tables t := by
  obtain ⟨id, s₁, halloc, hent⟩ := xprtRegister_ok (Function.update_self ..) hid hreg
  obtain ⟨maxid, idset, hchoose', hlt, hset, rfl⟩ := xprtIdAlloc_ok halloc
  obtain ⟨id', maxid', hchoose, hvacant, hle, hmax, hgrow⟩ := h.choose
  cases hchoose.symm.trans hchoose'
  obtain ⟨_, rfl⟩ := ExactSet.checked_ok hset
  have hcore := fun b => hent.core_registered rfl b
  have hne : maxid < s.xportsSize := by
    rcases hmax with rfl | ⟨rfl, hne⟩
    · exact hlt
    · exact h.maxid.resolve_left hne
  refine ⟨?_, ?_, ?_, ?_, ?_, ?_, ?_⟩
  · rw [hent.size]
    exact h.size_le
  · rw [hent.idset, hent.size]
    exact h.sz
  · rw [hent.maxid, hent.size]
    exact Or.inr hne
  · intro b y hy
    rw [hent.xports]
    rcases core_update_cases hcore hy with ⟨rfl, hyc⟩ | ⟨_, y', hy', hyc⟩
    · rw [Svcxprt.mtxpId_of_core hyc]
      exact Function.update_self ..
    · rw [Svcxprt.mtxpId_of_core hyc, Function.update_of_ne]
      · exact h.held b y' hy'
      · intro heq
        exact hvacant.1 (heq ▸ h.mem hy')
  · exact entries_registered h.entry ha hent.xports hcore
  · intro i
    rw [hent.idset, hent.xports]
    show i ∈ insert id s.xportsIdset.ids ↔ _
    rw [Finset.mem_insert]
    by_cases hi : i = id
    · subst hi
      exact ⟨fun _ => ⟨a, Function.update_self ..⟩, fun _ => Or.inl rfl⟩
    · rw [Function.update_of_ne hi, or_iff_right hi]
      exact h.listed i
  · intro i hi
    rw [hent.idset] at hi
    rw [hent.maxid]
    refine ⟨(h.lt_sizeMax hne).ne, ?_⟩
    rcases Finset.mem_insert.mp hi with rfl | hi
    · exact hle
    · obtain ⟨hold, hile⟩ := h.le_maxid i hi
      exact hile.trans (hgrow hold)

/-- A destruction vacates the id of the transport and nothing else. -/
theorem destroyed (h : Tables s) (hx : s.heap a = some x) (hd : Destroyed s t a x) : Tables t := by
  obtain ⟨_, hids⟩ := ExactSet.checked_ok hd.clr
  refine ⟨?_, ?_, ?_, ?_, ?_, ?_, ?_⟩
  · rw [hd.size]
    exact h.size_le
  · rw [hd.size, hids]
    exact h.sz
  · rw [hd.maxid, hd.size]
    exact h.maxid
  · intro b y hy
    obtain ⟨hb, y', hy', hyc⟩ := hd.live_before hy
    rw [hd.xports, Svcxprt.mtxpId_of_core hyc, Function.update_of_ne]
    · exact h.held b y' hy'
    · intro heq
      exact hb (h.eq_of_id hy' hx heq)
  · exact hd.entries h.entry hx
  · intro i
    rw [hd.xports, hids]
    show i ∈ s.xportsIdset.ids.erase x.mtxpId ↔ _
    rw [Finset.mem_erase]
    by_cases hi : i = x.mtxpId
    · subst hi
      rw [Function.update_self]
      simp
    · rw [Function.update_of_ne hi, and_iff_right hi]
      exact h.listed i
  · intro i hi
    rw [hids] at hi
    rw [hd.maxid]
    exact h.le_maxid i (Finset.mem_of_mem_erase hi)

end Tables

end Registry

end RpcMt
