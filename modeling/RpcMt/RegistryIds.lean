import RpcMt.Registry
import RpcMt.Runs

/-! Transport ids over whole histories of registrations, clonings and unregistrations, with the id
set as `bitvec.c` implements it. The allocator hands out the first id whose bit is clear, so an id
found by its scan is the least index on its bit. Ids stay distinct as long as no unregistration
clears a bit whose least index belongs to another live transport. -/

open RpcMt.Runs

namespace RpcMt.Registry

variable {β π : Type}

/-- One call into the registry. A constructor allocates the transport before it registers it, a
destructor frees it after it has unregistered it. -/
inductive RegOp (π : Type) where
  | register (a : Addr) (sock port : Nat) (clone : Bool) (priv : π) (stat : XprtStat)
  | clone (parent a : Addr) (priv : π)
  | unregister (a : Addr)

/-- `malloc` hands out free memory, and only a live master that has a clone method is cloned. -/
def RegOp.possible (s : Registry β π) : RegOp π → Bool
  | .register a _ _ _ _ _ => (s.heap a).isNone
  | .clone parent a _ => (s.heap a).isNone && (match s.heap parent with
      | none => false
      | some px => px.mtxpClone && px.mtxpParent == noParent)
  | .unregister a => (s.heap a).isSome

def regOp [IdSet β] (s : Registry β π) : RegOp π → Res (Registry β π)
  | .register a sock port clone priv stat =>
      (s.store a (Svcxprt.newXprt sock port clone priv stat)).xprtRegister a
  | .clone parent a priv => do
      let px ← s.deref parent
      (s.store a (px.cloneXprt priv)).xprtRegister a
  | .unregister a => s.svcDestroy a

def regStep [IdSet β] (s : Registry β π) (op : RegOp π) : Option (Registry β π) :=
  if op.possible s then (regOp s op).toOption else none

/-- Every live transport is found under its own id, so that no two share one. -/
def IdsDistinct (s : Registry Bitvec π) : Prop :=
  (∀ a b x y, s.heap a = some x → s.heap b = some y → x.mtxpId = y.mtxpId → a = b) ∧
  ∀ a x, s.heap a = some x → s.xports x.mtxpId = .ref a

/-- No live transport holds `id`. -/
def Unheld (s : Registry Bitvec π) (id : Nat) : Prop := ∀ a x, s.heap a = some x → x.mtxpId ≠ id

/-- If every id up to the high-water mark is taken, then the word of the next id, where the table
still has one, is inside the block that `bitvec_init` allocated. -/
def RoomForId (s : Registry Bitvec π) : Prop :=
  s.xportsMaxid = sizeMax ∨ s.xportsSize ≤ s.xportsMaxid + 1 ∨
    (∃ id ∈ List.range (s.xportsMaxid + 1), s.xportsIdset.bit id = false) ∨
    Bitvec.wpos (s.xportsMaxid + 1) < s.xportsIdset.vec.length

/-- The condition on one call. An unregistration clears a bit whose least index is its own id or is
vacant; a registration finds room in the bit vector. -/
def CleanOp (s : Registry Bitvec π) : RegOp π → Prop
  | .unregister a => match s.heap a with
      | none => True
      | some x => Bitvec.leastSharing x.mtxpId = x.mtxpId ∨
          s.xports (Bitvec.leastSharing x.mtxpId) = .bad
  | _ => RoomForId s

instance roomForIdDecidable (s : Registry Bitvec π) : Decidable (RoomForId s) :=
  inferInstanceAs (Decidable (_ ∨ _ ∨ (∃ id ∈ List.range _, _) ∨ _))

instance cleanOpDecidable (s : Registry Bitvec π) : (op : RegOp π) → Decidable (CleanOp s op)
  | .register .. => roomForIdDecidable s
  | .clone .. => roomForIdDecidable s
  | .unregister a => match h : s.heap a with
      | none => isTrue (by simp [CleanOp, h])
      | some x => decidable_of_iff (Bitvec.leastSharing x.mtxpId = x.mtxpId ∨
          s.xports (Bitvec.leastSharing x.mtxpId) = .bad) (by simp [CleanOp, h])

/-! ### The scan -/

theorem xprtIdScan_ok {bv : Bitvec} {left id r : Nat} (h : xprtIdScan bv left id = .ok r) :
    id ≤ r ∧ r ≤ id + left ∧ (∀ i, id ≤ i → i < r → bv.bit i = true) ∧
      (r < id + left → bv.bit r = false) := by
  induction left generalizing id with
  | zero =>
      cases h
      exact ⟨le_refl _, le_refl _, fun i h1 h2 => by omega, fun hlt => by omega⟩
  | succ left ih =>
      obtain ⟨b, hb, h⟩ := bind_ok h
      obtain ⟨_, hbit⟩ := Bitvec.get_ok hb
      cases b with
      | false =>
          cases h
          exact ⟨le_refl _, by omega, fun i h1 h2 => by omega, fun _ => hbit⟩
      | true =>
          obtain ⟨h1, h2, h3, h4⟩ := ih h
          refine ⟨by omega, by omega, fun i hi hir => ?_, fun hlt => h4 (by omega)⟩
          by_cases hid : i = id
          · rw [hid]
            exact hbit
          · exact h3 i (by omega) hir

theorem xprtIdScan_total {bv : Bitvec} {left id : Nat}
    (h : ∀ i, id ≤ i → i < id + left → bv.InBounds i) : ∃ r, xprtIdScan bv left id = .ok r := by
  induction left generalizing id with
  | zero => exact ⟨id, rfl⟩
  | succ left ih =>
      have hget : IdSet.getBit bv id = .ok (bv.bit id) :=
        Bitvec.get_of_inBounds (h id (le_refl _) (by omega))
      have hrest : ∀ i, id + 1 ≤ i → i < id + 1 + left → bv.InBounds i :=
        fun i h1 h2 => h i (by omega) (by omega)
      obtain ⟨r, hr⟩ := ih hrest
      rw [xprtIdScan, hget]
      cases bv.bit id with
      | false => exact ⟨id, rfl⟩
      | true => exact ⟨r, hr⟩

theorem xprtIdChoose_ok {s : Registry Bitvec π} {id maxid : Nat}
    (h : s.xprtIdChoose = .ok (id, maxid)) :
    (s.xportsMaxid = sizeMax ∧ id = 0 ∧ maxid = 0) ∨
    (s.xportsMaxid ≠ sizeMax ∧ id ≤ s.xportsMaxid + 1 ∧ maxid = max s.xportsMaxid id ∧
      (∀ i, i < id → s.xportsIdset.bit i = true) ∧
      (id ≤ s.xportsMaxid → s.xportsIdset.bit id = false)) := by
  unfold xprtIdChoose at h
  split at h
  · rename_i hmax
    cases h
    exact Or.inl ⟨hmax, rfl, rfl⟩
  · rename_i hmax
    obtain ⟨r, hr, hpure⟩ := bind_ok h
    cases hpure
    obtain ⟨_, hle, hset, hclear⟩ := xprtIdScan_ok hr
    refine Or.inr ⟨hmax, by omega, ?_, fun i hi => hset i (Nat.zero_le _) hi, fun hid => hclear (by omega)⟩
    split <;> omega

/-! ### The invariant -/

/-- The bit vector fits the table, and the high-water mark has a bit in it. -/
structure IdSetInv (s : Registry Bitvec π) : Prop where
  size_le : s.xportsSize ≤ fdSetsize
  sz : s.xportsIdset.sz = s.xportsSize
  words : s.xportsIdset.vec.length = Bitvec.wordCount s.xportsSize
  maxid : s.xportsMaxid = sizeMax ∨ s.xportsIdset.InBounds s.xportsMaxid

/-- The tables and the live transports agree, and the bit of every live id that is least on its bit
is set. The bit of any other live id may be clear. -/
structure IdInv (s : Registry Bitvec π) : Prop extends IdSetInv s where
  held : ∀ a x, s.heap a = some x →
    s.xportsMaxid ≠ sizeMax ∧ x.mtxpId ≤ s.xportsMaxid ∧ s.xports x.mtxpId = .ref a
  entry : ∀ id a, s.xports id = .ref a → ∃ x, s.heap a = some x ∧ x.mtxpId = id
  least : ∀ a x, s.heap a = some x → Bitvec.leastSharing x.mtxpId = x.mtxpId →
    s.xportsIdset.bit x.mtxpId = true

namespace IdSetInv

variable {s : Registry Bitvec π}

theorem no_wrap (h : IdSetInv s) {id : Nat} (hid : id < s.xportsSize) : id + 63 < sizeRange := by
  have := h.size_le
  simp only [fdSetsize, sizeRange] at *
  omega

theorem maxid_lt (h : IdSetInv s) (hmax : s.xportsMaxid ≠ sizeMax) : s.xportsMaxid < s.xportsSize := by
  rw [← h.sz]
  exact (h.maxid.resolve_left hmax).1

/-- Words are used in order, so everything below a defined index is defined. -/
theorem inBounds_of_le (h : IdSetInv s) {i j : Nat} (hij : i ≤ j) (hj : s.xportsIdset.InBounds j) :
    s.xportsIdset.InBounds i := by
  have hjs : j < s.xportsSize := by
    rw [← h.sz]
    exact hj.1
  have hwj := hj.2
  rw [Bitvec.wpos_of_lt (h.no_wrap hjs)] at hwj
  refine ⟨lt_of_le_of_lt hij hj.1, ?_⟩
  rw [Bitvec.wpos_of_lt (h.no_wrap (lt_of_le_of_lt hij hjs))]
  omega

end IdSetInv

theorem idInv_createXports (dtablesize : Nat) :
    IdInv (createXports dtablesize : Registry Bitvec π) := by
  refine ⟨⟨?_, rfl, ?_, Or.inl rfl⟩, ?_, ?_, ?_⟩
  · simp only [createXports]
    split <;> omega
  · exact List.length_replicate
  · intro a x h
    cases h
  · intro id a h
    cases h
  · intro a x h
    cases h

namespace IdInv

variable {s t : Registry Bitvec π} {a : Addr} {x : Svcxprt π}

theorem idsDistinct (h : IdInv s) : IdsDistinct s := by
  refine ⟨fun a b x y hx hy hid => ?_, fun a x hx => (h.held a x hx).2.2⟩
  have hxa := (h.held a x hx).2.2
  have hyb := (h.held b y hy).2.2
  rw [hid, hyb] at hxa
  exact (XprtPtr.ref.inj hxa).symm

theorem id_lt (h : IdInv s) (hx : s.heap a = some x) : x.mtxpId < s.xportsSize := by
  obtain ⟨hmax, hle, _⟩ := h.held a x hx
  exact lt_of_le_of_lt hle (h.maxid_lt hmax)

/-- Whatever id the allocator settles on, no live transport holds it. -/
theorem unheld_of_choose (h : IdInv s) {id maxid : Nat} (hchoose : s.xprtIdChoose = .ok (id, maxid)) :
    Unheld s id := by
  intro b y hy heq
  obtain ⟨hmax, hle, _⟩ := h.held b y hy
  rcases xprtIdChoose_ok hchoose with ⟨hnone, _, _⟩ | ⟨_, _, _, hset, hclear⟩
  · exact hmax hnone
  · -- The scan stopped at a clear bit, all bits before it being set: `id` is least on its bit.
    have hle' : id ≤ s.xportsMaxid := heq ▸ hle
    have hwrap := h.no_wrap (lt_of_le_of_lt hle' (h.maxid_lt hmax))
    have hself : Bitvec.leastSharing id = id := by
      rcases Nat.lt_or_ge (Bitvec.leastSharing id) id with hlt | hge
      · have htrue := hset _ hlt
        rw [Bitvec.bit_congr _ (Bitvec.leastSharing_sameBit hwrap), hclear hle'] at htrue
        cases htrue
      · exact le_antisymm (Bitvec.leastSharing_le id) hge
    have hbit := h.least b y hy (by rw [heq, hself])
    rw [heq, hclear hle'] at hbit
    cases hbit

/-- Registering a freshly constructed transport keeps the invariant. -/
theorem xprtRegister (h : IdInv s) (ha : s.heap a = none) (hid : x.mtxpId = xprtIdInvalid)
    (hreg : (s.store a x).xprtRegister a = .ok t) : IdInv t := by
  obtain ⟨id, s₁, halloc, hent⟩ := xprtRegister_ok (Function.update_self ..) hid hreg
  obtain ⟨maxid, idset, hchoose, hlt, hset, rfl⟩ := xprtIdAlloc_ok halloc
  change s.xprtIdChoose = .ok (id, maxid) at hchoose
  have hunheld := h.unheld_of_choose hchoose
  obtain ⟨hin, hsz, hlen, hbit⟩ := Bitvec.set_ok hset
  have hmaxid : maxid ≠ sizeMax ∧ id ≤ maxid ∧ idset.InBounds maxid ∧
      (s.xportsMaxid ≠ sizeMax → s.xportsMaxid ≤ maxid) := by
    have hin' : idset.InBounds id := ⟨hsz ▸ hin.1, hlen ▸ hin.2⟩
    rcases xprtIdChoose_ok hchoose with ⟨hmax, rfl, rfl⟩ | ⟨hmax, _, rfl, _, _⟩
    · exact ⟨by decide, le_refl _, hin', fun hne => absurd hmax hne⟩
    · have hold := h.maxid.resolve_left hmax
      have hold' : idset.InBounds s.xportsMaxid := ⟨hsz ▸ hold.1, hlen ▸ hold.2⟩
      rcases Nat.le_total s.xportsMaxid id with hle | hle
      · rw [max_eq_right hle]
        refine ⟨?_, le_refl _, hin', fun _ => hle⟩
        have := h.no_wrap hlt
        simp only [sizeMax, sizeRange] at *
        omega
      · rw [max_eq_left hle]
        exact ⟨hmax, hle, hold', fun _ => le_refl _⟩
  obtain ⟨hne, hidle, hinb, hgrow⟩ := hmaxid
  have hheap := fun b => hent.core_registered rfl b
  have hlive : ∀ b y, t.heap b = some y →
      (b = a ∧ y.mtxpId = id) ∨ ∃ y', s.heap b = some y' ∧ y.mtxpId = y'.mtxpId := by
    intro b y hy
    rcases core_update_cases hheap hy with ⟨hb, hcore⟩ | ⟨_, y', hy', hcore⟩
    · exact Or.inl ⟨hb, Svcxprt.mtxpId_of_core hcore⟩
    · exact Or.inr ⟨y', hy', Svcxprt.mtxpId_of_core hcore⟩
  refine ⟨⟨?_, ?_, ?_, ?_⟩, ?_, ?_, ?_⟩
  · rw [hent.size]
    exact h.size_le
  · rw [hent.idset, hent.size]
    exact hsz.trans h.sz
  · rw [hent.idset, hent.size]
    exact hlen.trans h.words
  · rw [hent.idset, hent.maxid]
    exact Or.inr hinb
  · intro b y hy
    rw [hent.maxid, hent.xports]
    refine ⟨hne, ?_⟩
    rcases hlive b y hy with ⟨rfl, hyid⟩ | ⟨y', hy', hyid⟩
    · rw [hyid, Function.update_self]
      exact ⟨hidle, rfl⟩
    · obtain ⟨hmax, hle, hat⟩ := h.held b y' hy'
      rw [hyid, Function.update_of_ne (hunheld b y' hy')]
      exact ⟨hle.trans (hgrow hmax), hat⟩
  · exact entries_registered h.entry ha hent.xports hheap
  · intro b y hy hleast
    rw [hent.idset]
    change idset.bit y.mtxpId = true
    rw [hbit]
    rcases hlive b y hy with ⟨rfl, hyid⟩ | ⟨y', hy', hyid⟩
    · rw [hyid, decide_eq_true (Bitvec.SameBit.refl id), Bool.true_or]
    · rw [hyid] at hleast ⊢
      have hold : s.xportsIdset.bit y'.mtxpId = true := h.least b y' hy' hleast
      change (_ || s.xportsIdset.bit y'.mtxpId) = true
      rw [hold, Bool.or_true]

/-- Destroying a transport keeps the invariant when the least index on its bit is its own or is
vacant. -/
theorem svcDestroy (h : IdInv s) (hclean : CleanOp s (.unregister a)) (hdes : s.svcDestroy a = .ok t) :
    IdInv t := by
  obtain ⟨x, hx, hd⟩ := svcDestroy_ok hdes
  obtain ⟨_, hsz, hlen, hbit⟩ := Bitvec.clr_ok hd.clr
  rw [CleanOp, hx] at hclean
  dsimp only at hclean
  have hlive : ∀ b y, t.heap b = some y → b ≠ a ∧ ∃ y', s.heap b = some y' ∧ y.mtxpId = y'.mtxpId := by
    intro b y hy
    obtain ⟨hb, y', hy', hcore⟩ := hd.live_before hy
    exact ⟨hb, y', hy', Svcxprt.mtxpId_of_core hcore⟩
  have hother : ∀ b y', b ≠ a → s.heap b = some y' → y'.mtxpId ≠ x.mtxpId :=
    fun b y' hb hy' heq => hb (h.idsDistinct.1 b a y' x hy' hx heq)
  refine ⟨⟨?_, ?_, ?_, ?_⟩, ?_, ?_, ?_⟩
  · rw [hd.size]
    exact h.size_le
  · rw [hd.size, hsz]
    exact h.sz
  · rw [hd.size, hlen]
    exact h.words
  · rw [hd.maxid]
    exact h.maxid.imp id fun hin => ⟨hsz ▸ hin.1, hlen ▸ hin.2⟩
  · intro b y hy
    obtain ⟨hb, y', hy', hyid⟩ := hlive b y hy
    rw [hd.maxid, hd.xports, hyid, Function.update_of_ne (hother b y' hb hy')]
    exact h.held b y' hy'
  · exact hd.entries h.entry hx
  · intro b y hy hleast
    obtain ⟨hb, y', hy', hyid⟩ := hlive b y hy
    rw [hyid] at hleast ⊢
    -- A live transport whose id is least on the cleared bit would hold that least index.
    have hdiff : ¬Bitvec.SameBit x.mtxpId y'.mtxpId := by
      intro hsame
      have heq := Bitvec.eq_leastSharing (h.no_wrap (h.id_lt hx)) (h.no_wrap (h.id_lt hy')) hsame hleast
      rcases hclean with hself | hvacant
      · exact hother b y' hb hy' (heq.trans hself)
      · rw [← heq, (h.held b y' hy').2.2] at hvacant
        cases hvacant
    rw [hbit, decide_eq_false hdiff, Bool.not_false, Bool.true_and]
    exact h.least b y' hy' hleast

end IdInv

theorem regStep_ok {s t : Registry Bitvec π} {op : RegOp π} (h : regStep s op = some t) :
    op.possible s = true ∧ regOp s op = .ok t := by
  unfold regStep at h
  split at h
  · rename_i hp
    refine ⟨hp, ?_⟩
    cases hr : regOp s op with
    | error e =>
        rw [hr] at h
        cases h
    | ok u =>
        rw [hr] at h
        exact congrArg Except.ok (Option.some.inj h)
  · cases h

theorem idInv_regStep {s t : Registry Bitvec π} {op : RegOp π} (h : IdInv s) (hclean : CleanOp s op)
    (hst : regStep s op = some t) : IdInv t := by
  obtain ⟨hp, hop⟩ := regStep_ok hst
  cases op with
  | register a sock port clone priv stat =>
      exact h.xprtRegister (Option.isNone_iff_eq_none.mp hp) rfl hop
  | clone parent a priv =>
      obtain ⟨hnone, _⟩ := Bool.and_eq_true_iff.mp hp
      obtain ⟨px, _, hop⟩ := bind_ok hop
      exact h.xprtRegister (Option.isNone_iff_eq_none.mp hnone) rfl hop
  | unregister a => exact h.svcDestroy hclean hop

/-! ### No access outside the bit vector -/

theorem deref_word {s : Registry Bitvec π} {a : Addr} : s.deref a ≠ .error .wordOutOfBounds := by
  intro h
  unfold deref at h
  split at h <;> cases h

theorem countParent_word {s : Registry Bitvec π} {parent : Nat} {delta : Int} :
    s.countParent parent delta ≠ .error .wordOutOfBounds := by
  intro h
  rcases bind_error h with h | ⟨entry, _, h⟩
  · unfold xportsAt at h
    split at h <;> cases h
  · rcases bind_error h with h | ⟨pair, _, h⟩
    · cases entry with
      | null => cases h
      | bad => cases h
      | ref c =>
          rcases bind_error h with h | ⟨y, _, h⟩
          · exact deref_word h
          · cases h
    · cases h

theorem registerMaster_word {s : Registry Bitvec π} {a : Addr} {sock : Nat} :
    s.registerMaster a sock ≠ .error .wordOutOfBounds := by
  intro h
  rcases bind_error h with h | ⟨sxprt, _, h⟩
  · unfold sockXportsAt at h
    split at h <;> cases h
  rcases bind_error h with h | ⟨free, _, h⟩
  · cases sxprt with
    | null => cases h
    | bad => cases h
    | ref c =>
        rcases bind_error h with h | ⟨y, _, h⟩
        · exact deref_word h
        · cases h
  cases free with
  | false => cases h
  | true =>
      change initPollfd _ _ = _ at h
      unfold initPollfd at h
      split at h
      · cases h
      · split at h
        · cases h
        · split at h <;> cases h

theorem enterXports_word {s : Registry Bitvec π} {a : Addr} {x : Svcxprt π} {id : Nat} :
    s.enterXports a x id ≠ .error .wordOutOfBounds := by
  intro h
  unfold enterXports at h
  split at h
  · cases h
  · dsimp only at h
    split at h
    · exact registerMaster_word h
    · exact countParent_word h

namespace IdSetInv

variable {s : Registry Bitvec π}

/-- The scan stays below the high-water mark, whose word is inside the block. -/
theorem xprtIdChoose_total (h : IdSetInv s) : ∃ id maxid, s.xprtIdChoose = .ok (id, maxid) := by
  unfold xprtIdChoose
  split
  · exact ⟨0, 0, rfl⟩
  · rename_i hmax
    have hbounds : ∀ i, 0 ≤ i → i < 0 + (s.xportsMaxid + 1) → s.xportsIdset.InBounds i :=
      fun i _ hi => h.inBounds_of_le (by omega) (h.maxid.resolve_left hmax)
    obtain ⟨id, hid⟩ := xprtIdScan_total hbounds
    rw [hid]
    exact ⟨id, _, rfl⟩

/-- Where there is room, the bit of the id that the allocator settles on lies in the block. -/
theorem inBounds_of_choose (h : IdSetInv s) (hroom : RoomForId s) {id maxid : Nat}
    (hchoose : s.xprtIdChoose = .ok (id, maxid)) (hlt : id < s.xportsSize) :
    s.xportsIdset.InBounds id := by
  refine ⟨by rw [h.sz]; exact hlt, ?_⟩
  rcases xprtIdChoose_ok hchoose with ⟨_, rfl, _⟩ | ⟨hmax, hle, _, hset, _⟩
  · have hwords := h.words
    have hsize := h.size_le
    simp only [Bitvec.wordCount, bitSize, fdSetsize, sizeRange] at hwords hsize
    simp only [Bitvec.wpos, bitSize, sizeRange]
    omega
  · by_cases hold : id ≤ s.xportsMaxid
    · exact (h.inBounds_of_le hold (h.maxid.resolve_left hmax)).2
    · have hnew : id = s.xportsMaxid + 1 := by omega
      subst hnew
      rcases hroom with hroom | hroom | ⟨i, hi, hclear⟩ | hroom
      · exact absurd hroom hmax
      · omega
      · rw [hset i (List.mem_range.mp hi)] at hclear
        cases hclear
      · exact hroom

theorem xprtIdAlloc_word (h : IdSetInv s) (hroom : RoomForId s) :
    s.xprtIdAlloc ≠ .error .wordOutOfBounds := by
  intro herr
  obtain ⟨id, maxid, hchoose⟩ := h.xprtIdChoose_total
  rw [xprtIdAlloc, hchoose] at herr
  change (if s.xportsSize ≤ id then _ else _) = _ at herr
  split at herr
  · cases herr
  · rename_i hlt
    obtain ⟨idset, hidset⟩ := Bitvec.set_of_inBounds (h.inBounds_of_choose hroom hchoose (by omega))
    rw [show IdSet.setBit s.xportsIdset id = .ok idset from hidset] at herr
    cases herr

theorem xprtRegister_word (h : IdSetInv s) (hroom : RoomForId s) {a : Addr} {x : Svcxprt π}
    (hid : x.mtxpId = xprtIdInvalid) :
    (s.store a x).xprtRegister a ≠ .error .wordOutOfBounds := by
  intro herr
  rcases bind_error herr with herr | ⟨y, hy, herr⟩
  · exact deref_word herr
  have hself : (s.store a x).heap a = some x := Function.update_self ..
  cases hself.symm.trans (deref_ok hy)
  rw [if_pos hid] at herr
  -- The allocator does not look at the heap.
  have hstore : IdSetInv (s.store a x) := ⟨h.size_le, h.sz, h.words, h.maxid⟩
  rcases bind_error herr with herr | ⟨r, _, herr⟩
  · exact hstore.xprtIdAlloc_word hroom herr
  · exact enterXports_word herr

end IdSetInv

theorem releaseSocket_ok {s t : Registry Bitvec π} {x : Svcxprt π} (h : s.releaseSocket x = .ok t) :
    t.xportsIdset = s.xportsIdset := by
  unfold releaseSocket at h
  split at h
  · split at h
    · cases h
      rfl
    · cases h
  · obtain ⟨p, px, _, _, rfl⟩ := countParent_ok h
    rfl

/-- The bit of a live id is inside the block, so destroying its transport stays inside it. -/
theorem IdInv.svcDestroy_word {s : Registry Bitvec π} (h : IdInv s) {a : Addr} :
    s.svcDestroy a ≠ .error .wordOutOfBounds := by
  intro herr
  rcases bind_error herr with herr | ⟨t, _, herr⟩
  · rcases bind_error herr with herr | ⟨x, hx, herr⟩
    · exact deref_word herr
    obtain ⟨hmax, hle, _⟩ := h.held a x (deref_ok hx)
    rcases bind_error herr with herr | ⟨entry, _, herr⟩
    · unfold xportsAt at herr
      split at herr <;> cases herr
    split at herr
    · cases herr
    split at herr
    · cases herr
    rcases bind_error herr with herr | ⟨u, hu, herr⟩
    · unfold releaseSocket at herr
      split at herr
      · split at herr <;> cases herr
      · exact countParent_word herr
    · unfold unregisterId at herr
      split at herr
      · cases herr
      · have hin : u.xportsIdset.InBounds x.mtxpId := by
          rw [releaseSocket_ok hu]
          exact h.inBounds_of_le hle (h.maxid.resolve_left hmax)
        obtain ⟨idset, hidset⟩ := Bitvec.clr_of_inBounds hin
        rw [show IdSet.clrBit u.xportsIdset x.mtxpId = .ok idset from hidset] at herr
        cases herr
  · cases herr

theorem IdInv.regOp_word {s : Registry Bitvec π} (h : IdInv s) {op : RegOp π} (hclean : CleanOp s op) :
    regOp s op ≠ .error .wordOutOfBounds := by
  intro herr
  cases op with
  | register a sock port clone priv stat => exact h.xprtRegister_word hclean rfl herr
  | clone parent a priv =>
      rcases bind_error herr with herr | ⟨px, _, herr⟩
      · exact deref_word herr
      · exact h.xprtRegister_word hclean rfl herr
  | unregister a => exact h.svcDestroy_word herr

/-! ### Every clean history -/

/-- In every history of clean calls, whatever its length and order, live transports hold distinct ids
and are found under them, the next id handed out is held by nobody, and the next clean call stays
inside the bit vector. -/
theorem ids_distinct_of_clean {dtablesize : Nat} {s : Registry Bitvec π}
    (h : Reached regStep CleanOp (createXports dtablesize) s) :
    IdsDistinct s ∧ (∀ id s', s.xprtIdAlloc = .ok (id, s') → Unheld s id) ∧
      ∀ op, CleanOp s op → regOp s op ≠ .error .wordOutOfBounds := by
  have hinv : IdInv s :=
    h.invariant IdInv (idInv_createXports dtablesize) fun _ _ _ hi hok hst => idInv_regStep hi hok hst
  refine ⟨hinv.idsDistinct, fun id s' halloc => ?_, fun op hclean => hinv.regOp_word hclean⟩
  obtain ⟨maxid, idset, hchoose, _⟩ := xprtIdAlloc_ok halloc
  exact hinv.unheld_of_choose hchoose

/-- Accept connection `i` on descriptor `i`. -/
def acceptOp (i : Nat) : RegOp Unit := .register i i 0 false () .idle

/-- Two connections accepted, the first closed, a third accepted: a clean history. -/
theorem ids_distinct_after_close : ∃ s : Registry Bitvec Unit,
    exec regStep CleanOp (createXports 1024) [acceptOp 0, acceptOp 1, .unregister 0, acceptOp 2] =
      some s ∧ IdsDistinct s := by
  have hrun : (exec regStep CleanOp (createXports 1024 : Registry Bitvec Unit)
      [acceptOp 0, acceptOp 1, .unregister 0, acceptOp 2]).isSome = true := by decide +kernel
  obtain ⟨s, hs⟩ := Option.isSome_iff_exists.mp hrun
  exact ⟨s, hs, (ids_distinct_of_clean (reached_of_exec regStep CleanOp .start _ hs)).1⟩

/-- Ten connections hold the ids 0 to 9; ids 1 and 9 share a bit, so after the tenth closes the next
connection is given id 1, which is still held. -/
theorem ids_collide_after_close : ∃ (ops : List (RegOp Unit)) (s : Registry Bitvec Unit),
    ops.length < s.xportsSize ∧ exec regStep anyStep (createXports 1024) ops = some s ∧
      ¬IdsDistinct s := by
  have hrun : ((exec regStep anyStep (createXports 1024 : Registry Bitvec Unit)
      ((List.range 10).map acceptOp ++ [.unregister 9, acceptOp 9])).map fun s =>
        (s.xportsSize, (s.heap 1).map Svcxprt.mtxpId, (s.heap 9).map Svcxprt.mtxpId)) =
      some (1024, some 1, some 1) := by decide +kernel
  obtain ⟨s, hs, heq⟩ := Option.map_eq_some_iff.mp hrun
  obtain ⟨hsize, h1, h9⟩ : s.xportsSize = 1024 ∧ (s.heap 1).map Svcxprt.mtxpId = some 1 ∧
      (s.heap 9).map Svcxprt.mtxpId = some 1 := by simpa using heq
  obtain ⟨x, hx, hxid⟩ := Option.map_eq_some_iff.mp h1
  obtain ⟨y, hy, hyid⟩ := Option.map_eq_some_iff.mp h9
  refine ⟨_, s, ?_, hs, fun hdistinct => ?_⟩
  · rw [hsize]
    decide
  · have hsame := hdistinct.1 1 9 x y hx hy (hxid.trans hyid.symm)
    cases hsame

end RpcMt.Registry
