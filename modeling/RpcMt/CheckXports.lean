import Mathlib.Data.Nat.Count
import RpcMt.FewIds

/-! What `check_xports` finds out, over id sets that are exact. It reads the table three times and compares each
reference count with the number of clones that it counts; where what it reads is there, its verdict is that the
tables agree, as far as it looks: of a master's socket it asks only that some transport is entered there. No history
of registrations, clonings and destructions in good order makes it complain, nor does one over the sets of `bitvec.c`
that never has more than nine transports. -/

open RpcMt.Runs

namespace RpcMt.Registry

variable {π : Type} {s : Registry ExactSet π}

/-- The transport `x` at `a` is under `id`. -/
def Under (s : Registry ExactSet π) (id : Nat) (a : Addr) (x : Svcxprt π) : Prop :=
  s.xports id = .ref a ∧ s.heap a = some x

/-- Under `id` is a clone whose parent's slot holds `a`. -/
def isCloneOf (s : Registry ExactSet π) (a : Addr) (id : Nat) : Bool :=
  match s.xports id with
  | .ref b => match s.heap b with
    | some y => y.mtxpParent != noParent && decide (s.xports y.mtxpParent = .ref a)
    | none => false
  | _ => false

/-- The clones of the transport at `a` among the ids below `n`. -/
def clonesBelow (s : Registry ExactSet π) (a : Addr) (n : Nat) : Nat := Nat.count (fun id => s.isCloneOf a id = true) n

/-- What `check_xports` reads is there: the pointers lead to transports, and the indices are inside the tables. -/
structure Scannable (s : Registry ExactSet π) : Prop where
  size : s.xportsSize ≤ fdSetsize
  maxid : s.xportsMaxid < s.xportsSize
  sz : s.xportsIdset.sz = s.xportsSize
  live : ∀ id a, s.xports id = .ref a → ∃ x, s.heap a = some x
  sock : ∀ id a x, s.Under id a x → x.mtxpParent = noParent → x.xpSock < s.xportsSize
  parent : ∀ id a x, s.Under id a x → x.mtxpParent ≠ noParent →
    x.mtxpParent < s.xportsSize ∧ ∃ p, s.xports x.mtxpParent = .ref p

/-- What `check_xports` asks of the tables. Under the socket of a master it takes any pointer to a transport. -/
structure Checked (s : Registry ExactSet π) : Prop where
  distinct : ∀ i j, i < j → j ≤ s.xportsMaxid → s.xports i ≠ .bad → s.xports j ≠ s.xports i
  noNull : ∀ id, id ≤ s.xportsMaxid → s.xports id ≠ .null
  masters : ∀ id a x, id ≤ s.xportsMaxid → s.Under id a x → x.mtxpParent = noParent →
    (∃ b, s.sockXports x.xpSock = .ref b) ∧ id ∈ s.xportsIdset.ids
  refcnt : ∀ id a x, id ≤ s.xportsMaxid → s.Under id a x →
    x.mtxpRefcnt = (s.clonesBelow a (s.xportsMaxid + 1) : Nat)

/-! ### What it finds at one id -/

/-- Two slots with one pointer. -/
def Duplicate (s : Registry ExactSet π) (i : Nat) : Prop :=
  ∃ j, i < j ∧ j ≤ s.xportsMaxid ∧ s.xports i ≠ .bad ∧ s.xports j = s.xports i

/-- A master with no transport under its socket or with its id not in the set, or a pointer that leads nowhere. -/
def Misplaced (s : Registry ExactSet π) (i : Nat) : Prop :=
  s.xports i = .null ∨ ∃ a x, s.Under i a x ∧ x.mtxpParent = noParent ∧
    ¬((∃ b, s.sockXports x.xpSock = .ref b) ∧ i ∈ s.xportsIdset.ids)

/-- A reference count that is not the number that was counted. -/
def Miscounted (s : Registry ExactSet π) (fsckRefcnt : Addr → Int) (i : Nat) : Prop :=
  s.xports i = .null ∨ ∃ a x, s.Under i a x ∧ x.mtxpRefcnt ≠ fsckRefcnt a

namespace Scannable

/-! ### One scan -/

theorem lt_sizeMax (h : Scannable s) : s.xportsMaxid < sizeMax := by
  have hmax := h.maxid
  have hsize := h.size
  simp only [fdSetsize] at hsize
  simp only [sizeMax, sizeRange]
  omega

theorem xportsAt_eq (h : Scannable s) {id : Nat} (hid : id ≤ s.xportsMaxid) : s.xportsAt id = .ok (s.xports id) := by
  have hmax := h.maxid
  rw [xportsAt, if_pos (by omega)]

/-- A scan up to the high-water mark comes to its end, if every turn does. -/
theorem scan (h : Scannable s) {α : Type} {body : Nat → α → Res α} (inv : Nat → α → Prop)
    (hbody : ∀ id st, inv id st → id ≤ s.xportsMaxid → ∃ st', body id st = .ok st' ∧ inv (id + 1) st')
    {turns id : Nat} {st : α} (hid : id ≤ s.xportsMaxid + 1) (hturns : s.xportsMaxid + 1 < id + turns)
    (hst : inv id st) :
    ∃ st', forIds (fun id _ => s.idIsValid id) body turns id st = .ok st' ∧ inv (s.xportsMaxid + 1) st' :=
  forIds_ok h.lt_sizeMax (fun id _ _ => by rw [idIsValid, decide_eq_true_iff]) hbody hid hturns hst

/-- An error flag that is raised at the ids that are bad. -/
def Flag (before : Bool) (bad : Nat → Prop) (id : Nat) (err : Bool) : Prop :=
  err = true ↔ before = true ∨ ∃ i, i < id ∧ bad i

theorem Flag.start {before : Bool} {bad : Nat → Prop} {id : Nat} (h : ∀ i, i < id → ¬bad i) :
    Flag before bad id before := by
  refine ⟨Or.inl, fun hor => ?_⟩
  obtain hbefore | ⟨i, hi, hbad⟩ := hor
  · exact hbefore
  · exact absurd hbad (h i hi)

theorem Flag.next {before err err' : Bool} {bad : Nat → Prop} {id : Nat} (h : Flag before bad id err)
    (hnext : err' = true ↔ err = true ∨ bad id) : Flag before bad (id + 1) err' := by
  unfold Flag at h ⊢
  rw [hnext, h, or_assoc]
  refine or_congr Iff.rfl ?_
  constructor
  · rintro (⟨i, hi, hbad⟩ | hbad)
    · exact ⟨i, by omega, hbad⟩
    · exact ⟨id, Nat.lt_succ_self id, hbad⟩
  · rintro ⟨i, hi, hbad⟩
    rcases Nat.lt_succ_iff_lt_or_eq.mp hi with hlt | rfl
    · exact Or.inl ⟨i, hlt, hbad⟩
    · exact Or.inr hbad

/-- One turn of a loop of `check_xports`: at a vacant slot, at a null pointer, at a transport. -/
theorem turn (h : Scannable s) {f : Nat → Addr → Svcxprt π → Fsck → Res Fsck} {P : Fsck → Prop} {id : Nat}
    {st : Fsck} (hid : id ≤ s.xportsMaxid) (hbad : s.xports id = .bad → P st)
    (hnull : s.xports id = .null → P { st with err := true })
    (href : ∀ a x, s.Under id a x → ∃ st', f id a x st = .ok st' ∧ P st') :
    ∃ st', s.fsckTurn f id st = .ok st' ∧ P st' := by
  unfold fsckTurn
  rw [h.xportsAt_eq hid]
  cases hslot : s.xports id with
  | bad => exact ⟨st, rfl, hbad hslot⟩
  | null => exact ⟨_, rfl, hnull hslot⟩
  | ref a =>
      obtain ⟨x, hx⟩ := h.live id a hslot
      obtain ⟨st', hst', hinv⟩ := href a x ⟨hslot, hx⟩
      refine ⟨st', ?_, hinv⟩
      show ((s.deref a >>= fun x => pure (a, x)) >>= fun p => f id p.1 p.2 st) = _
      rw [deref_of_heap hx]
      exact hst'

/-! ### The four loops -/

theorem duplicates (h : Scannable s) {turns : Nat} (hturns : s.xportsMaxid + 1 < turns) :
    ∃ err, s.checkXportsDuplicates turns = .ok err ∧ Flag false (Duplicate s) (s.xportsMaxid + 1) err := by
  refine h.scan (Flag false (Duplicate s)) ?_ (Nat.zero_le _) (by omega) (.start fun i hi => by omega)
  intro id err herr hid
  unfold duplicatesTurn
  rw [h.xportsAt_eq hid]
  by_cases hslot : s.xports id = .bad
  · refine ⟨err, ?_, herr.next ⟨Or.inl, fun hor => ?_⟩⟩
    · show (if s.xports id = .bad then _ else _) = _
      rw [if_pos hslot]
      rfl
    · obtain herr' | ⟨_, _, _, hne, _⟩ := hor
      · exact herr'
      · exact absurd hslot hne
  · have hwrap : (id + 1) % sizeRange = id + 1 := by
      have hmax := h.lt_sizeMax
      simp only [sizeMax, sizeRange] at hmax ⊢
      omega
    have hinner : ∃ err', forIds (fun id _ => s.idIsValid id) (s.duplicateTurn (s.xports id)) turns (id + 1) err =
        .ok err' ∧ id < s.xportsMaxid + 1 ∧
          Flag err (fun j => id < j ∧ s.xports j = s.xports id) (s.xportsMaxid + 1) err' := by
      refine h.scan (fun j err' => id < j ∧ Flag err (fun j => id < j ∧ s.xports j = s.xports id) j err') ?_
        (by omega) (by omega) ⟨Nat.lt_succ_self id, .start fun i hi hbad => by omega⟩
      intro j err' hinv hj
      unfold duplicateTurn
      rw [h.xportsAt_eq hj]
      refine ⟨_, rfl, by omega, hinv.2.next ?_⟩
      rw [Bool.or_eq_true, decide_eq_true_iff]
      refine or_congr Iff.rfl ⟨fun hsame => ⟨hinv.1, hsame.2⟩, fun hsame => ⟨?_, hsame.2⟩⟩
      rw [hsame.2]
      exact hslot
    obtain ⟨err', hrun, _, hflag⟩ := hinner
    refine ⟨err', ?_, herr.next ?_⟩
    · show (if s.xports id = .bad then _ else _) = _
      rw [if_neg hslot, hwrap]
      exact hrun
    · refine Iff.trans hflag (or_congr Iff.rfl ?_)
      constructor
      · rintro ⟨j, hj, hlt, heq⟩
        exact ⟨j, hlt, by omega, hslot, heq⟩
      · rintro ⟨j, hlt, hj, _, heq⟩
        exact ⟨j, by omega, hlt, heq⟩

section Loops

variable {turns : Nat} (hturns : s.xportsMaxid + 1 < turns)

include hturns

theorem clears (h : Scannable s) (st : Fsck) :
    ∃ st', s.fsckLoop fsckClear turns st = .ok st' ∧
      Flag st.err (fun i => s.xports i = .null) (s.xportsMaxid + 1) st'.err ∧
      ∀ i a, i < s.xportsMaxid + 1 → s.xports i = .ref a → st'.fsckRefcnt a = 0 := by
  refine h.scan (fun n (st' : Fsck) => Flag st.err (fun i => s.xports i = .null) n st'.err ∧
    ∀ i a, i < n → s.xports i = .ref a → st'.fsckRefcnt a = 0) ?_ (Nat.zero_le _) (by omega)
    ⟨.start fun i hi => by omega, fun i a hi => by omega⟩
  rintro id st₁ ⟨hflag, hzero⟩ hid
  have hbefore : ∀ i a, i < id + 1 → s.xports i = .ref a → i ≠ id → st₁.fsckRefcnt a = 0 :=
    fun i a hi ha hne => hzero i a (by omega) ha
  refine h.turn hid (fun hbad => ⟨hflag.next ?_, fun i a hi ha => ?_⟩)
    (fun hnull => ⟨hflag.next ?_, fun i a hi ha => ?_⟩) fun a x hx => ⟨_, rfl, hflag.next ?_, fun i b hi hb => ?_⟩
  · simp [hbad]
  · refine hbefore i a hi ha ?_
    rintro rfl
    rw [hbad] at ha
    cases ha
  · simp [hnull]
  · refine hbefore i a hi ha ?_
    rintro rfl
    rw [hnull] at ha
    cases ha
  · simp [hx.1]
  · show Function.update st₁.fsckRefcnt a 0 b = 0
    by_cases hba : b = a
    · rw [hba, Function.update_self]
    · rw [Function.update_of_ne hba]
      refine hbefore i b hi hb ?_
      rintro rfl
      rw [hx.1] at hb
      exact hba (XprtPtr.ref.inj hb).symm

omit hturns in
theorem clonesBelow_succ (a : Addr) (n : Nat) :
    s.clonesBelow a (n + 1) = s.clonesBelow a n + if s.isCloneOf a n then 1 else 0 := by
  rw [clonesBelow, Nat.count_succ]
  rfl

omit hturns in
/-- Below `id` there are as many clones as before, unless a clone is there. -/
theorem clonesBelow_of_not {id : Nat} {a : Addr} (h : s.isCloneOf a id = false) :
    s.clonesBelow a (id + 1) = s.clonesBelow a id := by
  rw [clonesBelow_succ, h]
  rfl

omit hturns in
theorem misplaced_iff {i : Nat} {a : Addr} {x : Svcxprt π} (hx : s.Under i a x) : Misplaced s i ↔
    x.mtxpParent = noParent ∧ ¬((∃ b, s.sockXports x.xpSock = .ref b) ∧ i ∈ s.xportsIdset.ids) := by
  constructor
  · rintro (hnull | ⟨b, y, hy, hmis⟩)
    · rw [hx.1] at hnull
      cases hnull
    · cases hx.1.symm.trans hy.1
      cases hx.2.symm.trans hy.2
      exact hmis
  · exact fun hmis => Or.inr ⟨a, x, hx, hmis⟩

omit hturns in
theorem isValidSvcxprt_iff (ptr : XprtPtr) : isValidSvcxprt ptr = true ↔ ∃ b, ptr = .ref b := by
  cases ptr with
  | null => simp [isValidSvcxprt]
  | bad => simp [isValidSvcxprt]
  | ref b => simp [isValidSvcxprt]

theorem counts (h : Scannable s) (st : Fsck) :
    ∃ st', s.fsckLoop s.fsckCount turns st = .ok st' ∧
      Flag st.err (Misplaced s) (s.xportsMaxid + 1) st'.err ∧
      ∀ a, st'.fsckRefcnt a = st.fsckRefcnt a + (s.clonesBelow a (s.xportsMaxid + 1) : Nat) := by
  refine h.scan (fun n (st' : Fsck) => Flag st.err (Misplaced s) n st'.err ∧
    ∀ a, st'.fsckRefcnt a = st.fsckRefcnt a + (s.clonesBelow a n : Nat)) ?_ (Nat.zero_le _) (by omega)
    ⟨.start fun i hi => by omega, fun a => (Int.add_zero _).symm⟩
  rintro id st₁ ⟨hflag, hcount⟩ hid
  have hmaxid := h.maxid
  refine h.turn hid (fun hbad => ⟨hflag.next ⟨Or.inl, fun hor => ?_⟩, fun a => ?_⟩)
    (fun hnull => ⟨hflag.next ?_, fun a => ?_⟩) fun a x hx => ?_
  · obtain herr | hnull | ⟨a, x, hx, _⟩ := hor
    · exact herr
    · rw [hbad] at hnull
      cases hnull
    · rw [Under, hbad] at hx
      cases hx.1
  · rw [clonesBelow_of_not, hcount]
    unfold isCloneOf
    rw [hbad]
  · simp [Misplaced, hnull]
  · rw [clonesBelow_of_not]
    · exact hcount a
    · unfold isCloneOf
      rw [hnull]
  · have hmis := misplaced_iff hx
    have hclone : ∀ p, s.isCloneOf p id = (x.mtxpParent != noParent && decide (s.xports x.mtxpParent = .ref p)) := by
      intro p
      unfold isCloneOf
      rw [hx.1]
      dsimp only
      rw [hx.2]
    unfold fsckCount
    by_cases hmaster : x.mtxpParent = noParent
    · have hget : IdSet.getBit s.xportsIdset id = .ok (decide (id ∈ s.xportsIdset.ids)) :=
        ExactSet.checked_of_lt (by rw [h.sz]; omega) _
      rw [if_pos hmaster, sockXportsAt, if_pos (h.sock id a x hx hmaster), hget]
      refine ⟨_, rfl, hflag.next ?_, fun p => ?_⟩
      · rw [hmis, Bool.or_eq_true, Bool.or_eq_true, or_assoc]
        refine or_congr Iff.rfl ?_
        rw [Bool.not_eq_true', Bool.not_eq_true', ← Bool.not_eq_true, ← Bool.not_eq_true, isValidSvcxprt_iff,
          decide_eq_true_iff, ← not_and_or]
        exact ⟨fun hnot => ⟨hmaster, hnot⟩, fun hnot => hnot.2⟩
      · rw [clonesBelow_of_not]
        · exact hcount p
        · rw [hclone, hmaster]
          simp
    · obtain ⟨hlt, p, hp⟩ := h.parent id a x hx hmaster
      obtain ⟨y, hy⟩ := h.live _ p hp
      have hderef : s.derefPtr (.ref p) = .ok (p, y) := by
        rw [derefPtr, deref_of_heap hy]
        rfl
      rw [if_neg hmaster, xportsAt, if_pos hlt, hp]
      show ∃ st', (s.derefPtr (.ref p) >>= _ : Res Fsck) = .ok st' ∧ _
      rw [hderef]
      refine ⟨_, rfl, hflag.next ⟨Or.inl, fun hor => ?_⟩, fun q => ?_⟩
      · obtain herr | hmis' := hor
        · exact herr
        · exact absurd (hmis.mp hmis').1 hmaster
      · show Function.update st₁.fsckRefcnt p (st₁.fsckRefcnt p + 1) q = _
        rw [clonesBelow_succ, hclone, hp]
        by_cases hqp : q = p
        · rw [hqp, Function.update_self, hcount]
          simp [hmaster, Int.add_assoc]
        · have hne : ¬XprtPtr.ref p = .ref q := fun heq => hqp (XprtPtr.ref.inj heq).symm
          rw [Function.update_of_ne hqp, hcount]
          simp [hne]

theorem compares (h : Scannable s) (st : Fsck) :
    ∃ st', s.fsckLoop fsckCompare turns st = .ok st' ∧
      Flag st.err (Miscounted s st.fsckRefcnt) (s.xportsMaxid + 1) st'.err := by
  have hloop : ∃ st', s.fsckLoop fsckCompare turns st = .ok st' ∧
      Flag st.err (Miscounted s st.fsckRefcnt) (s.xportsMaxid + 1) st'.err ∧ st'.fsckRefcnt = st.fsckRefcnt := by
    refine h.scan (fun n (st' : Fsck) => Flag st.err (Miscounted s st.fsckRefcnt) n st'.err ∧
      st'.fsckRefcnt = st.fsckRefcnt) ?_ (Nat.zero_le _) (by omega) ⟨.start fun i hi => by omega, rfl⟩
    rintro id st₁ ⟨hflag, hsame⟩ hid
    refine h.turn hid (fun hbad => ⟨hflag.next ⟨Or.inl, fun hor => ?_⟩, hsame⟩)
      (fun hnull => ⟨hflag.next ?_, hsame⟩) fun a x hx => ⟨_, rfl, hflag.next ?_, hsame⟩
    · obtain herr | hnull | ⟨a, x, hx, _⟩ := hor
      · exact herr
      · rw [hbad] at hnull
        cases hnull
      · rw [Under, hbad] at hx
        cases hx.1
    · simp [Miscounted, hnull]
    · rw [Bool.or_eq_true, bne_iff_ne, hsame]
      refine or_congr Iff.rfl ⟨fun hne => Or.inr ⟨a, x, hx, hne⟩, ?_⟩
      rintro (hnull | ⟨b, y, hy, hne⟩)
      · rw [hx.1] at hnull
        cases hnull
      · cases hx.1.symm.trans hy.1
        cases hx.2.symm.trans hy.2
        exact hne
  obtain ⟨st', hrun, hflag, _⟩ := hloop
  exact ⟨st', hrun, hflag⟩

end Loops

end Scannable

/-- What one of the loops finds wrong at a slot, where `fsck` are the counts that have been made. -/
def Bad (s : Registry ExactSet π) (fsck : Addr → Int) (i : Nat) : Prop :=
  s.Duplicate i ∨ s.xports i = .null ∨ s.Misplaced i ∨ s.Miscounted fsck i

/-- The counts are those of the clones in the table. -/
def Counted (s : Registry ExactSet π) (fsck : Addr → Int) : Prop :=
  ∀ i a, i < s.xportsMaxid + 1 → s.xports i = .ref a → fsck a = (s.clonesBelow a (s.xportsMaxid + 1) : Nat)

theorem Scannable.returns (h : Scannable s) {turns : Nat} (hturns : s.xportsMaxid + 1 < turns)
    (fsckRefcnt : Addr → Int) : ∃ ok fsck, s.checkXports fsckRefcnt turns = .ok ok ∧ s.Counted fsck ∧
      (ok = true ↔ ¬∃ i, i < s.xportsMaxid + 1 ∧ s.Bad fsck i) := by
  obtain ⟨err, hdup, hflag₀⟩ := h.duplicates hturns
  obtain ⟨st₁, hclear, hflag₁, hzero⟩ := Scannable.clears hturns h ⟨err, fsckRefcnt⟩
  obtain ⟨st₂, hcount, hflag₂, hsum⟩ := Scannable.counts hturns h st₁
  obtain ⟨st₃, hcompare, hflag₃⟩ := Scannable.compares hturns h st₂
  refine ⟨!st₃.err, st₂.fsckRefcnt, ?_, fun i a hi ha => ?_, ?_⟩
  · unfold checkXports
    rw [hdup]
    show (s.fsckLoop fsckClear turns ⟨err, fsckRefcnt⟩ >>= _ : Res Bool) = _
    rw [hclear]
    show (s.fsckLoop s.fsckCount turns st₁ >>= _ : Res Bool) = _
    rw [hcount]
    show (s.fsckLoop fsckCompare turns st₂ >>= _ : Res Bool) = _
    rw [hcompare]
    rfl
  · rw [hsum, hzero i a hi ha, Int.zero_add]
  · have hraised : st₃.err = true ↔ ∃ i, i < s.xportsMaxid + 1 ∧ s.Bad st₂.fsckRefcnt i := by
      unfold Scannable.Flag at hflag₀ hflag₁ hflag₂ hflag₃
      rw [hflag₃, hflag₂, hflag₁, hflag₀]
      constructor
      · rintro ((((hfalse | ⟨i, hi, hbad⟩) | ⟨i, hi, hbad⟩) | ⟨i, hi, hbad⟩) | ⟨i, hi, hbad⟩)
        · cases hfalse
        · exact ⟨i, hi, Or.inl hbad⟩
        · exact ⟨i, hi, Or.inr (Or.inl hbad)⟩
        · exact ⟨i, hi, Or.inr (Or.inr (Or.inl hbad))⟩
        · exact ⟨i, hi, Or.inr (Or.inr (Or.inr hbad))⟩
      · rintro ⟨i, hi, hbad | hbad | hbad | hbad⟩
        · exact Or.inl (Or.inl (Or.inl (Or.inr ⟨i, hi, hbad⟩)))
        · exact Or.inl (Or.inl (Or.inr ⟨i, hi, hbad⟩))
        · exact Or.inl (Or.inr ⟨i, hi, hbad⟩)
        · exact Or.inr ⟨i, hi, hbad⟩
    rw [Bool.not_eq_true', ← Bool.not_eq_true, hraised]

theorem Checked.not_bad (h : Checked s) {fsck : Addr → Int} (hfsck : s.Counted fsck) :
    ¬∃ i, i < s.xportsMaxid + 1 ∧ s.Bad fsck i := by
  rintro ⟨i, hi, hbad⟩
  have hnull : s.xports i ≠ .null := h.noNull i (by omega)
  rcases hbad with ⟨j, hij, hj, hne, heq⟩ | hbad | (hbad | ⟨a, x, hx, hmaster, hmis⟩) | hbad | ⟨a, x, hx, hmis⟩
  · exact h.distinct i j hij hj hne heq
  · exact hnull hbad
  · exact hnull hbad
  · exact hmis (h.masters i a x (by omega) hx hmaster)
  · exact hnull hbad
  · rw [hfsck i a hi hx.1] at hmis
    exact hmis (h.refcnt i a x (by omega) hx)

theorem checked_of_not_bad {fsck : Addr → Int} (hfsck : s.Counted fsck)
    (hnone : ¬∃ i, i < s.xportsMaxid + 1 ∧ s.Bad fsck i) : Checked s := by
  have hgood : ∀ i, i ≤ s.xportsMaxid → ¬s.Bad fsck i := fun i hi hbad => hnone ⟨i, by omega, hbad⟩
  refine ⟨fun i j hij hj hne heq => ?_, fun i hi hnull => ?_, fun i a x hi hx hmaster => ?_, fun i a x hi hx => ?_⟩
  · exact hgood i (by omega) (Or.inl ⟨j, hij, hj, hne, heq⟩)
  · exact hgood i hi (Or.inr (Or.inl hnull))
  · by_contra hmis
    exact hgood i hi (Or.inr (Or.inr (Or.inl (Or.inr ⟨a, x, hx, hmaster, hmis⟩))))
  · by_contra hmis
    rw [← hfsck i a (by omega) hx.1] at hmis
    exact hgood i hi (Or.inr (Or.inr (Or.inr (Or.inr ⟨a, x, hx, hmis⟩))))

/-- Where what it reads is there, `check_xports` returns, and its verdict is that the slots hold distinct transports,
that the socket of each master has some transport and the id set has its id, and that each transport counts its
clones. -/
theorem checkXports_iff (h : Scannable s) {turns : Nat} (hturns : s.xportsMaxid + 1 < turns)
    (fsckRefcnt : Addr → Int) : ∃ ok, s.checkXports fsckRefcnt turns = .ok ok ∧ (ok = true ↔ Checked s) := by
  obtain ⟨ok, fsck, hrun, hfsck, hiff⟩ := h.returns hturns fsckRefcnt
  refine ⟨ok, hrun, hiff.trans ?_⟩
  exact ⟨checked_of_not_bad hfsck, fun hchecked => hchecked.not_bad hfsck⟩

/-- A master under id 0 that counts a clone which is not there. -/
def overcounted : Registry ExactSet Unit :=
  { (createXports 4 : Registry ExactSet Unit) with
    xports := fun id => if id = 0 then .ref 7 else .bad
    sockXports := fun sock => if sock = 3 then .ref 7 else .bad
    xportsIdset := ⟨4, {0}⟩
    xportsCount := 1
    xportsMaxid := 0
    heap := fun a => if a = 7 then some { Svcxprt.newXprt 3 111 true () .idle with mtxpId := 0, mtxpRefcnt := 1 } else none }

theorem overcounted_under {id : Nat} {a : Addr} (h : overcounted.xports id = .ref a) : a = 7 := by
  change (if id = 0 then XprtPtr.ref 7 else .bad) = .ref a at h
  split at h
  · exact (XprtPtr.ref.inj h).symm
  · cases h

theorem overcounted_scannable : Scannable overcounted where
  size := by decide
  maxid := by decide
  sz := rfl
  live id a ha := by
    cases overcounted_under ha
    exact ⟨_, rfl⟩
  sock id a x hx _ := by
    cases overcounted_under hx.1
    cases hx.2
    decide
  parent id a x hx hclone := by
    cases overcounted_under hx.1
    cases hx.2
    exact absurd rfl hclone

theorem checkXports_iff_overcounted :
    ∃ ok, overcounted.checkXports (fun _ => 0) 4 = .ok ok ∧ (ok = true ↔ Checked overcounted) :=
  checkXports_iff overcounted_scannable (by decide) _

example : overcounted.checkXports (fun _ => 0) 4 = .ok false := rfl

/-! ### The tables of the library -/

/-- The table holds no null pointer, and nothing counts references to a clone. -/
structure Plain (s : Registry ExactSet π) : Prop where
  noNull : ∀ id, s.xports id ≠ .null
  clones : ∀ a x, s.heap a = some x → x.mtxpParent ≠ noParent → x.mtxpRefcnt = 0

/-- A transport that is entered changes the count of no clone. -/
theorem Plain.register (h : Plain s) {t : Registry ExactSet π} (ht : RegInv t) {a : Addr} {x : Svcxprt π}
    (hid : x.mtxpId = xprtIdInvalid) (hzero : x.mtxpRefcnt = 0) (hreg : (s.store a x).xprtRegister a = .ok t) :
    Plain t := by
  obtain ⟨id, s₁, halloc, hent⟩ := xprtRegister_ok (Function.update_self ..) hid hreg
  obtain ⟨maxid, idset, _, _, _, rfl⟩ := xprtIdAlloc_ok halloc
  have hheap : ∀ b y, Function.update (Function.update s.heap a (some x)) a (some { x with mtxpId := id }) b = some y →
      y.mtxpParent ≠ noParent → y.mtxpRefcnt = 0 := by
    intro b y hy hclone
    by_cases hb : b = a
    · rw [hb, Function.update_self] at hy
      cases hy
      exact hzero
    · rw [Function.update_of_ne hb, Function.update_of_ne hb] at hy
      exact h.clones b y hy hclone
  refine ⟨fun i => ?_, fun b y hy hclone => ?_⟩
  · rw [hent.xports]
    by_cases hi : i = id
    · rw [hi, Function.update_self]
      exact XprtPtr.noConfusion
    · rw [Function.update_of_ne hi]
      exact h.noNull i
  · rcases hent.heap with ⟨_, heq⟩ | ⟨hxc, p, px, hp, hpx, heq⟩
    · rw [heq] at hy
      exact hheap b y hy hclone
    · have hpb : b ≠ p := by
        rintro rfl
        obtain ⟨y', hy', hparent⟩ : ∃ y', t.heap a = some y' ∧ y'.mtxpParent = x.mtxpParent := by
          rw [heq]
          by_cases hab : a = b
          · have hpx' : Function.update (Function.update s.heap a (some x)) a (some { x with mtxpId := id }) b = some px :=
              hpx
            rw [← hab, Function.update_self] at hpx'
            cases hpx'
            rw [hab, Function.update_self]
            exact ⟨_, rfl, rfl⟩
          · rw [Function.update_of_ne hab]
            exact ⟨_, Function.update_self .., rfl⟩
        obtain ⟨q, qx, hq, hqx, hmaster⟩ := ht.parent a y' hy' (by rw [hparent]; exact hxc)
        rw [hparent, hp] at hq
        cases hq
        cases hy.symm.trans hqx
        exact hclone hmaster
      rw [heq, Function.update_of_ne hpb] at hy
      exact hheap b y hy hclone

theorem Plain.destroy (h : Plain s) (hs : RegInv s) {t : Registry ExactSet π} {a : Addr} (hdes : s.svcDestroy a = .ok t) :
    Plain t := by
  obtain ⟨x, hx, hd⟩ := svcDestroy_ok hdes
  refine ⟨fun i => ?_, fun b y hy hclone => ?_⟩
  · rw [hd.xports]
    by_cases hi : i = x.mtxpId
    · rw [hi, Function.update_self]
      exact XprtPtr.noConfusion
    · rw [Function.update_of_ne hi]
      exact h.noNull i
  · rcases hd.heap with ⟨_, heq⟩ | ⟨hxc, p, px, hp, hpx, heq⟩
    · rw [heq] at hy
      exact h.clones b y (update_none_eq_some hy).2 hclone
    · rw [heq] at hy
      have hy' := (update_none_eq_some hy).2
      obtain ⟨q, qx, hq, hqx, hmaster⟩ := hs.parent a x hx hxc
      cases hp.symm.trans hq
      cases hpx.symm.trans hqx
      by_cases hbp : b = p
      · rw [hbp, Function.update_self] at hy'
        cases hy'
        exact absurd hmaster hclone
      · rw [Function.update_of_ne hbp] at hy'
        exact h.clones b y hy' hclone

theorem plain_regStep (h : Plain s) (hs : RegInv s) {t : Registry ExactSet π} (ht : RegInv t) {op : RegOp π}
    (hst : regStep s op = some t) : Plain t := by
  unfold regStep at hst
  split at hst
  · have hrun := toOption_ok hst
    cases op with
    | register a sock port clone priv stat => exact h.register ht rfl rfl hrun
    | clone p a priv =>
        obtain ⟨px, _, hreg⟩ := bind_ok hrun
        exact h.register ht rfl rfl hreg
    | unregister a => exact h.destroy hs hrun
  · cases hst

/-- The table has been used. -/
theorem RegInv.scannable (h : RegInv s) (hused : s.xportsMaxid ≠ sizeMax) : Scannable s where
  size := h.size_le
  maxid := h.maxid.resolve_left hused
  sz := h.sz
  live id a ha := by
    obtain ⟨x, hx, _⟩ := h.entry id a ha
    exact ⟨x, hx⟩
  sock id a x hx hmaster := h.lt a x.xpSock ⟨x, hx.2, hmaster, rfl⟩
  parent id a x hx hclone := by
    obtain ⟨p, px, hp, _⟩ := h.parent a x hx.2 hclone
    obtain ⟨y, hy, hyid⟩ := h.entry _ p hp
    refine ⟨?_, p, hp⟩
    rw [← hyid]
    exact h.id_lt hy

/-- The clones of a live transport, by their ids. -/
theorem RegInv.isCloneOf_iff (h : RegInv s) {a : Addr} {x : Svcxprt π} (hx : s.heap a = some x) (id : Nat) :
    s.isCloneOf a id = true ↔ ∃ b y, s.heap b = some y ∧ y.mtxpId = id ∧ y.mtxpParent ≠ noParent ∧
      y.mtxpParent = x.mtxpId := by
  constructor
  · intro hclone
    unfold isCloneOf at hclone
    split at hclone
    · rename_i b hb
      obtain ⟨y, hy, hyid⟩ := h.entry id b hb
      rw [hy] at hclone
      dsimp only at hclone
      rw [Bool.and_eq_true, bne_iff_ne, decide_eq_true_iff] at hclone
      obtain ⟨x', hx', hxid⟩ := h.entry _ a hclone.2
      cases hx.symm.trans hx'
      exact ⟨b, y, hy, hyid, hclone.1, hxid.symm⟩
    · cases hclone
  · rintro ⟨b, y, hy, rfl, hparent, heq⟩
    unfold isCloneOf
    rw [h.held b y hy]
    dsimp only
    rw [hy]
    dsimp only
    rw [Bool.and_eq_true, bne_iff_ne, decide_eq_true_iff, heq]
    rw [heq] at hparent
    exact ⟨hparent, h.held a x hx⟩

/-- A master has as many live clones as are counted for it. -/
theorem RegInv.encard_clones (h : RegInv s) {a : Addr} {x : Svcxprt π} (hx : s.heap a = some x) :
    (s.liveClones x.mtxpId).encard = (s.clonesBelow a (s.xportsMaxid + 1) : Nat) := by
  have hne : x.mtxpId ≠ noParent := (h.lt_sizeMax (h.id_lt hx)).ne
  let idOf : Addr → Nat := fun b => (s.heap b).elim 0 Svcxprt.mtxpId
  have hidOf : ∀ b y, s.heap b = some y → idOf b = y.mtxpId := by
    intro b y hy
    show (s.heap b).elim 0 Svcxprt.mtxpId = _
    rw [hy]
    rfl
  have hinj : Set.InjOn idOf (s.liveClones x.mtxpId) := by
    rintro b ⟨y, hy, _⟩ c ⟨z, hz, _⟩ heq
    rw [hidOf b y hy, hidOf c z hz] at heq
    exact h.eq_of_id hy hz heq
  have himage : Set.image idOf (s.liveClones x.mtxpId) =
      (Finset.filter (fun id => s.isCloneOf a id = true) (Finset.range (s.xportsMaxid + 1)) : Set Nat) := by
    ext id
    rw [Finset.mem_coe, Finset.mem_filter, Finset.mem_range, h.isCloneOf_iff hx]
    constructor
    · rintro ⟨b, ⟨y, hy, hparent⟩, rfl⟩
      rw [hidOf b y hy]
      have hle := (h.maxid_lt (h.mem hy)).1
      refine ⟨by omega, b, y, hy, rfl, ?_, hparent⟩
      rw [hparent]
      exact hne
    · rintro ⟨_, b, y, hy, rfl, _, hparent⟩
      exact ⟨b, ⟨y, hy, hparent⟩, hidOf b y hy⟩
  rw [← hinj.encard_image, himage, Set.encard_coe_eq_coe_finsetCard, clonesBelow, Nat.count_eq_card_filter_range]

theorem RegInv.checked (h : RegInv s) (hplain : Plain s) : Checked s where
  distinct i j hij _ hne heq := by
    cases hi : s.xports i with
    | bad => exact hne hi
    | null => exact hplain.noNull i hi
    | ref a =>
        rw [hi] at heq
        obtain ⟨x, hx, hxi⟩ := h.entry i a hi
        obtain ⟨y, hy, hyj⟩ := h.entry j a heq
        cases hx.symm.trans hy
        omega
  noNull id _ := hplain.noNull id
  masters id a x _ hx hmaster := by
    refine ⟨⟨a, (h.sock x.xpSock a).mpr ⟨x, hx.2, hmaster, rfl⟩⟩, ?_⟩
    exact (h.listed id).mpr ⟨a, hx.1⟩
  refcnt id a x _ hx := by
    by_cases hclone : x.mtxpParent = noParent
    · obtain ⟨n, hn, hcard⟩ := h.refcnt a x hx.2 hclone
      rw [h.encard_clones hx.2] at hcard
      rw [hn]
      exact_mod_cast hcard.symm
    · have hnone : s.clonesBelow a (s.xportsMaxid + 1) = 0 := by
        have hempty : s.liveClones x.mtxpId = ∅ := by
          apply Set.eq_empty_of_forall_notMem
          rintro b ⟨y, hy, hparent⟩
          have hne : y.mtxpParent ≠ noParent := by
            rw [hparent]
            exact (h.lt_sizeMax (h.id_lt hx.2)).ne
          obtain ⟨p, px, hp, hpx, hmaster⟩ := h.parent b y hy hne
          rw [hparent, h.held a x hx.2] at hp
          cases hp
          cases hx.2.symm.trans hpx
          exact hclone hmaster
        have hcard := h.encard_clones hx.2
        rw [hempty, Set.encard_empty] at hcard
        exact_mod_cast hcard.symm
      rw [hplain.clones a x hx.2 hclone, hnone]
      rfl

theorem reached_plain {dtablesize : Nat} (h : Reached regStep Allowed (createXports dtablesize) s) :
    RegInv s ∧ Plain s := by
  refine h.invariant (fun s => RegInv s ∧ Plain s) ⟨regInv_createXports dtablesize, ?_⟩ ?_
  · exact ⟨fun _ => XprtPtr.noConfusion, fun a x hx => by cases hx⟩
  · rintro u op t ⟨hu, hplain⟩ hok hst
    have ht := hu.regStep_of hok hst
    exact ⟨ht, plain_regStep hplain hu ht hst⟩

theorem quiet_of_reached {dtablesize : Nat} (h : Reached regStep Allowed (createXports dtablesize) s)
    (hused : s.xportsMaxid ≠ sizeMax) {turns : Nat} (hturns : s.xportsMaxid + 1 < turns) (fsckRefcnt : Addr → Int) :
    s.checkXports fsckRefcnt turns = .ok true := by
  obtain ⟨hinv, hplain⟩ := reached_plain h
  obtain ⟨ok, fsck, hrun, hfsck, hiff⟩ := (hinv.scannable hused).returns hturns fsckRefcnt
  rw [hrun, hiff.mpr ((hinv.checked hplain).not_bad hfsck)]

/-- In every history of registrations on vacant sockets, clonings of live masters and destructions of transports
without clones, `check_xports` finds nothing wrong, once there has been a registration: over exact id sets, and over
those of `bitvec.c` in a table of 65 ids or more as long as there are never more than nine transports. -/
theorem checkXports_quiet {dtablesize turns : Nat} (fsckRefcnt : Addr → Int) :
    (∀ s : Registry ExactSet π, Reached regStep Allowed (createXports dtablesize) s → s.xportsMaxid ≠ sizeMax →
      s.xportsMaxid + 1 < turns → s.checkXports fsckRefcnt turns = .ok true) ∧
    (65 ≤ dtablesize → ∀ s : Registry Bitvec π, Reached regStep AllowedFew (createXports dtablesize) s →
      s.xportsMaxid ≠ sizeMax → s.xportsMaxid + 1 < turns → s.checkXports fsckRefcnt turns = .ok true) := by
  refine ⟨fun s h hused hturns => quiet_of_reached h hused hturns fsckRefcnt, fun hsize s h hused hturns => ?_⟩
  obtain ⟨hfew, hexact⟩ := reached_toExact hsize h
  have hquiet := quiet_of_reached hexact hused hturns fsckRefcnt
  rw [← checkXports_toExact hfew hused]
  exact hquiet

/-- A UDP master on socket 3 and a clone of it, in the sets of `bitvec.c` and in exact ones. -/
theorem checkXports_quiet_cloned : ∃ s : Registry Bitvec Unit,
    Reached regStep AllowedFew (createXports 128) s ∧ s.checkXports (fun _ => 0) 4 = .ok true ∧
      s.toExact.checkXports (fun _ => 0) 4 = .ok true := by
  have hrun : ((createXports 128 : Registry Bitvec Unit).regStep (.register 0 3 111 true () .idle)).map
      (fun s => (s.xportsSize, s.xportsCount, (s.regStep (.clone 0 1 ())).map Registry.xportsMaxid)) =
        some (128, 1, some 1) := by
    decide +kernel
  obtain ⟨s, hs, heq⟩ := Option.map_eq_some_iff.mp hrun
  obtain ⟨hsize, heq⟩ := Prod.mk.inj heq
  obtain ⟨hone, heq⟩ := Prod.mk.inj heq
  obtain ⟨t, ht, hmax⟩ := Option.map_eq_some_iff.mp heq
  have hfirst : Reached regStep AllowedFew (createXports 128) s := by
    refine .next .start ⟨?_, by decide⟩ hs
    rw [toExact_createXports]
    refine ⟨by decide, Or.inr rfl, ?_⟩
    rw [(regInv_createXports 128).consistent.count]
    decide
  have hsecond : Reached regStep AllowedFew (createXports 128) t := by
    refine .next hfirst ⟨?_, ?_⟩ ht
    · show s.toExact.liveXprts.encard < s.xportsSize
      have hcount : s.toExact.liveXprts.encard = s.xportsCount :=
        (regInv_reached (reached_toExact (by decide) hfirst).2).consistent.count
      rw [hcount, hone, hsize]
      decide
    · show s.xportsCount < Bitvec.apart
      rw [hone]
      decide
  have hused : t.xportsMaxid ≠ sizeMax ∧ t.xportsMaxid + 1 < 4 := by
    rw [hmax]
    decide
  have hquiet := @checkXports_quiet Unit 128 4 fun _ => 0
  refine ⟨t, hsecond, hquiet.2 (by decide) t hsecond hused.1 hused.2, ?_⟩
  exact hquiet.1 t.toExact (reached_toExact (by decide) hsecond).2 hused.1 hused.2

end RpcMt.Registry
