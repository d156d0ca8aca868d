import Mathlib.Data.Finset.Filter
import RpcMt.RegistryScans
import RpcMt.RegistryTables

/-! Where `bitvec.c` is exact. The first nine indices have bits of their own; the others share them with these or with
each other. A registry that has given out no others does, call by call, what it does over exact id sets, so what is
proved of registries over exact sets holds of the sets of `bitvec.c` as long as there are never more than nine
transports at a time. -/

open RpcMt.Runs

namespace RpcMt

namespace Bitvec

/-- How many indices, from 0 on, have bits of their own. -/
def apart : Nat := 9

variable {bv : Bitvec} {i j : Nat}

theorem sameBit_iff (hi : i < apart) (hj : j < apart) : SameBit i j ↔ i = j := by
  unfold apart at hi hj
  constructor
  · rintro ⟨hw, hb⟩
    have hrange : 72 < sizeRange := by decide
    rw [wpos_of_lt (by omega), wpos_of_lt (by omega)] at hw
    rw [bpos_eq_mod, bpos_eq_mod] at hb
    omega
  · rintro rfl
    exact .refl i

/-- The vector has these indices, and the block has their words. -/
structure Roomy (bv : Bitvec) : Prop where
  size : apart ≤ bv.sz
  words : 1 < bv.vec.length

theorem Roomy.inBounds (h : bv.Roomy) (hi : i < apart) : bv.InBounds i := by
  have hsize := h.size
  have hwords := h.words
  have hrange : 72 < sizeRange := by decide
  unfold apart at hi hsize
  refine ⟨by omega, ?_⟩
  rw [wpos_of_lt (by omega)]
  omega

theorem Roomy.of_same {bv' : Bitvec} (h : bv.Roomy) (hsz : bv'.sz = bv.sz) (hwords : bv'.vec.length = bv.vec.length) :
    bv'.Roomy :=
  ⟨hsz ▸ h.size, hwords ▸ h.words⟩

/-- The set of these indices whose bits are set. -/
def toExact (bv : Bitvec) : ExactSet := ⟨bv.sz, (Finset.range apart).filter fun i => bv.bit i = true⟩

theorem mem_toExact : i ∈ bv.toExact.ids ↔ i < apart ∧ bv.bit i = true := by
  rw [toExact, Finset.mem_filter, Finset.mem_range]

theorem toExact_init (nbits : Nat) : (bitvecInit nbits).toExact = IdSet.init nbits := by
  have hnone : ((Finset.range apart).filter fun i => (bitvecInit nbits).bit i = true) = ∅ := by
    apply Finset.filter_false_of_mem
    intro i _
    rw [bit_init]
    exact Bool.false_ne_true
  rw [toExact, hnone]
  rfl

theorem getBit_toExact (h : bv.Roomy) (hi : i < apart) : IdSet.getBit bv.toExact i = IdSet.getBit bv i := by
  have hin := h.inBounds hi
  have hget : IdSet.getBit bv i = .ok (bv.bit i) := get_of_inBounds hin
  have hmem : decide (i ∈ bv.toExact.ids) = bv.bit i := by
    rw [Bool.eq_iff_iff, decide_eq_true_iff, mem_toExact]
    exact and_iff_right hi
  rw [hget, ← hmem]
  exact ExactSet.checked_of_lt hin.1 _

theorem setBit_toExact (h : bv.Roomy) (hi : i < apart) :
    ∃ bv', IdSet.setBit bv i = .ok bv' ∧ bv'.Roomy ∧ IdSet.setBit bv.toExact i = .ok bv'.toExact := by
  have hin := h.inBounds hi
  obtain ⟨bv', hset⟩ := set_of_inBounds hin
  obtain ⟨_, hsz, hwords, hbit⟩ := set_ok hset
  refine ⟨bv', hset, h.of_same hsz hwords, (ExactSet.checked_of_lt hin.1 _).trans (congrArg Except.ok ?_)⟩
  show ExactSet.mk bv.sz (insert i bv.toExact.ids) = ⟨bv'.sz, bv'.toExact.ids⟩
  rw [hsz]
  congr 1
  ext j
  rw [Finset.mem_insert, mem_toExact, mem_toExact, hbit, Bool.or_eq_true, decide_eq_true_iff]
  constructor
  · rintro (rfl | ⟨hj, hbit⟩)
    · exact ⟨hi, Or.inl (.refl j)⟩
    · exact ⟨hj, Or.inr hbit⟩
  · rintro ⟨hj, hsame | hbit⟩
    · exact Or.inl ((sameBit_iff hi hj).mp hsame).symm
    · exact Or.inr ⟨hj, hbit⟩

theorem clrBit_toExact (h : bv.Roomy) (hi : i < apart) :
    ∃ bv', IdSet.clrBit bv i = .ok bv' ∧ bv'.Roomy ∧ IdSet.clrBit bv.toExact i = .ok bv'.toExact := by
  have hin := h.inBounds hi
  obtain ⟨bv', hclr⟩ := clr_of_inBounds hin
  obtain ⟨_, hsz, hwords, hbit⟩ := clr_ok hclr
  refine ⟨bv', hclr, h.of_same hsz hwords, (ExactSet.checked_of_lt hin.1 _).trans (congrArg Except.ok ?_)⟩
  show ExactSet.mk bv.sz (bv.toExact.ids.erase i) = ⟨bv'.sz, bv'.toExact.ids⟩
  rw [hsz]
  congr 1
  ext j
  rw [Finset.mem_erase, mem_toExact, mem_toExact, hbit, Bool.and_eq_true, Bool.not_eq_true', decide_eq_false_iff_not]
  constructor
  · rintro ⟨hne, hj, hbit⟩
    exact ⟨hj, fun hsame => hne ((sameBit_iff hi hj).mp hsame).symm, hbit⟩
  · rintro ⟨hj, hsame, hbit⟩
    refine ⟨?_, hj, hbit⟩
    rintro rfl
    exact hsame (.refl j)

end Bitvec

namespace Registry

variable {π : Type}

/-- The registry with exact sets of the ids that have bits of their own in place of its bit vectors. -/
def toExact (s : Registry Bitvec π) : Registry ExactSet π where
  xports := s.xports
  sockXports := s.sockXports
  xportsIdset := s.xportsIdset.toExact
  xprtgcIdset := s.xprtgcIdset.toExact
  xportsSize := s.xportsSize
  xportsCount := s.xportsCount
  xportsMaxid := s.xportsMaxid
  xprtgcMarkCount := s.xprtgcMarkCount
  pollfd := s.pollfd
  pollfdSize := s.pollfdSize
  maxPollfd := s.maxPollfd
  heap := s.heap

/-- Only ids that have bits of their own have been given out. -/
structure FewIds (s : Registry Bitvec π) : Prop where
  idset : s.xportsIdset.Roomy
  maxid : s.xportsMaxid = sizeMax ∨ s.xportsMaxid < Bitvec.apart

/-- The next id has a bit of its own, and so has the high-water mark with it. -/
def ChoosesFew (s : Registry Bitvec π) : Prop :=
  ∀ id maxid, s.xprtIdChoose = .ok (id, maxid) → id < Bitvec.apart ∧ maxid < Bitvec.apart

/-- What the callers of the registry keep to, where there are to be no more than nine transports. -/
def AllowedFew (s : Registry Bitvec π) (op : RegOp π) : Prop :=
  Allowed s.toExact op ∧ match op with
    | .unregister _ => True
    | _ => s.xportsCount < Bitvec.apart

theorem toExact_createXports (dtablesize : Nat) :
    (createXports dtablesize : Registry Bitvec π).toExact = createXports dtablesize := by
  unfold toExact createXports
  dsimp only
  rw [show (IdSet.init _ : Bitvec).toExact = _ from Bitvec.toExact_init _]

/-- A table of 65 ids or more has a second word in its bit vectors. -/
theorem fewIds_createXports {dtablesize : Nat} (h : 65 ≤ dtablesize) :
    FewIds (createXports dtablesize : Registry Bitvec π) := by
  have hsize : ∀ n : Nat, 65 ≤ n → n ≤ fdSetsize → (Bitvec.bitvecInit n).Roomy := by
    intro n hlow hhigh
    simp only [fdSetsize] at hhigh
    refine ⟨?_, ?_⟩
    · show 9 ≤ n
      omega
    · have hlt : n + 64 - 1 < sizeRange := by
        simp only [sizeRange]
        omega
      rw [Bitvec.bitvecInit, List.length_replicate, Bitvec.wordCount, bitSize, Nat.mod_eq_of_lt hlt]
      omega
  refine ⟨?_, Or.inl rfl⟩
  show (Bitvec.bitvecInit (if fdSetsize < dtablesize then fdSetsize else dtablesize)).Roomy
  split
  · exact hsize fdSetsize (by decide) (le_refl _)
  · exact hsize dtablesize h (by omega)

/-! ### Calls that leave the id sets alone -/

theorem initPollfd_toExact (s : Registry Bitvec π) (fd : Nat) :
    s.toExact.initPollfd fd = (s.initPollfd fd).map toExact := by
  have hfree : (List.range s.toExact.maxPollfd).find? (fun slot => (s.toExact.pollfd slot).isNone) =
      (List.range s.maxPollfd).find? fun slot => (s.pollfd slot).isNone := rfl
  unfold initPollfd
  rw [hfree]
  cases (List.range s.maxPollfd).find? fun slot => (s.pollfd slot).isNone with
  | some slot => rfl
  | none =>
      show (if s.pollfdSize < s.maxPollfd then _ else if s.pollfdSize = s.maxPollfd then _ else _ : Res _) = _
      dsimp only
      split
      · rfl
      · split <;> rfl

theorem countParent_toExact (s : Registry Bitvec π) (parent : Nat) (delta : Int) :
    s.toExact.countParent parent delta = (s.countParent parent delta).map toExact := by
  unfold countParent
  show (s.xportsAt parent >>= _ : Res _) = _
  cases s.xportsAt parent with
  | error e => rfl
  | ok entry =>
      show (s.derefPtr entry >>= _ : Res _) = (s.derefPtr entry >>= _ : Res _).map _
      cases s.derefPtr entry with
      | error e => rfl
      | ok p => rfl

theorem registerMaster_toExact (s : Registry Bitvec π) (a : Addr) (sock : Nat) :
    s.toExact.registerMaster a sock = (s.registerMaster a sock).map toExact := by
  unfold registerMaster
  show (s.sockXportsAt sock >>= _ : Res _) = _
  cases s.sockXportsAt sock with
  | error e => rfl
  | ok sxprt =>
      show (s.socketXprtIsAvailable sxprt >>= _ : Res _) = (s.socketXprtIsAvailable sxprt >>= _ : Res _).map _
      cases s.socketXprtIsAvailable sxprt with
      | error e => rfl
      | ok free =>
          cases free with
          | false => rfl
          | true => exact initPollfd_toExact { s with sockXports := Function.update s.sockXports sock (.ref a) } sock

theorem enterXports_toExact (s : Registry Bitvec π) (a : Addr) (x : Svcxprt π) (id : Nat) :
    s.toExact.enterXports a x id = (s.enterXports a x id).map toExact := by
  unfold enterXports
  show (if s.xportsSize ≤ id then _ else _ : Res _) = _
  split
  · rfl
  · show (if x.mtxpParent = noParent then _ else _ : Res _) = _
    dsimp only
    split
    · exact registerMaster_toExact { s with xports := Function.update s.xports id (.ref a) } a x.xpSock
    · exact countParent_toExact { s with xports := Function.update s.xports id (.ref a) } x.mtxpParent 1

theorem releaseSocket_toExact (s : Registry Bitvec π) (x : Svcxprt π) :
    s.toExact.releaseSocket x = (s.releaseSocket x).map toExact := by
  unfold releaseSocket
  split
  · show (if x.xpSock < s.xportsSize then _ else _ : Res _) = _
    split <;> rfl
  · exact countParent_toExact s x.mtxpParent (-1)

theorem releaseSocket_idset {s t : Registry Bitvec π} {x : Svcxprt π} (h : s.releaseSocket x = .ok t) :
    t.xportsIdset = s.xportsIdset := by
  unfold releaseSocket at h
  split at h
  · split at h
    · cases h
      rfl
    · cases h
  · obtain ⟨p, px, _, _, rfl⟩ := countParent_ok h
    rfl

/-! ### Calls that read or write them -/

theorem xprtIdScan_toExact {bv : Bitvec} (h : bv.Roomy) {left id : Nat} (hle : id + left ≤ Bitvec.apart) :
    xprtIdScan bv.toExact left id = xprtIdScan bv left id := by
  induction left generalizing id with
  | zero => rfl
  | succ left ih =>
      rw [xprtIdScan, xprtIdScan, Bitvec.getBit_toExact h (by omega), ih (by omega)]

theorem unregisterId_toExact {s : Registry Bitvec π} (h : s.xportsIdset.Roomy) {id : Nat} (hid : id < Bitvec.apart) :
    s.toExact.unregisterId id = (s.unregisterId id).map toExact := by
  obtain ⟨bv', hclr, _, hclr'⟩ := Bitvec.clrBit_toExact h hid
  unfold unregisterId
  show (if s.xportsMaxid < id then _ else IdSet.clrBit s.xportsIdset.toExact id >>= _ : Res _) =
    (if s.xportsMaxid < id then _ else IdSet.clrBit s.xportsIdset id >>= _ : Res _).map _
  rw [hclr, hclr']
  split <;> rfl

namespace FewIds

variable {s t : Registry Bitvec π} {a : Addr} {x : Svcxprt π} {id : Nat}

theorem xprtIdChoose_toExact (h : FewIds s) : s.toExact.xprtIdChoose = s.xprtIdChoose := by
  unfold xprtIdChoose
  show (if s.xportsMaxid = sizeMax then _ else xprtIdScan s.xportsIdset.toExact (s.xportsMaxid + 1) 0 >>= _ : Res _) = _
  split
  · rfl
  · rename_i hmax
    have hlt := h.maxid.resolve_left hmax
    rw [xprtIdScan_toExact h.idset (by omega)]
    rfl

/-- While there is a bit left, it is the next one. -/
theorem chooses (h : FewIds s) (hs : RegInv s.toExact) (hroom : s.xportsCount < Bitvec.apart) : ChoosesFew s := by
  intro id maxid hchoose
  obtain ⟨id', maxid', hchoose', hvacant, _, hmax, _⟩ := hs.choose
  rw [h.xprtIdChoose_toExact, hchoose] at hchoose'
  cases hchoose'
  have hcount : s.xportsCount = s.toExact.xportsIdset.ids.card := hs.count
  have hcard : id ≤ s.toExact.xportsIdset.ids.card := hvacant.le_card
  refine ⟨by omega, ?_⟩
  rcases hmax with rfl | ⟨rfl, hne⟩
  · omega
  · exact h.maxid.resolve_left hne

theorem xprtIdAlloc_toExact (h : FewIds s) (hnext : ChoosesFew s) :
    s.toExact.xprtIdAlloc = s.xprtIdAlloc.map fun r => (r.1, r.2.toExact) := by
  unfold xprtIdAlloc
  rw [h.xprtIdChoose_toExact]
  cases hchoose : s.xprtIdChoose with
  | error e => rfl
  | ok r =>
      obtain ⟨bv', hset, _, hset'⟩ := Bitvec.setBit_toExact h.idset (hnext r.1 r.2 hchoose).1
      show (if s.xportsSize ≤ r.1 then _ else IdSet.setBit s.xportsIdset.toExact r.1 >>= _ : Res _) =
        (if s.xportsSize ≤ r.1 then _ else IdSet.setBit s.xportsIdset r.1 >>= _ : Res _).map _
      rw [hset, hset']
      split <;> rfl

theorem alloc (h : FewIds s) (hnext : ChoosesFew s) (halloc : s.xprtIdAlloc = .ok (id, t)) : FewIds t := by
  obtain ⟨maxid, idset, hchoose, _, hset, rfl⟩ := xprtIdAlloc_ok halloc
  obtain ⟨hid, hmaxid⟩ := hnext id maxid hchoose
  obtain ⟨bv', hset', hroomy, _⟩ := Bitvec.setBit_toExact h.idset hid
  cases hset.symm.trans hset'
  exact ⟨hroomy, Or.inr hmaxid⟩

/-- A registration does the same over the exact sets. -/
theorem register_toExact (h : FewIds s) (hnext : ChoosesFew s) (a : Addr) (hid : x.mtxpId = xprtIdInvalid) :
    (s.toExact.store a x).xprtRegister a = ((s.store a x).xprtRegister a).map toExact := by
  have hstored : FewIds (s.store a x) := ⟨h.idset, h.maxid⟩
  have hx : (s.store a x).deref a = .ok x := deref_of_heap (Function.update_self ..)
  have halloc := hstored.xprtIdAlloc_toExact hnext
  unfold xprtRegister
  rw [hx, show (s.toExact.store a x).deref a = .ok x from hx]
  show (if x.mtxpId = xprtIdInvalid then (s.store a x).toExact.xprtIdAlloc >>= _ else _ : Res _) =
    (if x.mtxpId = xprtIdInvalid then (s.store a x).xprtIdAlloc >>= _ else _ : Res _).map _
  rw [if_pos hid, if_pos hid, halloc]
  cases (s.store a x).xprtIdAlloc with
  | error e => rfl
  | ok r => exact enterXports_toExact (r.2.store a { x with mtxpId := r.1 }) a x r.1

theorem register (h : FewIds s) (hnext : ChoosesFew s) (hid : x.mtxpId = xprtIdInvalid)
    (hreg : (s.store a x).xprtRegister a = .ok t) : FewIds t := by
  have hstored : FewIds (s.store a x) := ⟨h.idset, h.maxid⟩
  obtain ⟨id, s₁, halloc, hent⟩ := xprtRegister_ok (Function.update_self ..) hid hreg
  have hs₁ := hstored.alloc hnext halloc
  refine ⟨?_, ?_⟩
  · rw [hent.idset]
    exact hs₁.idset
  · rw [hent.maxid]
    exact hs₁.maxid

theorem id_lt (hs : RegInv s.toExact) (hx : s.heap a = some x) : x.mtxpId < Bitvec.apart :=
  (Bitvec.mem_toExact.mp (hs.mem hx)).1

theorem unregister_toExact (h : FewIds s) (hs : RegInv s.toExact) (a : Addr) :
    s.toExact.xprtUnregister a = (s.xprtUnregister a).map toExact := by
  unfold xprtUnregister
  show (s.deref a >>= _ : Res _) = (s.deref a >>= _ : Res _).map _
  cases hderef : s.deref a with
  | error e => rfl
  | ok x =>
      have hlt := id_lt hs (deref_ok hderef)
      show (s.xportsAt x.mtxpId >>= _ : Res _) = (s.xportsAt x.mtxpId >>= _ : Res _).map _
      cases s.xportsAt x.mtxpId with
      | error e => rfl
      | ok entry =>
          show (if entry ≠ .ref a then _ else if s.xportsMaxid < x.mtxpId then _ else
              s.toExact.releaseSocket x >>= _ : Res _) =
            (if entry ≠ .ref a then _ else if s.xportsMaxid < x.mtxpId then _ else
              s.releaseSocket x >>= _ : Res _).map _
          rw [releaseSocket_toExact]
          cases hrelease : s.releaseSocket x with
          | error e =>
              split
              · rfl
              · split <;> rfl
          | ok u =>
              have hroomy : u.xportsIdset.Roomy := releaseSocket_idset hrelease ▸ h.idset
              have hid := unregisterId_toExact hroomy hlt
              split
              · rfl
              · split
                · rfl
                · exact hid

/-- A destruction does the same over the exact sets. -/
theorem destroy_toExact (h : FewIds s) (hs : RegInv s.toExact) (a : Addr) :
    s.toExact.svcDestroy a = (s.svcDestroy a).map toExact := by
  unfold svcDestroy
  rw [h.unregister_toExact hs a]
  cases s.xprtUnregister a <;> rfl

theorem destroy (h : FewIds s) (hs : RegInv s.toExact) (hdestroy : s.svcDestroy a = .ok t) : FewIds t := by
  obtain ⟨x, hx, hd⟩ := svcDestroy_ok hdestroy
  obtain ⟨bv', hclr, hroomy, _⟩ := Bitvec.clrBit_toExact h.idset (id_lt hs hx)
  cases hd.clr.symm.trans hclr
  exact ⟨hroomy, hd.maxid ▸ h.maxid⟩

/-! ### Runs -/

/-- A call of a registry that has room for its transport does the same over the exact sets. -/
theorem regOp_toExact (h : FewIds s) (hs : RegInv s.toExact) {op : RegOp π} (hok : AllowedFew s op) :
    regOp s.toExact op = (regOp s op).map toExact := by
  cases op with
  | register a sock port clone priv stat => exact h.register_toExact (h.chooses hs hok.2) a rfl
  | clone parent a priv =>
      unfold regOp
      show (s.deref parent >>= _ : Res _) = (s.deref parent >>= _ : Res _).map _
      cases s.deref parent with
      | error e => rfl
      | ok px => exact h.register_toExact (h.chooses hs hok.2) a rfl
  | unregister a => exact h.destroy_toExact hs a

theorem regOp (h : FewIds s) (hs : RegInv s.toExact) {op : RegOp π} (hok : AllowedFew s op)
    (hrun : Registry.regOp s op = .ok t) : FewIds t := by
  cases op with
  | register a sock port clone priv stat => exact h.register (h.chooses hs hok.2) rfl hrun
  | clone parent a priv =>
      obtain ⟨px, _, hreg⟩ := bind_ok hrun
      exact h.register (h.chooses hs hok.2) rfl hreg
  | unregister a => exact h.destroy hs hrun

theorem regStep (h : FewIds s) (hs : RegInv s.toExact) {op : RegOp π} (hok : AllowedFew s op)
    (hst : Registry.regStep s op = some t) : FewIds t ∧ Registry.regStep s.toExact op = some t.toExact := by
  have hposs : op.possible s.toExact = op.possible s := by cases op <;> rfl
  unfold Registry.regStep at hst
  split at hst
  · rename_i hcan
    have hrun := toOption_ok hst
    refine ⟨h.regOp hs hok hrun, ?_⟩
    rw [Registry.regStep, if_pos (hposs.trans hcan), h.regOp_toExact hs hok, hrun]
    rfl
  · cases hst

end FewIds

/-- A history with never more than nine transports is one over exact sets. -/
theorem reached_toExact {dtablesize : Nat} (hsize : 65 ≤ dtablesize) {s : Registry Bitvec π}
    (h : Reached regStep AllowedFew (createXports dtablesize) s) :
    FewIds s ∧ Reached regStep Allowed (createXports dtablesize) s.toExact := by
  refine h.invariant (fun s => FewIds s ∧ Reached regStep Allowed (createXports dtablesize) s.toExact) ?_ ?_
  · rw [toExact_createXports]
    exact ⟨fewIds_createXports hsize, .start⟩
  · rintro u op t ⟨hu, hreached⟩ hok hst
    obtain ⟨ht, hst'⟩ := hu.regStep (regInv_reached hreached) hok hst
    exact ⟨ht, .next hreached hok.1 hst'⟩

/-! ### `check_xports` -/

section CheckXports

variable {s : Registry Bitvec π}

theorem fsckCount_toExact (h : s.xportsIdset.Roomy) {id : Nat} (hid : id < Bitvec.apart) (a : Addr) (x : Svcxprt π)
    (st : Fsck) : s.toExact.fsckCount id a x st = s.fsckCount id a x st := by
  unfold fsckCount
  show (if x.mtxpParent = noParent then s.sockXportsAt x.xpSock >>= fun sockXprt =>
    IdSet.getBit s.xportsIdset.toExact id >>= _ else _ : Res _) = _
  rw [Bitvec.getBit_toExact h hid]
  rfl

/-- `check_xports` finds out the same, once there has been a registration. -/
theorem checkXports_toExact (h : FewIds s) (hused : s.xportsMaxid ≠ sizeMax) (fsckRefcnt : Addr → Int) (turns : Nat) :
    s.toExact.checkXports fsckRefcnt turns = s.checkXports fsckRefcnt turns := by
  have hmax := h.maxid.resolve_left hused
  have hcount : s.toExact.fsckLoop s.toExact.fsckCount turns = s.fsckLoop s.fsckCount turns := by
    funext st
    refine forIds_congr (fun id st hvalid => ?_) turns 0 st
    have hid : id ≤ s.xportsMaxid := of_decide_eq_true hvalid
    unfold fsckTurn
    apply bind_congr
    intro entry
    split
    · rfl
    · split
      · rfl
      · apply bind_congr
        intro p
        exact fsckCount_toExact h.idset (by omega) p.1 p.2 st
  unfold checkXports
  rw [hcount]
  rfl

end CheckXports

end Registry

end RpcMt
