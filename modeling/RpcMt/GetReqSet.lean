import RpcMt.Bitvec
import Mathlib.Data.List.Range

/-! `svc_getreqset` and `svc_getreq` of `svc.c`: the scan of an `fd_set`, one mask after the other. The
scan starts at `(__fd_mask *)&readfds`, which is where the parameter `readfds` lies on the stack and not
where it points; so its first mask is the address of the set, and the others are what lies behind the
parameter. -/

namespace RpcMt

/-- `__NFDBITS`: the bits of an `__fd_mask`, which is `long`. -/
def nfdbits : Nat := 64

/-- `FD_SETSIZE / __NFDBITS`. -/
def fdMasks : Nat := 1024 / nfdbits

structure FdSet where
  fdsBits : List BvWord
  length_fdsBits : fdsBits.length = fdMasks

namespace FdSet

def mask (set : FdSet) (i : Nat) : BvWord := set.fdsBits.getD i 0

/-- `FD_ISSET`; a descriptor past the end of the set is not a member. -/
def isSet (set : FdSet) (fd : Nat) : Bool := (set.mask (fd / nfdbits)).getLsbD (fd % nfdbits)

/-- The members below `size`, in increasing order. -/
def members (set : FdSet) (size : Nat) : List Nat := (List.range size).filter set.isSet

/-- The set with the only member `fd`. -/
def only (fd : Nat) : FdSet where
  fdsBits := (List.range fdMasks).map fun i => if i = fd / nfdbits then 1#64 <<< (fd % nfdbits) else 0
  length_fdsBits := by rw [List.length_map, List.length_range]

end FdSet

/-- Memory, by the addresses of its aligned words. -/
abbrev Memory := Nat → Option BvWord

def Memory.word (mem : Memory) (a : Nat) : Res BvWord :=
  match mem a with
  | none => .error .badPointer
  | some w => .ok w

/-- The memory that a call of `svc_getreqset` finds: the set at the address `readfds`, and the parameter
that holds this address at the address `slot`. -/
structure GetreqCall where
  mem : Memory
  set : FdSet
  readfds : Nat
  slot : Nat
  stored : ∀ i < fdMasks, mem (readfds + 8 * i) = some (set.mask i)
  passed : mem slot = some (BitVec.ofNat 64 readfds)

/-- `ffsl`. -/
def ffsl (mask : BvWord) : Nat := if mask = 0 then 0 else mask.ctz.toNat + 1

/-- The inner loop of `svc_getreqset` on one mask: the descriptors given to `svc_getreq_common`. -/
def maskLoop (sockGrp : Nat) : Nat → BvWord → Res (List Nat)
  | 0, _ => .error .noReturn
  | fuel + 1, mask =>
      let bit := ffsl mask
      if bit = 0 then .ok []
      else do
        let socks ← maskLoop sockGrp fuel (mask ^^^ (1#64 <<< (bit - 1)))
        pure ((sockGrp + bit - 1) :: socks)

/-- The outer loop. `setsize`, an `int`, has the value of `xports_size`, which is at most `FD_SETSIZE`. -/
def grpLoop (mem : Memory) (setsize : Nat) : Nat → Nat → Nat → Res (List Nat)
  | 0, _, _ => .error .noReturn
  | fuel + 1, sockGrp, maskp =>
      if sockGrp < setsize then do
        let mask ← mem.word maskp
        let socks ← maskLoop sockGrp (nfdbits + 1) mask
        let rest ← grpLoop mem setsize fuel (sockGrp + nfdbits) (maskp + 8)
        pure (socks ++ rest)
      else .ok []

/-- `svc_getreqset`, as far as `svc_getreq_common` returns each time. -/
def svcGetreqset (xportsSize : Nat) (c : GetreqCall) : Res (List Nat) :=
  grpLoop c.mem xportsSize (xportsSize + 1) 0 c.slot

/-- `svc_getreq`; `frame` is the memory of its call of `svc_getreqset`, for the set it has made. -/
def svcGetreq (xportsSize rdfds : Nat) (frame : FdSet → GetreqCall) : Res (List Nat) :=
  if rdfds ≠ 1 then .error .svcDie else svcGetreqset xportsSize (frame (.only 0))

/-! ### One mask -/

variable {mask : BvWord} {low sockGrp fuel : Nat}

/-- The descriptors of a mask, from the bit `low` on. -/
def maskSocks (sockGrp : Nat) (mask : BvWord) (low n : Nat) : List Nat :=
  ((List.range' low n).filter mask.getLsbD).map fun b => sockGrp + b

theorem maskSocks_nil {n : Nat} (h : ∀ i, low ≤ i → i < low + n → mask.getLsbD i = false) :
    maskSocks sockGrp mask low n = [] := by
  unfold maskSocks
  rw [List.map_eq_nil_iff, List.filter_eq_nil_iff]
  intro i hi
  rw [List.mem_range'_1] at hi
  simp [h i hi.1 hi.2]

theorem maskSocks_congr {mask' : BvWord} {n : Nat}
    (h : ∀ i, low ≤ i → i < low + n → mask'.getLsbD i = mask.getLsbD i) :
    maskSocks sockGrp mask' low n = maskSocks sockGrp mask low n := by
  unfold maskSocks
  congr 1
  apply List.filter_congr
  intro i hi
  rw [List.mem_range'_1] at hi
  exact h i hi.1 hi.2

theorem maskSocks_append (mask : BvWord) (low m n : Nat) :
    maskSocks sockGrp mask low (m + n) = maskSocks sockGrp mask low m ++ maskSocks sockGrp mask (low + m) n := by
  unfold maskSocks
  rw [← List.range'_append_1, List.filter_append, List.map_append]

/-- Clearing a bit by exclusive or changes that bit only. -/
theorem getLsbD_xor_bit {b : Nat} (hb : mask.getLsbD b = true) (i : Nat) :
    (mask ^^^ (1#64 <<< b)).getLsbD i = (mask.getLsbD i && i != b) := by
  have hlt : b < 64 := BitVec.lt_of_getLsbD hb
  by_cases hi : i = b
  · subst hi
    simp [hb, hlt]
  · rw [BitVec.getLsbD_xor, BitVec.getLsbD_shiftLeft, BitVec.getLsbD_one]
    have hzero : (decide (i < 64) && !decide (i < b) && (decide (0 < 64) && decide (i - b = 0))) = false := by
      simp
      omega
    rw [hzero]
    simp [hi]

/-- The loop on one mask calls the descriptors of its bits, from the lowest up. The bits below `low` are
already cleared. -/
theorem maskLoop_eq (hlow : ∀ i < low, mask.getLsbD i = false) (hle : low ≤ nfdbits)
    (hfuel : nfdbits - low < fuel) :
    maskLoop sockGrp fuel mask = .ok (maskSocks sockGrp mask low (nfdbits - low)) := by
  induction fuel generalizing mask low with
  | zero => exact absurd hfuel (Nat.not_lt_zero _)
  | succ fuel ih =>
      by_cases hzero : mask = 0
      · rw [maskLoop, ffsl, if_pos hzero, maskSocks_nil fun i _ _ => by simp [hzero]]
        rfl
      · have hset : mask.getLsbD mask.ctz.toNat = true := BitVec.getLsbD_true_ctz_of_ne_zero hzero
        have hbelow (i : Nat) (hi : i < mask.ctz.toNat) : mask.getLsbD i = false :=
          BitVec.getLsbD_false_of_lt_ctz hi
        set c := mask.ctz.toNat with hc
        have hc64 : c < nfdbits := BitVec.lt_of_getLsbD hset
        have hge : low ≤ c := by
          by_contra hlt
          rw [hlow c (by omega)] at hset
          cases hset
        have hcleared : ∀ i < c + 1, (mask ^^^ (1#64 <<< c)).getLsbD i = false := by
          intro i hi
          rw [getLsbD_xor_bit hset]
          rcases Nat.lt_succ_iff_lt_or_eq.mp hi with hlt | rfl
          · rw [hbelow i hlt]
            rfl
          · simp
        have hsplit : nfdbits - low = (c - low) + (1 + (nfdbits - (c + 1))) := by omega
        rw [maskLoop, ffsl, if_neg hzero, ← hc]
        simp only [Nat.add_sub_cancel, Nat.succ_ne_zero, if_false]
        rw [ih hcleared hc64 (by omega), hsplit, maskSocks_append, maskSocks_append,
          maskSocks_nil fun i _ hi => hbelow i (by omega), Nat.add_sub_cancel' hge]
        have hone : maskSocks sockGrp mask c 1 = [sockGrp + c] := by simp [maskSocks, hset]
        have hrest : maskSocks sockGrp (mask ^^^ (1#64 <<< c)) (c + 1) (nfdbits - (c + 1)) =
            maskSocks sockGrp mask (c + 1) (nfdbits - (c + 1)) := by
          apply maskSocks_congr
          intro i hi _
          rw [getLsbD_xor_bit hset]
          simp
          omega
        rw [hone, hrest]
        rfl

/-! ### All masks -/

section Scan

variable {mem : Memory} {slot k n : Nat} {w : Nat → BvWord}

/-- Whether the masks `w` have the bit of a descriptor. -/
def bitOf (w : Nat → BvWord) (fd : Nat) : Bool := (w (fd / nfdbits)).getLsbD (fd % nfdbits)

theorem group_div {b : Nat} (hb : b < nfdbits) (k : Nat) : (nfdbits * k + b) / nfdbits = k := by
  rw [Nat.mul_add_div (by decide), Nat.div_eq_of_lt hb, Nat.add_zero]

theorem group_mod {b : Nat} (hb : b < nfdbits) (k : Nat) : (nfdbits * k + b) % nfdbits = b := by
  rw [Nat.mul_add_mod, Nat.mod_eq_of_lt hb]

theorem maskSocks_group (w : Nat → BvWord) (k : Nat) :
    maskSocks (nfdbits * k) (w k) 0 nfdbits = (List.range' (nfdbits * k) nfdbits).filter (bitOf w) := by
  have hshift : List.range' (nfdbits * k) nfdbits = (List.range' 0 nfdbits).map (nfdbits * k + ·) := by
    rw [List.map_add_range', Nat.add_zero]
  unfold maskSocks
  rw [hshift, List.filter_map]
  congr 1
  apply List.filter_congr
  intro b hb
  rw [List.mem_range'_1, Nat.zero_add] at hb
  simp only [bitOf, Function.comp_apply, group_div hb.2, group_mod hb.2]

/-- Over masks that can be read the scan lists the descriptors of their bits in increasing order. -/
theorem grpLoop_eq (hread : ∀ i, k ≤ i → i < n → mem (slot + 8 * i) = some (w i)) (hk : k ≤ n)
    (hfuel : n - k < fuel) :
    grpLoop mem (nfdbits * n) fuel (nfdbits * k) (slot + 8 * k) =
      .ok ((List.range' (nfdbits * k) (nfdbits * (n - k))).filter (bitOf w)) := by
  induction fuel generalizing k with
  | zero => exact absurd hfuel (Nat.not_lt_zero _)
  | succ fuel ih =>
      rw [grpLoop]
      rcases Nat.eq_or_lt_of_le hk with rfl | hlt
      · rw [if_neg (Nat.lt_irrefl _), Nat.sub_self]
        rfl
      · have hmask : mem.word (slot + 8 * k) = .ok (w k) := by
          rw [Memory.word, hread k (Nat.le_refl k) hlt]
        have hinner : maskLoop (nfdbits * k) (nfdbits + 1) (w k) =
            .ok (maskSocks (nfdbits * k) (w k) 0 nfdbits) :=
          maskLoop_eq (fun _ hi => absurd hi (Nat.not_lt_zero _)) (Nat.zero_le _) (Nat.lt_succ_self _)
        have hnext := ih (k := k + 1) (fun i hi => hread i (Nat.le_of_succ_le hi)) hlt (by omega)
        rw [Nat.mul_succ] at hnext
        rw [if_pos (Nat.mul_lt_mul_of_pos_left hlt (by decide)), hmask]
        simp only [bind, Except.bind, hinner]
        rw [Nat.mul_succ, ← Nat.add_assoc] at hnext
        rw [hnext, maskSocks_group, show n - k = 1 + (n - (k + 1)) by omega, Nat.mul_add, Nat.mul_one,
          ← List.range'_append_1, List.filter_append]
        rfl

/-- A scan that returns has read all its masks. -/
theorem read_of_grpLoop {socks : List Nat} (hk : k ≤ n)
    (h : grpLoop mem (nfdbits * n) fuel (nfdbits * k) (slot + 8 * k) = .ok socks) :
    ∀ i, k ≤ i → i < n → ∃ v, mem (slot + 8 * i) = some v := by
  induction fuel generalizing k socks with
  | zero => cases h
  | succ fuel ih =>
      intro i hki hin
      have hlt : k < n := Nat.lt_of_le_of_lt hki hin
      rw [grpLoop, if_pos (Nat.mul_lt_mul_of_pos_left hlt (by decide))] at h
      obtain ⟨v, hv, h⟩ := bind_ok h
      obtain ⟨_, _, h⟩ := bind_ok h
      obtain ⟨rest, hrest, _⟩ := bind_ok h
      rcases Nat.eq_or_lt_of_le hki with rfl | hki
      · cases hmem : mem (slot + 8 * k) with
        | none =>
            rw [Memory.word, hmem] at hv
            cases hv
        | some v => exact ⟨v, rfl⟩
      · rw [Nat.add_assoc, ← Nat.mul_succ, ← Nat.mul_succ] at hrest
        exact ih hlt hrest i hki hin

/-- Two scans list the same descriptors only if their masks are the same. -/
theorem mask_eq_of_scan {w' : Nat → BvWord}
    (h : (List.range (nfdbits * n)).filter (bitOf w) = (List.range (nfdbits * n)).filter (bitOf w')) :
    ∀ i < n, w i = w' i := by
  intro i hi
  apply BitVec.eq_of_getLsbD_eq
  intro b hb
  have hfd : nfdbits * i + b < nfdbits * n := by
    calc nfdbits * i + b < nfdbits * i + nfdbits := Nat.add_lt_add_left hb _
      _ = nfdbits * (i + 1) := (Nat.mul_succ _ _).symm
      _ ≤ nfdbits * n := Nat.mul_le_mul_left _ hi
  have hmem (v : Nat → BvWord) : (nfdbits * i + b) ∈ (List.range (nfdbits * n)).filter (bitOf v) ↔
      (v i).getLsbD b = true := by
    rw [List.mem_filter, List.mem_range, bitOf, group_div hb, group_mod hb]
    exact and_iff_right hfd
  rw [Bool.eq_iff_iff, ← hmem w, ← hmem w', h]

end Scan

/-! ### The set and the stack -/

/-- The first mask of the set is the address of the set, and each further mask is the word that lies as
far behind the parameter `readfds`. -/
def OnStack (c : GetreqCall) (masks : Nat) : Prop :=
  ∀ i < masks, if i = 0 then c.set.mask 0 = BitVec.ofNat 64 c.readfds
    else c.mem (c.slot + 8 * i) = some (c.set.mask i)

theorem onStack_iff (c : GetreqCall) (masks : Nat) :
    OnStack c masks ↔ ∀ i < masks, c.mem (c.slot + 8 * i) = some (c.set.mask i) := by
  refine forall_congr' fun i => forall_congr' fun _ => ?_
  by_cases hi : i = 0
  · subst hi
    rw [if_pos rfl, Nat.mul_zero, Nat.add_zero, c.passed, Option.some.injEq]
    exact eq_comm
  · rw [if_neg hi]

/-- `svc_getreqset` serves the members of the set, each once and in increasing order, exactly if the set
is what lies on the stack. -/
theorem svcGetreqset_members_iff (masks : Nat) (c : GetreqCall) :
    svcGetreqset (nfdbits * masks) c = .ok (c.set.members (nfdbits * masks)) ↔ OnStack c masks := by
  have hfuel : masks - 0 < nfdbits * masks + 1 :=
    Nat.lt_succ_of_le (Nat.le_mul_of_pos_left masks (by decide))
  rw [onStack_iff]
  constructor
  · intro h
    have hread := read_of_grpLoop (Nat.zero_le masks) h
    have hsome : ∀ i < masks, c.mem (c.slot + 8 * i) = some ((c.mem (c.slot + 8 * i)).getD 0) := by
      intro i hi
      obtain ⟨v, hv⟩ := hread i (Nat.zero_le i) hi
      rw [hv]
      rfl
    have hscan := grpLoop_eq (w := fun i => (c.mem (c.slot + 8 * i)).getD 0) (fun i _ hi => hsome i hi)
      (Nat.zero_le masks) hfuel
    have hlists := Except.ok.inj (hscan.symm.trans h)
    rw [Nat.mul_zero, Nat.sub_zero, ← List.range_eq_range'] at hlists
    have hmasks : ∀ i < masks, (c.mem (c.slot + 8 * i)).getD 0 = c.set.mask i := mask_eq_of_scan hlists
    intro i hi
    rw [hsome i hi, hmasks i hi]
  · intro h
    have hscan := grpLoop_eq (w := c.set.mask) (fun i _ hi => h i hi) (Nat.zero_le masks) hfuel
    rw [Nat.mul_zero, Nat.sub_zero, ← List.range_eq_range'] at hscan
    exact hscan

/-- A set with the member 3 at the address 4096. -/
def lowSet : GetreqCall where
  mem a := if a = 8 then some 4096#64
    else if 4096 ≤ a ∧ a < 4096 + 8 * fdMasks then some ((FdSet.only 3).mask ((a - 4096) / 8)) else none
  set := .only 3
  readfds := 4096
  slot := 8
  stored := by decide +kernel
  passed := rfl

/-- The descriptor that is served is the one bit of the address. -/
theorem svcGetreqset_members_counterexample :
    svcGetreqset nfdbits lowSet = .ok [12] ∧ lowSet.set.members nfdbits = [3] := by
  refine ⟨?_, ?_⟩ <;> decide +kernel

/-- `svc_getreq` makes its set in its own frame, aligned as a word is: descriptor 0 is not served alone. -/
theorem svcGetreq_ne (masks : Nat) (frame : FdSet → GetreqCall) (hset : (frame (.only 0)).set = .only 0)
    (haligned : (frame (.only 0)).readfds % 8 = 0) :
    svcGetreq (nfdbits * (masks + 1)) 1 frame ≠ .ok ((FdSet.only 0).members (nfdbits * (masks + 1))) := by
  intro h
  have hstack : OnStack (frame (.only 0)) (masks + 1) := by
    rw [← svcGetreqset_members_iff, hset]
    exact h
  have hmask := hstack 0 (Nat.succ_pos masks)
  rw [if_pos rfl, hset, ← BitVec.toNat_inj, BitVec.toNat_ofNat] at hmask
  have hone : ((FdSet.only 0).mask 0).toNat = 1 := by decide
  omega

end RpcMt
