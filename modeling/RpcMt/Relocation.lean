import RpcMt.MoveFd
import RpcMt.Runs

/-! What a call of `move_fd` leaves behind. The call tests a number, asks for a duplicate there and compares;
it keeps a duplicate that has come out higher, and it takes the error code for the number -1. Between two of
its system calls other threads open and close descriptors. -/

namespace RpcMt

open Runs

namespace FdTable

theorem lowestFree_of_free {t : FdTable} {n : Nat} (h : t.Free n) : t.lowestFree n = some n := by
  refine List.find?_range_eq_some.mpr ⟨?_, List.mem_range.mpr h.1, ?_⟩
  · simp [h.2]
  · intro j hj
    simp [Nat.not_le.mpr hj]

/-- The three outcomes of `F_DUPFD` on an open descriptor. -/
theorem dupfd_cases {t : FdTable} {fd file : Nat} (n : Int) (h : t.files fd = some file) :
    ((n < 0 ∨ t.lowestFree n.toNat = none) ∧ t.dupfd fd n = (-1, t)) ∨
      ∃ k, 0 ≤ n ∧ t.lowestFree n.toNat = some k ∧ t.dupfd fd n = (↑k, t.opened k file) := by
  unfold dupfd
  rw [h]
  by_cases hn : n < 0
  · exact Or.inl ⟨Or.inl hn, if_pos hn⟩
  · dsimp only
    rw [if_neg hn]
    cases hk : t.lowestFree n.toNat with
    | none => exact Or.inl ⟨Or.inr rfl, rfl⟩
    | some k => exact Or.inr ⟨k, Int.not_lt.mp hn, rfl, rfl⟩

/-- Where the number asked for is free, or there is none at or above it, nothing else is opened. -/
theorem dupfd_granted {t : FdTable} {fd file : Nat} {n : Int} (h : t.files fd = some file)
    (hgranted : n < 0 ∨ t.Free n.toNat ∨ t.lowestFree n.toNat = none) :
    t.dupfd fd n = (-1, t) ∨ 0 ≤ n ∧ t.Free n.toNat ∧ t.dupfd fd n = (n, t.opened n.toNat file) := by
  obtain ⟨_, hdup⟩ | ⟨k, hn, hk, hdup⟩ := dupfd_cases n h
  · exact Or.inl hdup
  · have hfree : t.Free n.toNat := by
      obtain hneg | hfree | hnone := hgranted
      · exact absurd hn (Int.not_le.mpr hneg)
      · exact hfree
      · rw [hnone] at hk
        cases hk
    have hkn : k = n.toNat := Option.some.inj (hk.symm.trans (lowestFree_of_free hfree))
    refine Or.inr ⟨hn, hfree, ?_⟩
    rw [hdup, hkn, Int.toNat_of_nonneg hn]

/-- A duplicate takes a free number. -/
theorem dupfd_files (t : FdTable) (fd : Nat) (n : Int) {k file : Nat} (h : t.files k = some file) :
    (t.dupfd fd n).2.files k = some file := by
  cases hfd : t.files fd with
  | none =>
      rw [dupfd, hfd]
      exact h
  | some file' =>
      obtain ⟨_, heq⟩ | ⟨j, _, hj, heq⟩ := dupfd_cases n hfd
      · rw [heq]
        exact h
      · have hne : k ≠ j := by
          rintro rfl
          rw [(lowestFree_spec hj).2.2] at h
          cases h
        rw [heq]
        exact (Function.update_of_ne hne _ _).trans h

end FdTable

/-! ### Runs of a call -/

namespace Relocation

/-- A call of `move_fd`, with the numbers that it has opened. -/
structure Call where
  fds : FdTable
  move : Move
  opened : List Nat

inductive Event where
  | call
  | opens (n file : Nat)
  | closes (n : Nat)

def start (region : FdRegion) (fd : Nat) (t : FdTable) : Call := ⟨t, Move.start region fd, []⟩

/-- The number that comes with the next system call of the call, if that is a duplicate that is made. -/
def opens (fd : Nat) (t : FdTable) : Move → List Nat
  | .dup newFd => if 0 ≤ (t.dupfd fd newFd).1 then [(t.dupfd fd newFd).1.toNat] else []
  | _ => []

def returned : Move → Bool
  | .ret _ => true
  | _ => false

/-- A system call of the call, or an open or a close by another thread before it returns. -/
def step (region : FdRegion) (fd : Nat) (s : Call) : Event → Option Call
  | .call => (s.move.step region fd s.fds).map fun r => ⟨r.2, r.1, s.opened ++ opens fd s.fds s.move⟩
  | .opens n file =>
      if returned s.move = false ∧ s.fds.Free n then some { s with fds := s.fds.opened n file } else none
  | .closes n => if returned s.move = false then some { s with fds := s.fds.closed n } else none

/-- The result is in the region and refers to the connection `c`, and of the numbers of the call no other
does. -/
def Settled (region : FdRegion) (fd c : Nat) (s : Call) (r : Int) : Prop :=
  region.lo ≤ r ∧ r ≤ region.hi ∧ s.fds.files r.toNat = some c ∧
    ∀ d, d = fd ∨ d ∈ s.opened → s.fds.files d = some c → (d : Int) = r

/-- Other threads close descriptors of their own. -/
def Theirs (fd : Nat) (s : Call) : Event → Prop
  | .closes n => n ≠ fd ∧ n ∉ s.opened
  | _ => True

/-- What `F_DUPFD` is asked for is not -1, and is free, unless there is nothing to be had. -/
def Granted (s : Call) : Event → Prop
  | .call => match s.move with
      | .dup newFd => newFd ≠ -1 ∧ (newFd < 0 ∨ s.fds.Free newFd.toNat ∨ s.fds.lowestFree newFd.toNat = none)
      | _ => True
  | _ => True

instance (fd : Nat) (s : Call) (e : Event) : Decidable (Theirs fd s e) := by
  cases e with
  | closes n => exact inferInstanceAs (Decidable (n ≠ fd ∧ n ∉ s.opened))
  | _ => exact inferInstanceAs (Decidable True)

instance (s : Call) (e : Event) : Decidable (Granted s e) := by
  cases e with
  | call =>
      unfold Granted
      cases s.move with
      | dup newFd => exact inferInstanceAs (Decidable (newFd ≠ -1 ∧ (_ ∨ _ ∨ _)))
      | _ => exact inferInstanceAs (Decidable True)
  | _ => exact inferInstanceAs (Decidable True)

/-! ### The walk through a region -/

/-- A region with an order; its bounds are of type `int`. -/
structure Ordered (region : FdRegion) : Prop where
  lo : 0 ≤ region.lo
  le : region.lo ≤ region.hi
  hi : region.hi < 2 ^ 31
  order : region.order = 1 ∨ region.order = -1

/-- A number of the region, or one of those behind the largest `int`. -/
def Walking (region : FdRegion) (n : Int) : Prop :=
  region.lo ≤ n ∧ n ≤ region.hi ∨ region.order = 1 ∧ -2 ^ 31 ≤ n ∧ n < 0

theorem advance_test {region : FdRegion} {n : Int} {m : Move} (h : Move.advance region n = some m) :
    ∃ n', m = .test n' := by
  unfold Move.advance at h
  dsimp only at h
  split at h
  · cases h
  · cases h
    exact ⟨_, rfl⟩

theorem advance_walking {region : FdRegion} (hregion : Ordered region) {n : Int} (hn : Walking region n)
    (hne : n ≠ -1) {m : Move} (h : Move.advance region n = some m) : ∃ n', m = .test n' ∧ Walking region n' := by
  obtain ⟨hlo, hle, hhi, horder⟩ := hregion
  unfold Move.advance at h
  dsimp only at h
  split at h
  · cases h
  · rename_i hend
    cases h
    refine ⟨_, rfl, ?_⟩
    unfold Walking at hn ⊢
    unfold Move.endFd castInt at hend
    unfold castInt
    obtain hone | hminus := horder
    · rw [hone, if_pos rfl] at hend
      rw [hone] at hn ⊢
      omega
    · rw [hminus, if_neg (by decide)] at hend
      rw [hminus] at hn ⊢
      omega

theorem start_walking {region : FdRegion} (hregion : Ordered region) (fd : Nat) :
    ∃ n, Move.start region fd = .test n ∧ Walking region n := by
  obtain ⟨hlo, hle, hhi, horder⟩ := hregion
  unfold Move.start
  obtain hone | hminus := horder
  · rw [if_neg (by omega), if_pos hone]
    exact ⟨_, rfl, Or.inl ⟨Int.le_refl _, hle⟩⟩
  · rw [if_neg (by omega), if_neg (by omega)]
    exact ⟨_, rfl, Or.inl ⟨hle, Int.le_refl _⟩⟩

/-! ### Clean and spoiled calls -/

/-- The call has opened nothing but its result. -/
def Clean (region : FdRegion) (fd c : Nat) (s : Call) : Prop :=
  match s.move with
  | .test n | .dup n => Walking region n ∧ s.fds.files fd = some c ∧ s.opened = []
  | .close d =>
      (region.lo ≤ d ∧ d ≤ region.hi) ∧ s.fds.files d.toNat = some c ∧ s.opened = [d.toNat] ∧
        s.fds.files fd = some c ∧ d.toNat ≠ fd
  | .ret d =>
      (region.lo ≤ d ∧ d ≤ region.hi) ∧ s.fds.files d.toNat = some c ∧ s.opened = [d.toNat] ∧
        s.fds.files fd = none

/-- The number that the call is going to return. -/
def result : Move → Option Int
  | .close d | .ret d => some d
  | _ => none

/-- A number that the call has opened is left over, or the result is the error code. -/
def Spoiled (fd c : Nat) (s : Call) : Prop :=
  (∃ k, k ∈ s.opened ∧ s.fds.files k = some c ∧ k ≠ fd ∧ result s.move ≠ some (k : Int)) ∨ result s.move = some (-1)

section Step

variable {region : FdRegion} {fd c : Nat} {s t : Call}

/-- A step of another thread changes no number of the call. -/
theorem step_frame {e : Event} (he : e ≠ .call) (htheirs : Theirs fd s e) (h : step region fd s e = some t) :
    t.move = s.move ∧ t.opened = s.opened ∧
      ∀ k file, k = fd ∨ k ∈ s.opened → s.fds.files k = some file → t.fds.files k = some file := by
  cases e with
  | call => exact absurd rfl he
  | opens n file =>
      rw [step] at h
      split at h
      · rename_i hfree
        cases h
        refine ⟨rfl, rfl, ?_⟩
        intro k file' _ hk
        have hne : k ≠ n := by
          rintro rfl
          rw [hfree.2.2] at hk
          cases hk
        exact (Function.update_of_ne hne _ _).trans hk
      · cases h
  | closes n =>
      rw [step] at h
      split at h
      · cases h
        refine ⟨rfl, rfl, ?_⟩
        rintro k file' hmine hk
        have hne : k ≠ n := by
          rintro rfl
          obtain rfl | hk' := hmine
          · exact htheirs.1 rfl
          · exact htheirs.2 hk'
        exact (Function.update_of_ne hne _ _).trans hk
      · cases h

theorem not_returned {e : Event} (he : e ≠ .call) (h : step region fd s e = some t) : returned s.move = false := by
  cases e with
  | call => exact absurd rfl he
  | opens n file =>
      rw [step] at h
      split at h
      · rename_i hfree
        exact hfree.1
      · cases h
  | closes n =>
      rw [step] at h
      split at h
      · assumption
      · cases h

theorem Clean.other {e : Event} (hs : Clean region fd c s) (he : e ≠ .call) (htheirs : Theirs fd s e)
    (h : step region fd s e = some t) : Clean region fd c t := by
  obtain ⟨hmove, hopened, hfiles⟩ := step_frame he htheirs h
  have hcalling := not_returned he h
  unfold Clean at hs ⊢
  rw [hmove, hopened]
  cases hm : s.move with
  | test n =>
      rw [hm] at hs
      exact ⟨hs.1, hfiles fd c (Or.inl rfl) hs.2.1, hs.2.2⟩
  | dup n =>
      rw [hm] at hs
      exact ⟨hs.1, hfiles fd c (Or.inl rfl) hs.2.1, hs.2.2⟩
  | close d =>
      rw [hm] at hs
      obtain ⟨hrange, hd, hop, hfd, hne⟩ := hs
      have hmem : d.toNat ∈ s.opened := by
        rw [hop]
        exact List.mem_singleton_self _
      exact ⟨hrange, hfiles _ c (Or.inr hmem) hd, hop, hfiles fd c (Or.inl rfl) hfd, hne⟩
  | ret d =>
      rw [hm] at hcalling
      cases hcalling

theorem Spoiled.other {e : Event} (hs : Spoiled fd c s) (he : e ≠ .call) (htheirs : Theirs fd s e)
    (h : step region fd s e = some t) : Spoiled fd c t := by
  obtain ⟨hmove, hopened, hfiles⟩ := step_frame he htheirs h
  unfold Spoiled at hs ⊢
  rw [hmove, hopened]
  obtain ⟨k, hk, hfile, hne, hres⟩ | hres := hs
  · exact Or.inl ⟨k, hk, hfiles k c (Or.inr hk) hfile, hne, hres⟩
  · exact Or.inr hres

/-- What the call does, by where it stands. -/
theorem call_cases (h : step region fd s .call = some t) :
    (∃ n, s.move = .test n ∧ t.fds = s.fds ∧ t.opened = s.opened ∧
        (s.fds.fdIsOpen n = true ∧ Move.advance region n = some t.move ∨
          s.fds.fdIsOpen n = false ∧ t.move = .dup n)) ∨
      (∃ n, s.move = .dup n ∧ t.fds = (s.fds.dupfd fd n).2 ∧ t.opened = s.opened ++ opens fd s.fds (.dup n) ∧
        ((s.fds.dupfd fd n).1 = n ∧ t.move = .close n ∨
          (s.fds.dupfd fd n).1 ≠ n ∧ Move.advance region n = some t.move)) ∨
      ∃ d, s.move = .close d ∧ t.fds = s.fds.closed fd ∧ t.opened = s.opened ∧ t.move = .ret d := by
  obtain ⟨⟨m, fds⟩, hmove, rfl⟩ := Option.map_eq_some_iff.mp h
  cases hm : s.move with
  | test n =>
      rw [hm, Move.step] at hmove
      split at hmove
      · rename_i hopen
        obtain ⟨m', hadv, heq⟩ := Option.map_eq_some_iff.mp hmove
        cases heq
        exact Or.inl ⟨n, rfl, rfl, List.append_nil _, Or.inl ⟨hopen, hadv⟩⟩
      · rename_i hopen
        cases hmove
        exact Or.inl ⟨n, rfl, rfl, List.append_nil _, Or.inr ⟨Bool.eq_false_iff.mpr hopen, rfl⟩⟩
  | dup n =>
      rw [hm, Move.step] at hmove
      split at hmove
      · rename_i heq
        cases hmove
        exact Or.inr (Or.inl ⟨n, rfl, rfl, rfl, Or.inl ⟨heq, rfl⟩⟩)
      · rename_i hne
        obtain ⟨m', hadv, heq⟩ := Option.map_eq_some_iff.mp hmove
        cases heq
        exact Or.inr (Or.inl ⟨n, rfl, rfl, rfl, Or.inr ⟨hne, hadv⟩⟩)
  | close d =>
      rw [hm, Move.step] at hmove
      cases hmove
      exact Or.inr (Or.inr ⟨d, rfl, rfl, List.append_nil _, rfl⟩)
  | ret d =>
      rw [hm, Move.step] at hmove
      cases hmove

theorem Clean.granted (hregion : Ordered region) (hs : Clean region fd c s) (hgranted : Granted s .call)
    (h : step region fd s .call = some t) : Clean region fd c t := by
  unfold Clean at hs
  obtain ⟨n, hm, hfds, hop, hcase⟩ | ⟨n, hm, hfds, hop, hcase⟩ | ⟨d, hm, hfds, hop, hret⟩ := call_cases h
  · rw [hm] at hs
    obtain ⟨hwalk, hfd, hnone⟩ := hs
    obtain ⟨hopen, hadv⟩ | ⟨_, hdup⟩ := hcase
    · have hne : n ≠ -1 := by
        rintro rfl
        cases hopen
      obtain ⟨n', hn', hwalk'⟩ := advance_walking hregion hwalk hne hadv
      unfold Clean
      rw [hn', hfds, hop]
      exact ⟨hwalk', hfd, hnone⟩
    · unfold Clean
      rw [hdup, hfds, hop]
      exact ⟨hwalk, hfd, hnone⟩
  · unfold Granted at hgranted
    rw [hm] at hs hgranted
    obtain ⟨hwalk, hfd, hnone⟩ := hs
    obtain ⟨hne, hgranted⟩ := hgranted
    obtain hdup | ⟨hn, hfree, hdup⟩ := FdTable.dupfd_granted hfd hgranted
    · -- nothing is opened, and the walk goes on
      rw [hdup] at hfds hcase
      obtain ⟨heq, _⟩ | ⟨_, hadv⟩ := hcase
      · exact absurd heq.symm hne
      · obtain ⟨n', hn', hwalk'⟩ := advance_walking hregion hwalk hne hadv
        unfold Clean
        rw [hn', hfds, hop, hnone, opens, hdup]
        exact ⟨hwalk', hfd, rfl⟩
    · rw [hdup] at hfds hcase
      obtain ⟨_, hclose⟩ | ⟨hne', _⟩ := hcase
      · have hfdne : n.toNat ≠ fd := by
          intro heq
          rw [← heq, hfree.2] at hfd
          cases hfd
        have hrange : region.lo ≤ n ∧ n ≤ region.hi := by
          obtain hrange | ⟨_, _, hneg⟩ := hwalk
          · exact hrange
          · exact absurd hn (Int.not_le.mpr hneg)
        unfold Clean
        rw [hclose, hfds, hop, hnone, opens, hdup]
        refine ⟨hrange, Function.update_self .., ?_, (Function.update_of_ne hfdne.symm _ _).trans hfd, hfdne⟩
        rw [if_pos hn]
        rfl
      · exact absurd rfl hne'
  · rw [hm] at hs
    obtain ⟨hrange, hd, hopened, hfd, hne⟩ := hs
    unfold Clean
    rw [hret, hfds, hop]
    exact ⟨hrange, (Function.update_of_ne hne _ _).trans hd, hopened, Function.update_self ..⟩

theorem Clean.refused (hs : Clean region fd c s) (hgranted : ¬ Granted s .call)
    (h : step region fd s .call = some t) : Spoiled fd c t := by
  unfold Clean at hs
  unfold Granted at hgranted
  obtain ⟨n, hm, _⟩ | ⟨n, hm, hfds, hop, hcase⟩ | ⟨d, hm, _⟩ := call_cases h
  · rw [hm] at hgranted
    exact absurd trivial hgranted
  · rw [hm] at hs hgranted
    obtain ⟨_, hfd, hnone⟩ := hs
    obtain ⟨hfail, hdup⟩ | ⟨k, hn, hk, hdup⟩ := FdTable.dupfd_cases n hfd
    · have hminus : n = -1 := by
        by_contra hne
        obtain hneg | hnone' := hfail
        · exact hgranted ⟨hne, Or.inl hneg⟩
        · exact hgranted ⟨hne, Or.inr (Or.inr hnone')⟩
      rw [hdup] at hcase
      obtain ⟨_, hclose⟩ | ⟨hne, _⟩ := hcase
      · refine Or.inr ?_
        rw [hclose, hminus]
        rfl
      · exact absurd hminus.symm hne
    · have hfree := (FdTable.lowestFree_spec hk).2
      have hne : (k : Int) ≠ n := by
        intro heq
        have hkn : k = n.toNat := by omega
        exact hgranted ⟨by omega, Or.inr (Or.inl (hkn ▸ hfree))⟩
      rw [hdup] at hfds hcase
      obtain ⟨heq, _⟩ | ⟨_, hadv⟩ := hcase
      · exact absurd heq hne
      · -- the duplicate stays open while the walk goes on
        have hkfd : k ≠ fd := by
          rintro rfl
          rw [hfree.2] at hfd
          cases hfd
        refine Or.inl ⟨k, ?_, ?_, hkfd, ?_⟩
        · rw [hop, opens, hdup, if_pos (Int.natCast_nonneg k)]
          exact List.mem_append_right _ (List.mem_singleton_self _)
        · rw [hfds]
          exact Function.update_self ..
        · obtain ⟨n', hn'⟩ := advance_test hadv
          rw [hn']
          exact nofun
  · rw [hm] at hgranted
    exact absurd trivial hgranted

theorem Spoiled.call (hs : Spoiled fd c s) (h : step region fd s .call = some t) : Spoiled fd c t := by
  obtain ⟨n, hm, hfds, hop, hcase⟩ | ⟨n, hm, hfds, hop, hcase⟩ | ⟨d, hm, hfds, hop, hret⟩ := call_cases h
  · obtain ⟨k, hk, hfile, hne, _⟩ | hres := hs
    · refine Or.inl ⟨k, hop ▸ hk, hfds ▸ hfile, hne, ?_⟩
      obtain ⟨_, hadv⟩ | ⟨_, hdup⟩ := hcase
      · obtain ⟨n', hn'⟩ := advance_test hadv
        rw [hn']
        exact nofun
      · rw [hdup]
        exact nofun
    · rw [hm] at hres
      cases hres
  · obtain ⟨k, hk, hfile, hne, _⟩ | hres := hs
    · refine Or.inl ⟨k, ?_, ?_, hne, ?_⟩
      · rw [hop]
        exact List.mem_append_left _ hk
      · rw [hfds]
        exact s.fds.dupfd_files fd n hfile
      · obtain ⟨heq, hclose⟩ | ⟨_, hadv⟩ := hcase
        · rw [hclose]
          intro hkn
          have hnk : n = (k : Int) := Option.some.inj hkn
          obtain hminus | ⟨_, hfree⟩ := FdTable.dupfd_range heq
          · omega
          · rw [hnk, Int.toNat_natCast] at hfree
            rw [hfree.2] at hfile
            cases hfile
        · obtain ⟨n', hn'⟩ := advance_test hadv
          rw [hn']
          exact nofun
    · rw [hm] at hres
      cases hres
  · rw [Spoiled, hm] at hs
    obtain ⟨k, hk, hfile, hne, hres⟩ | hres := hs
    · refine Or.inl ⟨k, hop ▸ hk, ?_, hne, ?_⟩
      · rw [hfds]
        exact (Function.update_of_ne hne _ _).trans hfile
      · rw [hret]
        exact hres
    · refine Or.inr ?_
      rw [hret]
      exact hres

end Step

/-! ### The return -/

theorem Clean.settled {region : FdRegion} (hlo : 0 ≤ region.lo) {fd c : Nat} {s : Call} {r : Int}
    (hs : Clean region fd c s) (hret : s.move = .ret r) : Settled region fd c s r := by
  rw [Clean, hret] at hs
  obtain ⟨⟨hrlo, hrhi⟩, hr, hopened, hfd⟩ := hs
  refine ⟨hrlo, hrhi, hr, ?_⟩
  rintro d (rfl | hd) hfile
  · rw [hfd] at hfile
    cases hfile
  · rw [hopened, List.mem_singleton] at hd
    rw [hd, Int.toNat_of_nonneg (Int.le_trans hlo hrlo)]

theorem Spoiled.not_settled {region : FdRegion} (hlo : 0 ≤ region.lo) {fd c : Nat} {s : Call} {r : Int}
    (hs : Spoiled fd c s) (hret : s.move = .ret r) : ¬ Settled region fd c s r := by
  rintro ⟨hrlo, _, _, honly⟩
  rw [Spoiled, hret] at hs
  obtain ⟨k, hk, hfile, _, hres⟩ | hres := hs
  · exact hres (congrArg some (honly k (Or.inr hk) hfile).symm)
  · have hr : r = -1 := Option.some.inj hres
    omega

/-- While other threads keep to descriptors of their own, a call that returns has settled exactly if each of
its duplicates was granted. -/
theorem moveFd_settled_iff {region : FdRegion} (hregion : Ordered region) {fd c : Nat} {t : FdTable}
    (hfd : t.files fd = some c) {es : List Event} {s : Call} {r : Int}
    (h : exec (step region fd) (Theirs fd) (start region fd t) es = some s) (hret : s.move = .ret r) :
    Settled region fd c s r ↔
      exec (step region fd) (fun s e => Theirs fd s e ∧ Granted s e) (start region fd t) es = some s := by
  have hstart : Clean region fd c (start region fd t) := by
    obtain ⟨n, hn, hwalk⟩ := start_walking hregion fd
    unfold Clean start
    rw [hn]
    exact ⟨hwalk, hfd, rfl⟩
  have hgood : ∀ s e t, Clean region fd c s → Theirs fd s e → Granted s e → step region fd s e = some t →
      Clean region fd c t := by
    intro s e t hs htheirs hgranted hst
    by_cases he : e = .call
    · subst he
      exact hs.granted hregion hgranted hst
    · exact hs.other he htheirs hst
  have hbad : ∀ s e t, Clean region fd c s → Theirs fd s e → ¬ Granted s e → step region fd s e = some t →
      Spoiled fd c t := by
    intro s e t hs _ hgranted hst
    cases e with
    | call => exact hs.refused hgranted hst
    | _ => exact absurd trivial hgranted
  have hkeep : ∀ s e t, Spoiled fd c s → Theirs fd s e → step region fd s e = some t → Spoiled fd c t := by
    intro s e t hs htheirs hst
    by_cases he : e = .call
    · subst he
      exact hs.call hst
    · exact hs.other he htheirs hst
  obtain ⟨hclean, hexec⟩ | ⟨hspoiled, hexec⟩ :=
    exec_clean_or_spoiled (step region fd) (Theirs fd) Granted hgood hbad hkeep hstart es h
  · exact iff_of_true (hclean.settled hregion.lo hret) hexec
  · refine iff_of_false (hspoiled.not_settled hregion.lo hret) ?_
    rw [hexec]
    exact nofun

/-- Three numbers from 4 on; the process has four descriptors and a limit of eight. -/
def smallRegion : FdRegion := ⟨4, 6, 1⟩

def smallTable : FdTable := ⟨8, fun n => if n < 4 then some n else none⟩

/-- The call as it returns: 6 was opened by another thread, 4 is the duplicate. -/
def smallReturn : Call := ⟨((smallTable.opened 6 9).opened 4 3).closed 3, .ret 4, [4]⟩

theorem moveFd_settled_iff_small : Settled smallRegion 3 3 smallReturn 4 := by
  have hregion : Ordered smallRegion := ⟨by decide, by decide, by decide, by decide⟩
  have hexec : exec (step smallRegion 3) (Theirs 3) (start smallRegion 3 smallTable)
      [.call, .opens 6 9, .call, .call] = some smallReturn := rfl
  exact (moveFd_settled_iff hregion rfl hexec rfl).mpr rfl

/-- Another thread opens the number that has been found closed. -/
theorem moveFd_settled_counterexample :
    ¬ ∀ (region : FdRegion) (fd c : Nat) (t : FdTable) (es : List Event) (s : Call) (r : Int), Ordered region →
      t.files fd = some c → exec (step region fd) anyStep (start region fd t) es = some s → s.move = .ret r →
      Settled region fd c s r := by
  intro hall
  have hregion : Ordered smallRegion := ⟨by decide, by decide, by decide, by decide⟩
  have hsettled := hall smallRegion 3 3 smallTable [.call, .opens 4 9, .call, .call, .call, .call, .call] _ 6 hregion
    rfl rfl rfl
  have hleft := hsettled.2.2.2 5 (Or.inr (by decide)) (by decide)
  exact absurd hleft (by decide)

end Relocation

end RpcMt
