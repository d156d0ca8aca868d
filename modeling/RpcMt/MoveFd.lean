import Mathlib.Logic.Function.Basic
import RpcMt.SvcConfig

/-! Descriptors, and how `svc_tcp.c` relocates them. The system gives out the numbers below the limit of
the process; `F_DUPFD` gives the lowest free one from a bound on. `move_fd` walks the region in its order
and, at a number that is not open, asks for a duplicate there; between two of its calls other threads may
open and close descriptors. -/

namespace RpcMt

/-- The descriptors of the process, with what each refers to. -/
structure FdTable where
  limit : Nat
  files : Nat → Option Nat

namespace FdTable

/-- A number the system may give out. -/
def Free (t : FdTable) (n : Nat) : Prop := n < t.limit ∧ t.files n = none

instance (t : FdTable) (n : Nat) : Decidable (t.Free n) := by
  unfold Free
  infer_instance

def opened (t : FdTable) (n file : Nat) : FdTable := { t with files := Function.update t.files n (some file) }

def closed (t : FdTable) (n : Nat) : FdTable := { t with files := Function.update t.files n none }

/-- `fd_is_open`. -/
def fdIsOpen (t : FdTable) (fd : Int) : Bool := decide (0 ≤ fd) && (t.files fd.toNat).isSome

def lowestFree (t : FdTable) (n : Nat) : Option Nat :=
  (List.range t.limit).find? fun k => decide (n ≤ k) && (t.files k).isNone

/-- `fcntl(fd, F_DUPFD, n)`: the number it returns, with the duplicate in the table. -/
def dupfd (t : FdTable) (fd : Nat) (n : Int) : Int × FdTable :=
  match t.files fd with
  | none => (-1, t)
  | some file =>
      if n < 0 then (-1, t)
      else match t.lowestFree n.toNat with
        | none => (-1, t)
        | some k => (k, t.opened k file)

theorem lowestFree_spec {t : FdTable} {n k : Nat} (h : t.lowestFree n = some k) : n ≤ k ∧ t.Free k := by
  have hp := List.find?_some h
  have hlt := List.mem_range.mp (List.mem_of_find?_eq_some h)
  simp only [Bool.and_eq_true, decide_eq_true_eq, Option.isNone_iff_eq_none] at hp
  exact ⟨hp.1, hlt, hp.2⟩

/-- What the code asks for comes back where it is free, and also for the number that means an error. -/
theorem dupfd_range {t : FdTable} {fd : Nat} {n : Int} (h : (t.dupfd fd n).1 = n) :
    n = -1 ∨ 0 ≤ n ∧ t.Free n.toNat := by
  unfold dupfd at h
  split at h
  · exact Or.inl h.symm
  · split at h
    · exact Or.inl h.symm
    · split at h
      · exact Or.inl h.symm
      · rename_i hn _ k hk
        have hkn : (k : Int) = n := h
        refine Or.inr ⟨Int.not_lt.mp hn, ?_⟩
        rw [← hkn]
        exact (lowestFree_spec hk).2

theorem dupfd_limit (t : FdTable) (fd : Nat) (n : Int) : (t.dupfd fd n).2.limit = t.limit := by
  unfold dupfd
  split
  · rfl
  · split
    · rfl
    · split <;> rfl

end FdTable

/-! ### `move_fd` -/

/-- Where a call of `move_fd` stands: before `fd_is_open`, before `F_DUPFD`, before the `close` of the
descriptor it was given, or at its end. -/
inductive Move where
  | test (newFd : Int)
  | dup (newFd : Int)
  | close (dupFd : Int)
  | ret (fd : Int)
  deriving DecidableEq

namespace Move

/-- The call begins: without a region the descriptor stays where it is. -/
def start (region : FdRegion) (fd : Nat) : Move :=
  if region.order = 0 then .ret fd else if region.order = 1 then .test region.lo else .test region.hi

def endFd (region : FdRegion) : Int := if region.order = 1 then region.hi else region.lo

/-- The next number of the region; past its end `svc_die` ends the process. -/
def advance (region : FdRegion) (newFd : Int) : Option Move :=
  let newFd := castInt 32 (newFd + region.order)
  if castInt 32 (endFd region * region.order) < castInt 32 (newFd * region.order) then none
  else some (.test newFd)

/-- One call that `move_fd(fd)` makes. -/
def step (region : FdRegion) (fd : Nat) (t : FdTable) : Move → Option (Move × FdTable)
  | .test newFd =>
      if t.fdIsOpen newFd then (advance region newFd).map fun m => (m, t) else some (.dup newFd, t)
  | .dup newFd =>
      let r := t.dupfd fd newFd
      if r.1 = newFd then some (.close newFd, r.2) else (advance region newFd).map fun m => (m, r.2)
  | .close dupFd => some (.ret dupFd, t.closed fd)
  | .ret _ => none

end Move

end RpcMt
