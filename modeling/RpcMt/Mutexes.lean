import Mathlib.Logic.Relation

/-! Threads that wait for default mutexes. A mutex has at most one holder, a thread waits for at most one
mutex, and a deadlock is a cycle of threads each of which waits for a mutex that the next one holds;
a thread that waits for what it holds itself is a cycle of one. -/

open Relation

namespace RpcMt.Mutexes

variable {τ μ : Type}

/-- Thread `t` waits for a mutex that `u` holds. -/
def WaitsFor (holder : μ → Option τ) (wants : τ → Option μ) (t u : τ) : Prop :=
  ∃ m, wants t = some m ∧ holder m = some u

def Deadlock (holder : μ → Option τ) (wants : τ → Option μ) : Prop :=
  ∃ t, TransGen (WaitsFor holder wants) t t

variable {holder : μ → Option τ} {wants : τ → Option μ} {t u : τ} {m m' : μ}

theorem Deadlock.of_self (hw : wants t = some m) (hh : holder m = some t) : Deadlock holder wants :=
  ⟨t, .single ⟨m, hw, hh⟩⟩

theorem Deadlock.of_pair (ht : wants t = some m) (hu : holder m = some u) (hw : wants u = some m')
    (hh : holder m' = some t) : Deadlock holder wants :=
  ⟨t, .tail (.single ⟨m, ht, hu⟩) ⟨m', hw, hh⟩⟩

/-- On a cycle one can always go on. -/
theorem exists_next (h : TransGen (WaitsFor holder wants) t t) :
    ∃ m u, wants t = some m ∧ holder m = some u ∧ TransGen (WaitsFor holder wants) u u := by
  obtain ⟨u, ⟨m, hw, hh⟩, hrest⟩ := TransGen.head'_iff.mp h
  exact ⟨m, u, hw, hh, TransGen.tail' hrest ⟨m, hw, hh⟩⟩

end RpcMt.Mutexes
