import Mathlib.Data.List.Basic

/-! Runs of a partial, labelled step function. A label is one atomic action of one party, a list of
labels is an interleaving, and a step that is not enabled has no successor. The rules below turn what
one step preserves into what every run preserves, for all runs or for the runs whose steps all meet
a condition on the state they start from. -/

namespace RpcMt.Runs

variable {σ ε : Type}

/-- The states reached from `s₀` by runs all of whose steps meet `ok`. -/
inductive Reached (step : σ → ε → Option σ) (ok : σ → ε → Prop) (s₀ : σ) : σ → Prop
  | start : Reached step ok s₀ s₀
  | next {s t : σ} {e : ε} (hs : Reached step ok s₀ s) (hok : ok s e) (hst : step s e = some t) :
      Reached step ok s₀ t

/-- The condition that restricts nothing: every run. -/
def anyStep (_ : σ) (_ : ε) : Prop := True

namespace Reached

variable {step : σ → ε → Option σ} {ok ok' : σ → ε → Prop} {s₀ s t : σ}

/-- What holds at the start and is kept by every admitted step holds in every state reached. -/
theorem invariant (inv : σ → Prop) (h₀ : inv s₀)
    (hstep : ∀ s e t, inv s → ok s e → step s e = some t → inv t)
    (h : Reached step ok s₀ s) : inv s := by
  induction h with
  | start => exact h₀
  | next _ hok hst ih => exact hstep _ _ _ ih hok hst

theorem mono (hle : ∀ s e, ok s e → ok' s e) (h : Reached step ok s₀ s) : Reached step ok' s₀ s := by
  induction h with
  | start => exact .start
  | next _ hok hst ih => exact .next ih (hle _ _ hok) hst

end Reached

instance (s : σ) (e : ε) : Decidable (anyStep s e) := inferInstanceAs (Decidable True)

section Exec

variable (step : σ → ε → Option σ) (ok : σ → ε → Prop) [∀ s e, Decidable (ok s e)]

/-- Run a whole interleaving, as far as every step is enabled and meets `ok`. -/
def exec (s : σ) : List ε → Option σ
  | [] => some s
  | e :: es => if ok s e then (step s e).bind fun t => exec t es else none

theorem exec_cons {s t : σ} {e : ε} {es : List ε} (h : exec step ok s (e :: es) = some t) :
    ok s e ∧ ∃ u, step s e = some u ∧ exec step ok u es = some t := by
  rw [exec] at h
  split at h
  · rename_i hok
    exact ⟨hok, Option.bind_eq_some_iff.mp h⟩
  · cases h

theorem exec_append (s : σ) (es es' : List ε) :
    exec step ok s (es ++ es') = (exec step ok s es).bind fun t => exec step ok t es' := by
  induction es generalizing s with
  | nil => rfl
  | cons e es ih =>
      rw [List.cons_append, exec, exec]
      by_cases hok : ok s e
      · rw [if_pos hok, if_pos hok]
        cases step s e with
        | none => rfl
        | some t => exact ih t
      · rw [if_neg hok, if_neg hok]
        rfl

theorem exec_snoc {s t : σ} {es : List ε} {e : ε} (h : exec step ok s (es ++ [e]) = some t) :
    ∃ u, exec step ok s es = some u ∧ ok u e ∧ step u e = some t := by
  rw [exec_append] at h
  obtain ⟨u, hu, hlast⟩ := Option.bind_eq_some_iff.mp h
  obtain ⟨hok, v, hv, hnil⟩ := exec_cons step ok hlast
  cases hnil
  exact ⟨u, hu, hok, hv⟩

theorem reached_of_exec {s₀ s t : σ} (hs : Reached step ok s₀ s) (es : List ε)
    (h : exec step ok s es = some t) : Reached step ok s₀ t := by
  induction es generalizing s with
  | nil =>
      cases h
      exact hs
  | cons e es ih =>
      obtain ⟨hok, u, hu, hes⟩ := exec_cons step ok h
      exact ih (.next hs hok hu) hes

/-- An abstract state kept in step with a run is a fold over its labels. -/
theorem exec_foldl {τ : Type} {R : σ → τ → Prop} {f : τ → ε → τ}
    (hstep : ∀ s m e t, R s m → step s e = some t → R t (f m e)) {s t : σ} {m : τ} (hR : R s m)
    (es : List ε) (h : exec step ok s es = some t) : R t (es.foldl f m) := by
  induction es generalizing s m with
  | nil =>
      cases h
      exact hR
  | cons e es ih =>
      obtain ⟨_, u, hu, hes⟩ := exec_cons step ok h
      exact ih (hstep s m e u hR hu) hes

theorem exec_spoiled {spoiled : σ → Prop}
    (hkeep : ∀ s e t, spoiled s → ok s e → step s e = some t → spoiled t) {s t : σ} (hs : spoiled s)
    (es : List ε) (h : exec step ok s es = some t) : spoiled t := by
  induction es generalizing s with
  | nil =>
      cases h
      exact hs
  | cons e es ih =>
      obtain ⟨hok, u, hu, hes⟩ := exec_cons step ok h
      exact ih (hkeep s e u hs hok hu) hes

/-- A run is clean to its end if all its steps are good; one step that is not spoils the run for good. -/
theorem exec_clean_or_spoiled {clean spoiled : σ → Prop} (good : σ → ε → Prop) [∀ s e, Decidable (good s e)]
    (hgood : ∀ s e t, clean s → ok s e → good s e → step s e = some t → clean t)
    (hbad : ∀ s e t, clean s → ok s e → ¬ good s e → step s e = some t → spoiled t)
    (hkeep : ∀ s e t, spoiled s → ok s e → step s e = some t → spoiled t) {s t : σ} (hs : clean s)
    (es : List ε) (h : exec step ok s es = some t) :
    (clean t ∧ exec step (fun s e => ok s e ∧ good s e) s es = some t) ∨
      (spoiled t ∧ exec step (fun s e => ok s e ∧ good s e) s es = none) := by
  induction es generalizing s with
  | nil =>
      cases h
      exact Or.inl ⟨hs, rfl⟩
  | cons e es ih =>
      obtain ⟨hok, u, hu, hes⟩ := exec_cons step ok h
      by_cases hg : good s e
      · have hexec : exec step (fun s e => ok s e ∧ good s e) s (e :: es) =
            exec step (fun s e => ok s e ∧ good s e) u es := by
          rw [exec, if_pos ⟨hok, hg⟩, hu]
          rfl
        rw [hexec]
        exact ih (hgood s e u hs hok hg hu) hes
      · refine Or.inr ⟨exec_spoiled step ok hkeep (hbad s e u hs hok hg hu) es hes, ?_⟩
        rw [exec, if_neg fun hboth => hg hboth.2]

end Exec

end RpcMt.Runs
