import Mathlib.Tactic.Common

/-
  Runs of a deterministic machine driven by events.

  A machine is a partial step function on states and events.
  `exec` runs a list of events; `GuardedRun` is a run whose
  steps all meet a side condition.  `Answered` is a run of any
  step relation with what each step answers.

  Main declarations:
    * `exec`
    * `exec_invariant`
    * `GuardedRun`
    * `GuardedRun.invariant`
    * `Answered.simulated`
-/

----
-- Executions
----

namespace Ydsh

namespace Library

variable {σ α : Type}

def exec
    (step : σ → α → Option σ) : σ → List α → Option σ
  | s, [] => some s
  | s, a :: as =>
      match step s a with
      | some t => exec step t as
      | none => none

@[simp] theorem exec_nil
    (step : σ → α → Option σ)
    (s : σ) :
    exec step s [] = some s :=
  rfl

theorem exec_cons_eq_some
    {step : σ → α → Option σ}
    {s u : σ}
    {a : α}
    {as : List α} :
    exec step s (a :: as) = some u ↔
      ∃ t, step s a = some t ∧ exec step t as = some u := by
  cases hStep : step s a with
  | none => simp [exec, hStep]
  | some t => simp [exec, hStep]

/- A predicate kept by every step holds along every run. -/
theorem exec_invariant
    {step : σ → α → Option σ}
    {I : σ → Prop}
    (hStep :
      ∀ s a t, I s → step s a = some t → I t)
    {s t : σ}
    {as : List α}
    (hRun : exec step s as = some t)
    (hInit : I s) :
    I t := by
  induction as generalizing s with
  | nil =>
      rw [exec_nil] at hRun
      cases hRun
      exact hInit
  | cons a as ih =>
      rcases exec_cons_eq_some.mp hRun with
        ⟨u, hFirst, hRest⟩
      exact ih hRest (hStep s a u hInit hFirst)

----
-- Guarded Runs
----

/- A run whose steps all meet `ok` in the state they start. -/
inductive GuardedRun
    (step : σ → α → Option σ)
    (ok : σ → α → Prop) : σ → List α → σ → Prop where
  | nil (s : σ) : GuardedRun step ok s [] s
  | cons {s t u : σ} {a : α} {as : List α} :
      ok s a →
      step s a = some t →
      GuardedRun step ok t as u →
      GuardedRun step ok s (a :: as) u

variable {step : σ → α → Option σ}
variable {ok : σ → α → Prop}

theorem GuardedRun.exec_eq
    {s t : σ}
    {as : List α}
    (hRun : GuardedRun step ok s as t) :
    exec step s as = some t := by
  induction hRun with
  | nil s => rfl
  | cons _ hStep _ ih =>
      exact exec_cons_eq_some.mpr ⟨_, hStep, ih⟩

/- A run of a list in two parts is a run of each part. -/
theorem GuardedRun.append_iff
    {s u : σ}
    {as bs : List α} :
    GuardedRun step ok s (as ++ bs) u ↔
      ∃ t, GuardedRun step ok s as t ∧
        GuardedRun step ok t bs u := by
  constructor
  · intro hRun
    induction as generalizing s with
    | nil => exact ⟨s, .nil s, hRun⟩
    | cons a as ih =>
        cases hRun with
        | cons hOk hStep hRest =>
            rcases ih hRest with ⟨t, hFirst, hSecond⟩
            exact ⟨t, .cons hOk hStep hFirst, hSecond⟩
  · intro hRuns
    rcases hRuns with ⟨t, hFirst, hSecond⟩
    induction hFirst with
    | nil s => exact hSecond
    | cons hOk hStep _ ih =>
        exact .cons hOk hStep (ih hSecond)

theorem GuardedRun.cons_iff
    {s u : σ}
    {a : α}
    {as : List α} :
    GuardedRun step ok s (a :: as) u ↔
      ok s a ∧ ∃ t, step s a = some t ∧
        GuardedRun step ok t as u := by
  constructor
  · intro hRun
    cases hRun with
    | cons hOk hStep hRest => exact ⟨hOk, _, hStep, hRest⟩
  · intro hRun
    rcases hRun with ⟨hOk, t, hStep, hRest⟩
    exact .cons hOk hStep hRest

theorem GuardedRun.invariant
    {I : σ → Prop}
    (hStep :
      ∀ s a t, I s → ok s a → step s a = some t → I t)
    {s t : σ}
    {as : List α}
    (hRun : GuardedRun step ok s as t)
    (hInit : I s) :
    I t := by
  induction hRun with
  | nil s => exact hInit
  | cons hOk hNext _ ih =>
      exact ih (hStep _ _ _ hInit hOk hNext)

/- A run with the answer to each event. -/
inductive Answered
    {ρ : Type}
    (Step : σ → α → ρ → σ → Prop) :
    σ → List (α × ρ) → σ → Prop where
  | nil (s : σ) : Answered Step s [] s
  | cons {s t u : σ} {a : α} {r : ρ} {as : List (α × ρ)} :
      Step s a r t →
      Answered Step t as u →
      Answered Step s ((a, r) :: as) u

/-
  A run is one of another machine if every step between
  related states is.
-/
theorem Answered.simulated
    {τ ρ : Type}
    {Step : σ → α → ρ → σ → Prop}
    {Abstract : τ → α → ρ → τ → Prop}
    {Rel : σ → τ → Prop}
    (hStep :
      ∀ s a r s' t,
        Rel s t → Step s a r s' →
        ∃ t', Abstract t a r t' ∧ Rel s' t')
    {s s' : σ}
    {as : List (α × ρ)}
    (hRun : Answered Step s as s')
    {t : τ}
    (hRel : Rel s t) :
    ∃ t', Answered Abstract t as t' ∧ Rel s' t' := by
  induction hRun generalizing t with
  | nil s => exact ⟨t, .nil t, hRel⟩
  | cons hFirst _ ih =>
      rcases hStep _ _ _ _ _ hRel hFirst with
        ⟨next, hNext, hRelNext⟩
      rcases ih hRelNext with ⟨last, hRest, hRelLast⟩
      exact ⟨last, .cons hNext hRest, hRelLast⟩

end Library

end Ydsh
