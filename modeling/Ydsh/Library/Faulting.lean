import Mathlib.Init

/-
  Computations that may fault or run out of time.

  A loop of an unknown number of rounds is given a bound on its
  rounds.  Two computations agree when both end in related
  values or both run out of time; neither of them faults.

  Main declarations:
    * `Faulting`
    * `Agree`
    * `Agree.bind`
-/

----
-- Computations
----

namespace Ydsh

namespace Library

inductive Faulting (α : Type) where
  | done (value : α)
  | fault
  | timeout
deriving DecidableEq

namespace Faulting

variable {α β γ δ : Type}

def bind
    (x : Faulting α)
    (next : α → Faulting β) : Faulting β :=
  match x with
  | .done value => next value
  | .fault => .fault
  | .timeout => .timeout

def map
    (f : α → β)
    (x : Faulting α) : Faulting β :=
  x.bind (fun value => .done (f value))

@[simp]
theorem bind_done
    (value : α)
    (next : α → Faulting β) :
    (done value).bind next = next value :=
  rfl

@[simp]
theorem map_done
    (f : α → β)
    (value : α) :
    (done value).map f = done (f value) :=
  rfl

----
-- Agreement
----

inductive Agree (R : α → β → Prop) :
    Faulting α → Faulting β → Prop where
  | done {a : α} {b : β} (hRel : R a b) :
      Agree R (.done a) (.done b)
  | timeout : Agree R .timeout .timeout

theorem Agree.bind
    {R : α → β → Prop}
    {S : γ → δ → Prop}
    {x : Faulting α}
    {y : Faulting β}
    {f : α → Faulting γ}
    {g : β → Faulting δ}
    (hAgree : Agree R x y)
    (hNext : ∀ a b, R a b → Agree S (f a) (g b)) :
    Agree S (x.bind f) (y.bind g) := by
  cases hAgree with
  | done hRel => exact hNext _ _ hRel
  | timeout => exact Agree.timeout

theorem Agree.map
    {R : α → β → Prop}
    {S : γ → δ → Prop}
    {x : Faulting α}
    {y : Faulting β}
    {f : α → γ}
    {g : β → δ}
    (hAgree : Agree R x y)
    (hNext : ∀ a b, R a b → S (f a) (g b)) :
    Agree S (x.map f) (y.map g) :=
  hAgree.bind (fun a b hRel => .done (hNext a b hRel))

/- Both branch on the same condition. -/
theorem Agree.ite
    {R : α → β → Prop}
    {p : Prop}
    [Decidable p]
    {x x' : Faulting α}
    {y y' : Faulting β}
    (hThen : p → Agree R x y)
    (hElse : ¬p → Agree R x' y') :
    Agree R (if p then x else x') (if p then y else y') := by
  by_cases hCase : p
  · rw [if_pos hCase, if_pos hCase]
    exact hThen hCase
  · rw [if_neg hCase, if_neg hCase]
    exact hElse hCase

theorem Agree.eq
    {x y : Faulting α}
    (hAgree : Agree Eq x y) :
    x = y := by
  cases hAgree with
  | done hRel => rw [hRel]
  | timeout => rfl

theorem Agree.map_ne_fault
    {R : α → β → Prop}
    {x : Faulting α}
    {y : Faulting β}
    (hAgree : Agree R x y)
    (f : α → γ) :
    x.map f ≠ fault := by
  intro hFault
  cases hAgree with
  | done hRel => cases hFault
  | timeout => cases hFault

end Faulting

end Library

end Ydsh
