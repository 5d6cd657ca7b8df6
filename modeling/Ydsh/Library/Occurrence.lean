import Mathlib.Data.Set.Basic

/-
  Occurrences in trees with labelled parts.

  A tree is given by the list of its parts, each under a label
  that says how the part is nested.  An occurrence is reached
  along a path of labels; an environment is carried down the
  path, and what the occurrences contribute is collected.

  Main declarations:
    * `Occurs`
    * `Occurs.invariant`
    * `collect`
    * `mem_collect_iff`
-/

----
-- Occurrences
----

namespace Ydsh

namespace Library

section Occurrences

variable {T P : Type}
variable (parts : T → List (P × T))

/- The path to an occurrence, from the outermost label on. -/
inductive Occurs : T → List P → T → Prop where
  | here (tree : T) : Occurs tree [] tree
  | there
      {tree part target : T} {label : P} {path : List P}
      (hPart : (label, part) ∈ parts tree)
      (hOccurs : Occurs part path target) :
      Occurs tree (label :: path) target

variable {parts}

theorem Occurs.mono
    {fewer : T → List (P × T)}
    (hSubset : ∀ tree, fewer tree ⊆ parts tree)
    {tree target : T}
    {path : List P}
    (hOccurs : Occurs fewer tree path target) :
    Occurs parts tree path target := by
  induction hOccurs with
  | here tree => exact Occurs.here tree
  | there hPart _ ih =>
      exact Occurs.there (hSubset _ hPart) ih

end Occurrences

section Environments

variable {T P E : Type}
variable {parts : T → List (P × T)}
variable (enter : P → E → E)

/- The environment at the end of a path. -/
def enterAll : List P → E → E
  | [], env => env
  | label :: path, env => enterAll path (enter label env)

/- What every part inherits holds of every occurrence. -/
theorem Occurs.invariant
    (Inv : E → T → Prop)
    (hStep :
      ∀ env tree label part,
        Inv env tree →
        (label, part) ∈ parts tree →
        Inv (enter label env) part)
    {tree target : T}
    {path : List P}
    (hOccurs : Occurs parts tree path target)
    (env : E)
    (hInv : Inv env tree) :
    Inv (enterAll enter path env) target := by
  induction hOccurs generalizing env with
  | here tree => exact hInv
  | there hPart _ ih =>
      exact ih _ (hStep env _ _ _ hInv hPart)

end Environments

----
-- Collection
----

section Collection

variable {T P E X : Type}
variable (parts : T → List (P × T))
variable (enter : P → E → E)
variable (own : E → T → Set X)

/- What all occurrences in a tree contribute. -/
def collect (env : E) (tree : T) : Set X :=
  { x |
    ∃ path target,
      Occurs parts tree path target ∧
        x ∈ own (enterAll enter path env) target }

/- What the occurrences in a list of parts contribute. -/
def collectParts
    (env : E)
    (labelled : List (P × T)) : Set X :=
  { x |
    ∃ part ∈ labelled,
      x ∈ collect parts enter own (enter part.1 env) part.2 }

theorem mem_collect_iff
    (env : E)
    (tree : T)
    (x : X) :
    x ∈ collect parts enter own env tree ↔
      x ∈ own env tree ∨
        x ∈ collectParts parts enter own env (parts tree) := by
  constructor
  · rintro ⟨path, target, hOccurs, hOwn⟩
    cases hOccurs with
    | here => exact Or.inl hOwn
    | there hPart hRest =>
        exact Or.inr ⟨_, hPart, _, target, hRest, hOwn⟩
  · rintro (hOwn | ⟨⟨label, part⟩, hPart, path, target, hAt, hX⟩)
    · exact ⟨[], tree, Occurs.here tree, hOwn⟩
    · exact ⟨label :: path, target, Occurs.there hPart hAt, hX⟩

theorem collect_eq
    (env : E)
    (tree : T)
    (hOwn : own env tree = ∅) :
    collect parts enter own env tree =
      collectParts parts enter own env (parts tree) := by
  ext x
  rw [mem_collect_iff, hOwn]
  exact or_iff_right (Set.notMem_empty x)

@[simp] theorem collectParts_nil (env : E) :
    collectParts parts enter own env [] = ∅ := by
  ext x
  constructor
  · rintro ⟨part, hPart, _⟩
    cases hPart
  · intro hX
    cases hX

@[simp] theorem collectParts_cons
    (env : E)
    (part : P × T)
    (labelled : List (P × T)) :
    collectParts parts enter own env (part :: labelled) =
      collect parts enter own (enter part.1 env) part.2 ∪
        collectParts parts enter own env labelled := by
  ext x
  constructor
  · rintro ⟨found, hFound, hX⟩
    rcases List.mem_cons.mp hFound with hHead | hTail
    · rw [hHead] at hX
      exact Or.inl hX
    · exact Or.inr ⟨found, hTail, hX⟩
  · rintro (hX | ⟨found, hFound, hX⟩)
    · exact ⟨part, List.mem_cons_self, hX⟩
    · exact ⟨found, List.mem_cons_of_mem _ hFound, hX⟩

@[simp] theorem collectParts_append
    (env : E)
    (front back : List (P × T)) :
    collectParts parts enter own env (front ++ back) =
      collectParts parts enter own env front ∪
        collectParts parts enter own env back := by
  induction front with
  | nil =>
      rw [List.nil_append, collectParts_nil, Set.empty_union]
  | cons part front ih =>
      rw [List.cons_append, collectParts_cons,
        collectParts_cons, ih, Set.union_assoc]

end Collection

end Library

end Ydsh
