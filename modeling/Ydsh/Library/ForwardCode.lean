/-
  Code in which every jump goes forward.

  Such code is a list of instructions and labels, and a jump
  drops everything up to its label.

  Main declarations:
    * `Item`
    * `skipTo`
    * `labels`
    * `skipTo_append`
-/

----
-- Forward Code
----

namespace Ydsh

namespace Library

namespace ForwardCode

variable {I L : Type}

inductive Item (I L : Type) where
  | ins (ins : I)
  | mark (label : L)

/- What follows the next occurrence of a label. -/
def skipTo
    [DecidableEq L]
    (label : L) :
    List (Item I L) → Option (List (Item I L))
  | [] => none
  | .ins _ :: code => skipTo label code
  | .mark found :: code =>
      if found = label then some code else skipTo label code

/- The labels of a piece of code. -/
def labels : List (Item I L) → List L
  | [] => []
  | .ins _ :: code => labels code
  | .mark label :: code => label :: labels code

theorem labels_append
    (code code' : List (Item I L)) :
    labels (code ++ code') = labels code ++ labels code' := by
  induction code with
  | nil => rfl
  | cons item code ih =>
      cases item with
      | ins ins => exact ih
      | mark label => exact congrArg (List.cons label) ih

theorem skipTo_length
    [DecidableEq L]
    {label : L}
    {code rest : List (Item I L)}
    (hSkip : skipTo label code = some rest) :
    rest.length < code.length := by
  induction code with
  | nil => cases hSkip
  | cons item code ih =>
      cases item with
      | ins ins =>
          exact Nat.lt_succ_of_lt (ih hSkip)
      | mark found =>
          unfold skipTo at hSkip
          by_cases hFound : found = label
          · rw [if_pos hFound] at hSkip
            rw [← Option.some.inj hSkip]
            exact Nat.lt_succ_self _
          · rw [if_neg hFound] at hSkip
            exact Nat.lt_succ_of_lt (ih hSkip)

/- A jump passes over code that does not have its label. -/
theorem skipTo_append
    [DecidableEq L]
    {label : L}
    {code : List (Item I L)}
    (hNot : label ∉ labels code)
    (rest : List (Item I L)) :
    skipTo label (code ++ rest) = skipTo label rest := by
  induction code with
  | nil => rfl
  | cons item code ih =>
      cases item with
      | ins ins => exact ih hNot
      | mark found =>
          have hFound : found ≠ label := by
            intro hEq
            apply hNot
            rw [labels, hEq]
            exact List.mem_cons_self
          rw [List.cons_append, skipTo, if_neg hFound]
          apply ih
          intro hMem
          exact hNot (List.mem_cons_of_mem _ hMem)

theorem skipTo_mark
    [DecidableEq L]
    (label : L)
    (rest : List (Item I L)) :
    skipTo label (.mark label :: rest) = some rest := by
  rw [skipTo, if_pos rfl]

/- A jump lands behind its label. -/
theorem skipTo_label
    [DecidableEq L]
    {label : L}
    {code : List (Item I L)}
    (hNot : label ∉ labels code)
    (rest : List (Item I L)) :
    skipTo label (code ++ .mark label :: rest) = some rest := by
  rw [skipTo_append hNot, skipTo_mark]

end ForwardCode

end Library

end Ydsh
