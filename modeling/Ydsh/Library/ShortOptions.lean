import Mathlib.Data.List.Basic

/-
  Command lines of clustered short options.

  The letters after the dash of an argument are options, until
  one of them takes an argument.  The rest of its cluster is
  its argument; where nothing is left, the next word is.

  Main declarations:
    * `Arity`
    * `Event`
    * `getopts`
-/

----
-- Specifications
----

namespace Ydsh

namespace Library

namespace ShortOptions

variable {α : Type} [DecidableEq α]

inductive Arity where
  | flag
  | required
  | optional

/- The colons behind a letter tell its arity. -/
def arityOf
    (colon : α) : List α → Arity
  | [] => .flag
  | [x] => if x = colon then .required else .flag
  | x :: y :: _ =>
      if x = colon then
        if y = colon then .optional else .required
      else
        .flag

/- The arity of a letter is what its first place says. -/
def arityIn
    (colon c : α) : List α → Option Arity
  | [] => none
  | x :: rest =>
      if x = colon then arityIn colon c rest
      else if x = c then some (arityOf colon rest)
      else arityIn colon c rest

/- A search for the letter stops at the place that counts. -/
theorem arityIn_eq
    (colon c : α)
    (spec : List α) :
    arityIn colon c spec =
      match spec.dropWhile (fun x => x ≠ c) with
      | [] => none
      | _ :: rest =>
          if c = colon then none
          else some (arityOf colon rest) := by
  induction spec with
  | nil => rfl
  | cons x rest ih =>
      unfold arityIn
      by_cases hSame : x = c
      · subst hSame
        rw [List.dropWhile_cons_of_neg (by simp)]
        by_cases hColon : x = colon
        · have hNone :
              arityIn colon x rest = none := by
            subst hColon
            rw [ih]
            cases rest.dropWhile (fun y => y ≠ x) with
            | nil => rfl
            | cons y ys => simp
          simp [hColon, ← hNone]
        · simp [hColon]
      · rw [List.dropWhile_cons_of_pos (by simpa using hSame),
          ← ih]
        simp [hSame]

----
-- Command Lines
----

inductive Event (α : Type) where
  | option (c : α) (arg : Option (List α))
  | missing (c : α)
  | unknown (c : α)

def Event.isUnknown : Event α → Bool
  | .unknown _ => true
  | _ => false

inductive Word (α : Type) where
  | operand
  | separator
  | cluster (letters : List α)

/- What a word is where an option may stand. -/
def wordOf
    (dash : α) : List α → Word α
  | [] => .operand
  | x :: rest =>
      if x = dash then
        if rest = [] then .operand
        else if rest = [dash] then .separator
        else .cluster rest
      else
        .operand

/-
  What a command line says: its options in order, and the
  operands that are left.  Some letters of a cluster may stand
  before the words.
-/
def getopts
    (dash : α)
    (arity : α → Option Arity) :
    List α → List (List α) → List (Event α) × List (List α)
  | [], [] => ([], [])
  | [], word :: rest =>
      match wordOf dash word with
      | .operand => ([], word :: rest)
      | .separator => ([], rest)
      | .cluster letters => getopts dash arity letters rest
  | c :: letters, words =>
      match arity c with
      | none =>
          let more := getopts dash arity letters words
          (.unknown c :: more.1, more.2)
      | some .flag =>
          let more := getopts dash arity letters words
          (.option c none :: more.1, more.2)
      | some .optional =>
          let arg := if letters = [] then none else some letters
          let more := getopts dash arity [] words
          (.option c arg :: more.1, more.2)
      | some .required =>
          if letters = [] then
            match words with
            | [] => ([.missing c], [])
            | word :: rest =>
                let more := getopts dash arity [] rest
                (.option c (some word) :: more.1, more.2)
          else
            let more := getopts dash arity [] words
            (.option c (some letters) :: more.1, more.2)
termination_by letters words => (words.length, letters.length)
decreasing_by
  all_goals simp_wf
  all_goals first
    | exact Prod.Lex.left _ _ (Nat.lt_succ_self _)
    | exact Prod.Lex.right _ (Nat.lt_succ_self _)
    | exact Prod.Lex.right _ (Nat.succ_pos _)

end ShortOptions

end Library

end Ydsh
