import Mathlib.Data.List.Basic

/-
  The longest match of a pattern at the beginning of a text, by
  the derivatives of the pattern.  A pattern tests its letters,
  so that the alphabet may be large.

  Main declarations:
    * `Pattern`
    * `longest`
    * `longest_matches`
    * `le_longest`
    * `not_mem_of_avoids`
-/

----
-- Patterns
----

namespace Ydsh

namespace Library

namespace LongestMatch

variable {α : Type}

inductive Pattern (α : Type) where
  | zero
  | epsilon
  | letter (p : α → Bool)
  | plus (r s : Pattern α)
  | comp (r s : Pattern α)
  | star (r : Pattern α)

inductive Matches : Pattern α → List α → Prop where
  | epsilon : Matches .epsilon []
  | letter {p : α → Bool} {a : α} (hLetter : p a = true) :
      Matches (.letter p) [a]
  | left {r s : Pattern α} {text : List α}
      (hFirst : Matches r text) : Matches (.plus r s) text
  | right {r s : Pattern α} {text : List α}
      (hSecond : Matches s text) : Matches (.plus r s) text
  | comp {r s : Pattern α} {first second : List α}
      (hFirst : Matches r first) (hSecond : Matches s second) :
      Matches (.comp r s) (first ++ second)
  | done {r : Pattern α} : Matches (.star r) []
  | again {r : Pattern α} {first second : List α}
      (hFirst : Matches r first)
      (hSecond : Matches (.star r) second) :
      Matches (.star r) (first ++ second)

namespace Pattern

def nullable : Pattern α → Bool
  | .zero => false
  | .epsilon => true
  | .letter _ => false
  | .plus r s => nullable r || nullable s
  | .comp r s => nullable r && nullable s
  | .star _ => true

/- What never matches is left out of a derivative. -/
def either : Pattern α → Pattern α → Pattern α
  | .zero, s => s
  | r, .zero => r
  | r, s => .plus r s

def followedBy : Pattern α → Pattern α → Pattern α
  | .zero, _ => .zero
  | r, s => .comp r s

/- What is left to be matched behind a letter. -/
def deriv (a : α) : Pattern α → Pattern α
  | .zero => .zero
  | .epsilon => .zero
  | .letter p => if p a then .epsilon else .zero
  | .plus r s => either (deriv a r) (deriv a s)
  | .comp r s =>
      either (followedBy (deriv a r) s)
        (if nullable r then deriv a s else .zero)
  | .star r => followedBy (deriv a r) (.star r)

/- The length of the longest match at the beginning. -/
def longest (r : Pattern α) : List α → Option Nat
  | [] => if nullable r then some 0 else none
  | a :: text =>
      match longest (deriv a r) text with
      | some length => some (length + 1)
      | none => if nullable r then some 0 else none

/- The pattern that never matches. -/
def isZero : Pattern α → Bool
  | .zero => true
  | _ => false

/- No text with the letter is matched. -/
def avoids (a : α) : Pattern α → Bool
  | .zero => true
  | .epsilon => true
  | .letter p => !p a
  | .plus r s => avoids a r && avoids a s
  | .comp r s => avoids a r && avoids a s
  | .star r => avoids a r

/- A fixed text. -/
def word [BEq α] (text : List α) : Pattern α :=
  text.foldr (fun a r => .comp (.letter (· == a)) r) .epsilon

/- One of the letters, or none of them. -/
def among [BEq α] (letters : List α) : Pattern α :=
  .letter letters.contains

def except [BEq α] (letters : List α) : Pattern α :=
  .letter fun a => !letters.contains a

def opt (r : Pattern α) : Pattern α :=
  .plus .epsilon r

/- At least once. -/
def many (r : Pattern α) : Pattern α :=
  .comp r (.star r)

/- All in a row. -/
def row (parts : List (Pattern α)) : Pattern α :=
  parts.foldr .comp .epsilon

def oneOf (parts : List (Pattern α)) : Pattern α :=
  parts.foldr .plus .zero

----
-- Matches
----

theorem matches_of_nullable
    {r : Pattern α}
    (hNullable : nullable r = true) : Matches r [] := by
  induction r with
  | zero => exact nomatch hNullable
  | epsilon => exact .epsilon
  | letter p => exact nomatch hNullable
  | plus r s ihR ihS =>
      rcases Bool.or_eq_true_iff.1 hNullable with hR | hS
      · exact .left (ihR hR)
      · exact .right (ihS hS)
  | comp r s ihR ihS =>
      have hBoth := Bool.and_eq_true_iff.1 hNullable
      exact .comp (ihR hBoth.1) (ihS hBoth.2)
  | star r ih => exact .done

theorem matches_of_either
    {r s : Pattern α}
    {text : List α}
    (hMatches : Matches (either r s) text) :
    Matches r text ∨ Matches s text := by
  unfold either at hMatches
  split at hMatches
  · exact .inr hMatches
  · exact .inl hMatches
  · rcases hMatches with _ | _ | hFirst | hSecond
    · exact .inl hFirst
    · exact .inr hSecond

theorem matches_of_followedBy
    {r s : Pattern α}
    {text : List α}
    (hMatches : Matches (followedBy r s) text) :
    Matches (.comp r s) text := by
  unfold followedBy at hMatches
  split at hMatches
  · exact nomatch hMatches
  · exact hMatches

theorem matches_of_deriv
    {a : α}
    {r : Pattern α}
    {text : List α}
    (hMatches : Matches (deriv a r) text) :
    Matches r (a :: text) := by
  induction r generalizing text with
  | zero => exact nomatch hMatches
  | epsilon => exact nomatch hMatches
  | letter p =>
      unfold deriv at hMatches
      by_cases hLetter : p a = true
      · rw [if_pos hLetter] at hMatches
        cases hMatches
        exact .letter hLetter
      · rw [if_neg hLetter] at hMatches
        exact nomatch hMatches
  | plus r s ihR ihS =>
      rcases matches_of_either hMatches with hR | hS
      · exact .left (ihR hR)
      · exact .right (ihS hS)
  | comp r s ihR ihS =>
      rcases matches_of_either hMatches with hR | hS
      · rcases matches_of_followedBy hR with
          _ | _ | _ | _ | ⟨hFirst, hSecond⟩
        exact .comp (ihR hFirst) hSecond
      · by_cases hNullable : nullable r = true
        · rw [if_pos hNullable] at hS
          exact .comp (matches_of_nullable hNullable) (ihS hS)
        · rw [if_neg hNullable] at hS
          exact nomatch hS
  | star r ih =>
      rcases matches_of_followedBy hMatches with
        _ | _ | _ | _ | ⟨hFirst, hSecond⟩
      exact .again (ih hFirst) hSecond

theorem longest_le
    {r : Pattern α}
    {text : List α}
    {length : Nat}
    (hLongest : longest r text = some length) :
    length ≤ text.length := by
  induction text generalizing r length with
  | nil =>
      unfold longest at hLongest
      split at hLongest
      · exact Nat.le_of_eq (Option.some.inj hLongest).symm
      · exact nomatch hLongest
  | cons a text ih =>
      unfold longest at hLongest
      split at hLongest
      case h_1 length' hRest =>
        rw [← Option.some.inj hLongest]
        exact Nat.succ_le_succ (ih hRest)
      case h_2 =>
        split at hLongest
        · rw [← Option.some.inj hLongest]
          exact Nat.zero_le _
        · exact nomatch hLongest

theorem longest_matches
    {r : Pattern α}
    {text : List α}
    {length : Nat}
    (hLongest : longest r text = some length) :
    Matches r (text.take length) := by
  induction text generalizing r length with
  | nil =>
      unfold longest at hLongest
      split at hLongest
      case isTrue hNullable =>
        rw [List.take_nil]
        exact matches_of_nullable hNullable
      case isFalse => exact nomatch hLongest
  | cons a text ih =>
      unfold longest at hLongest
      split at hLongest
      case h_1 length' hRest =>
        rw [← Option.some.inj hLongest]
        exact matches_of_deriv (ih hRest)
      case h_2 =>
        split at hLongest
        case isTrue hNullable =>
          rw [← Option.some.inj hLongest]
          exact matches_of_nullable hNullable
        case isFalse => exact nomatch hLongest

/- A pattern that does not match the empty text matches at
least one letter. -/
theorem longest_pos
    {r : Pattern α}
    {text : List α}
    {length : Nat}
    (hNullable : nullable r = false)
    (hLongest : longest r text = some length) :
    0 < length := by
  cases text with
  | nil =>
      rw [longest, hNullable] at hLongest
      exact nomatch hLongest
  | cons a text =>
      rw [longest, hNullable] at hLongest
      cases hRest : longest (deriv a r) text with
      | none =>
          rw [hRest] at hLongest
          exact nomatch hLongest
      | some length' =>
          rw [hRest] at hLongest
          rw [← Option.some.inj hLongest]
          exact Nat.succ_pos _

theorem longest_ne_none
    {r : Pattern α}
    (text : List α)
    (hNullable : nullable r = true) :
    longest r text ≠ none := by
  cases text with
  | nil => simp [longest, hNullable]
  | cons a text =>
      rw [longest, hNullable]
      cases longest (deriv a r) text with
      | none => exact Option.some_ne_none 0
      | some length => exact Option.some_ne_none (length + 1)

/- One letter is enough for a match. -/
theorem longest_cons_ne_none
    {a : α}
    {r : Pattern α}
    (text : List α)
    (hNullable : nullable (deriv a r) = true) :
    longest r (a :: text) ≠ none := by
  rw [longest]
  cases hRest : longest (deriv a r) text with
  | none => exact absurd hRest (longest_ne_none text hNullable)
  | some length => exact Option.some_ne_none (length + 1)

----
-- The Longest One
----

theorem nullable_of_matches
    {r : Pattern α}
    {text : List α}
    (hMatches : Matches r text)
    (hEmpty : text = []) : nullable r = true := by
  induction hMatches with
  | epsilon => rfl
  | letter hLetter => exact nomatch hEmpty
  | left hFirst ih =>
      exact Bool.or_eq_true_iff.2 (.inl (ih hEmpty))
  | right hSecond ih =>
      exact Bool.or_eq_true_iff.2 (.inr (ih hEmpty))
  | comp hFirst hSecond ihFirst ihSecond =>
      rcases List.append_eq_nil_iff.1 hEmpty with ⟨hOne, hTwo⟩
      exact
        Bool.and_eq_true_iff.2 ⟨ihFirst hOne, ihSecond hTwo⟩
  | done => rfl
  | again hFirst hSecond ihFirst ihSecond => rfl

theorem either_of_matches
    {r s : Pattern α}
    {text : List α}
    (hOr : Matches r text ∨ Matches s text) :
    Matches (either r s) text := by
  unfold either
  split
  · exact hOr.resolve_left fun hZero => nomatch hZero
  · exact hOr.resolve_right fun hZero => nomatch hZero
  · rcases hOr with hR | hS
    · exact .left hR
    · exact .right hS

theorem followedBy_of_matches
    {r s : Pattern α}
    {first second : List α}
    (hFirst : Matches r first)
    (hSecond : Matches s second) :
    Matches (followedBy r s) (first ++ second) := by
  unfold followedBy
  split
  · exact nomatch hFirst
  · exact .comp hFirst hSecond

/- By induction on the match.  In a row, the letter is taken
from the first part that is not empty. -/
theorem deriv_of_matches
    {a : α}
    {r : Pattern α}
    {word text : List α}
    (hMatches : Matches r word)
    (hWord : word = a :: text) : Matches (deriv a r) text := by
  induction hMatches generalizing text with
  | epsilon => exact nomatch hWord
  | letter hLetter =>
      obtain ⟨rfl, rfl⟩ := List.cons.inj hWord
      rw [deriv, if_pos hLetter]
      exact .epsilon
  | left hFirst ih => exact either_of_matches (.inl (ih hWord))
  | right hSecond ih =>
      exact either_of_matches (.inr (ih hWord))
  | @comp r s first second hFirst hSecond ihFirst ihSecond =>
      apply either_of_matches
      cases first with
      | nil =>
          have hNullable := nullable_of_matches hFirst rfl
          rw [if_pos hNullable]
          exact .inr (ihSecond hWord)
      | cons b first =>
          obtain ⟨rfl, rfl⟩ := List.cons.inj hWord
          exact
            .inl (followedBy_of_matches (ihFirst rfl) hSecond)
  | done => exact nomatch hWord
  | @again r first second hFirst hSecond ihFirst ihSecond =>
      cases first with
      | nil => exact ihSecond hWord
      | cons b first =>
          obtain ⟨rfl, rfl⟩ := List.cons.inj hWord
          exact followedBy_of_matches (ihFirst rfl) hSecond

/- No match at the beginning is longer. -/
theorem le_longest
    {r : Pattern α}
    {first : List α}
    (hMatches : Matches r first)
    (second : List α) :
    ∃ length,
      longest r (first ++ second) = some length ∧
        first.length ≤ length := by
  induction first generalizing r with
  | nil =>
      have hNullable := nullable_of_matches hMatches rfl
      cases hLongest : longest r second with
      | none => exact absurd hLongest (longest_ne_none _ hNullable)
      | some length => exact ⟨length, hLongest, Nat.zero_le _⟩
  | cons a first ih =>
      rcases ih (deriv_of_matches hMatches rfl)
        with ⟨length, hLongest, hLe⟩
      refine ⟨length + 1, ?_, Nat.succ_le_succ hLe⟩
      rw [List.cons_append, longest, hLongest]

theorem matches_word
    [BEq α] [ReflBEq α]
    (letters : List α) :
    Matches (word letters) letters := by
  induction letters with
  | nil => exact .epsilon
  | cons a letters ih =>
      have hLetter : Matches (.letter (· == a)) [a] :=
        .letter (beq_self_eq_true a)
      exact .comp hLetter ih

theorem longest_none_of_isZero
    {r : Pattern α}
    (text : List α)
    (hZero : isZero r = true) : longest r text = none := by
  cases r with
  | zero =>
      induction text with
      | nil => rfl
      | cons a text ih =>
          rw [longest, deriv, ih]
          rfl
  | _ => exact nomatch hZero

theorem longest_cons_none
    {a : α}
    {r : Pattern α}
    {text : List α}
    (hNullable : nullable r = false)
    (hRest : longest (deriv a r) text = none) :
    longest r (a :: text) = none := by
  rw [longest, hRest, hNullable]
  rfl

/- By induction on the rounds. -/
theorem star_induction
    {r : Pattern α}
    {P : List α → Prop}
    (hDone : P [])
    (hAgain :
      ∀ first second,
        Matches r first → P second → P (first ++ second))
    {text : List α}
    (hMatches : Matches (.star r) text) : P text := by
  generalize hStar : Pattern.star r = star at hMatches
  induction hMatches with
  | done => exact hDone
  | again hFirst hSecond ihFirst ihSecond =>
      obtain rfl := Pattern.star.inj hStar
      exact hAgain _ _ hFirst (ihSecond rfl)
  | _ => exact nomatch hStar

theorem not_mem_of_avoids
    {a : α}
    {r : Pattern α}
    {text : List α}
    (hAvoids : avoids a r = true)
    (hMatches : Matches r text) : a ∉ text := by
  induction hMatches with
  | epsilon => exact List.not_mem_nil
  | letter hLetter =>
      intro hMem
      rw [List.mem_singleton.1 hMem] at hAvoids
      rw [avoids, hLetter] at hAvoids
      exact nomatch hAvoids
  | left hFirst ih =>
      exact ih (Bool.and_eq_true_iff.1 hAvoids).1
  | right hSecond ih =>
      exact ih (Bool.and_eq_true_iff.1 hAvoids).2
  | comp hFirst hSecond ihFirst ihSecond =>
      have hBoth := Bool.and_eq_true_iff.1 hAvoids
      intro hMem
      rcases List.mem_append.1 hMem with hMem | hMem
      · exact ihFirst hBoth.1 hMem
      · exact ihSecond hBoth.2 hMem
  | done => exact List.not_mem_nil
  | again hFirst hSecond ihFirst ihSecond =>
      intro hMem
      rcases List.mem_append.1 hMem with hMem | hMem
      · exact ihFirst hAvoids hMem
      · exact ihSecond hAvoids hMem

end Pattern

end LongestMatch

end Library

end Ydsh
