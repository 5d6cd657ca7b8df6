import Mathlib.Data.List.Forall2
import Mathlib.Data.List.Infix

/-
  Patterns with wildcards, and what a search for the left-most
  match may rely on.

  Some signs of a pattern are stars, that match any word; each
  other sign matches one letter.  The signs between two stars
  may be given the first place at which they match: it leaves
  the most to the second star.

  Main declarations:
    * `Matches`
    * `Single`
    * `Matches.retreat_iff`
    * `Matches.advance_iff`
    * `Matches.finish_iff`
-/

----
-- Matching
----

namespace Ydsh

namespace Library

variable {σ α : Type}

/- The words that a pattern matches. -/
inductive Matches
    (isStar : σ → Prop)
    (fits : σ → α → Prop) :
    List σ → List α → Prop where
  | nil : Matches isStar fits [] []
  | one {sign : σ} {signs : List σ} {a : α} {word : List α}
      (hOne : ¬ isStar sign)
      (hFits : fits sign a)
      (hMore : Matches isStar fits signs word) :
      Matches isStar fits (sign :: signs) (a :: word)
  | many {star : σ} {signs : List σ} {word : List α}
      (hStar : isStar star)
      (front : List α)
      (hMore : Matches isStar fits signs word) :
      Matches isStar fits (star :: signs) (front ++ word)

/- Signs without a star match letter by letter. -/
def Single
    (isStar : σ → Prop)
    (fits : σ → α → Prop)
    (signs : List σ)
    (word : List α) : Prop :=
  List.Forall₂ (fun sign a => ¬ isStar sign ∧ fits sign a)
    signs word

variable {isStar : σ → Prop}
variable {fits : σ → α → Prop}
variable {sign star : σ}
variable {signs between : List σ}
variable {a : α}
variable {word matched : List α}

namespace Matches

theorem nil_iff :
    Matches isStar fits [] word ↔ word = [] := by
  constructor
  · intro hMatches
    cases hMatches with
    | nil => rfl
  · rintro rfl
    exact .nil

theorem many_iff
    (hStar : isStar star) :
    Matches isStar fits (star :: signs) word ↔
      ∃ back, back <:+ word ∧ Matches isStar fits signs back := by
  constructor
  · intro hMatches
    cases hMatches with
    | one hOne _ _ => exact absurd hStar hOne
    | @many _ _ back _ front hMore =>
        exact ⟨back, ⟨front, rfl⟩, hMore⟩
  · rintro ⟨back, ⟨front, rfl⟩, hMore⟩
    exact .many hStar front hMore

theorem one_cons_iff
    (hOne : ¬ isStar sign) :
    Matches isStar fits (sign :: signs) (a :: word) ↔
      fits sign a ∧ Matches isStar fits signs word := by
  constructor
  · intro hMatches
    generalize hWord : a :: word = whole at hMatches
    cases hMatches with
    | one _ hFits hMore =>
        cases hWord
        exact ⟨hFits, hMore⟩
    | many hStar _ _ => exact absurd hStar hOne
  · rintro ⟨hFits, hMore⟩
    exact .one hOne hFits hMore

theorem one_nil
    (hOne : ¬ isStar sign) :
    ¬ Matches isStar fits (sign :: signs) [] := by
  intro hMatches
  generalize hWord : ([] : List α) = whole at hMatches
  cases hMatches with
  | one => cases hWord
  | many hStar _ _ => exact hOne hStar

/- A star may take more of the word. -/
theorem of_suffix
    {back : List α}
    (hStar : isStar star)
    (hSuffix : back <:+ word)
    (hMatches : Matches isStar fits (star :: signs) back) :
    Matches isStar fits (star :: signs) word := by
  rcases (many_iff hStar).mp hMatches with
    ⟨last, hLast, hMore⟩
  exact (many_iff hStar).mpr ⟨last, hLast.trans hSuffix, hMore⟩

theorem star_nil_iff
    (hStar : isStar star) :
    Matches isStar fits (star :: signs) [] ↔
      Matches isStar fits signs [] := by
  rw [many_iff hStar]
  constructor
  · rintro ⟨back, hBack, hMore⟩
    rw [List.suffix_nil.mp hBack] at hMore
    exact hMore
  · intro hMore
    exact ⟨[], List.suffix_refl _, hMore⟩

----
-- Signs between Stars
----

theorem append_iff
    (hSingle : Single isStar fits between matched) :
    Matches isStar fits (between ++ signs) (matched ++ word) ↔
      Matches isStar fits signs word := by
  induction hSingle with
  | nil => exact Iff.rfl
  | cons hSign _ ih =>
      rw [List.cons_append, List.cons_append,
        one_cons_iff hSign.1, ih]
      exact and_iff_right hSign.2

/- The signs take a part of the word of their length. -/
theorem split
    {whole : List α}
    (hNone : ∀ sign ∈ between, ¬ isStar sign)
    (hMatches : Matches isStar fits (between ++ signs) whole) :
    ∃ front back,
      whole = front ++ back ∧
        front.length = between.length ∧
        Matches isStar fits signs back := by
  induction between generalizing whole with
  | nil => exact ⟨[], whole, rfl, rfl, hMatches⟩
  | cons sign between ih =>
      have hOne := hNone sign List.mem_cons_self
      cases whole with
      | nil => exact absurd hMatches (one_nil hOne)
      | cons a whole =>
          rw [List.cons_append, one_cons_iff hOne] at hMatches
          rcases
            ih
              (fun other hOther =>
                hNone other (List.mem_cons_of_mem _ hOther))
              hMatches.2 with
            ⟨front, back, rfl, hLength, hMore⟩
          exact
            ⟨a :: front, back, rfl, congrArg (· + 1) hLength,
              hMore⟩

end Matches

theorem Single.not_star
    (hSingle : Single isStar fits between matched) :
    ∀ sign ∈ between, ¬ isStar sign := by
  induction hSingle with
  | nil => exact fun _ hMem => absurd hMem List.not_mem_nil
  | cons hSign _ ih =>
      intro sign hMem
      rcases List.mem_cons.mp hMem with rfl | hMem
      · exact hSign.1
      · exact ih sign hMem

namespace Matches

/- Where the signs do not match, the star takes a letter. -/
theorem retreat_iff
    (hStar : isStar star)
    (hNot : ¬ Matches isStar fits signs word) :
    Matches isStar fits (star :: signs) word ↔
      Matches isStar fits (star :: signs) word.tail := by
  constructor
  · intro hMatches
    rcases (many_iff hStar).mp hMatches with
      ⟨back, ⟨front, rfl⟩, hMore⟩
    cases front with
    | nil => exact absurd hMore hNot
    | cons a front => exact .many hStar front hMore
  · exact of_suffix hStar (List.tail_suffix word)

/- The first place is as good as any, up to the next star. -/
theorem advance_iff
    {next : σ}
    (hStar : isStar star)
    (hNext : isStar next)
    (hSingle : Single isStar fits between matched) :
    Matches isStar fits (star :: (between ++ next :: signs))
        (matched ++ word) ↔
      Matches isStar fits (next :: signs) word := by
  constructor
  · intro hMatches
    rcases (many_iff hStar).mp hMatches with
      ⟨back, hBack, hMore⟩
    rcases split hSingle.not_star hMore with
      ⟨front, last, rfl, hLength, hLast⟩
    have hLong : last.length ≤ word.length := by
      have hAll := hBack.length_le
      rw [List.length_append, List.length_append,
        hLength, hSingle.length_eq] at hAll
      omega
    have hSuffix : last <:+ matched ++ word :=
      (List.suffix_append front last).trans hBack
    exact
      of_suffix hNext
        (List.suffix_of_suffix_length_le hSuffix
          (List.suffix_append matched word) hLong)
        hLast
  · intro hMatches
    exact .many hStar [] ((append_iff hSingle).mpr hMatches)

/- At the end of the word there is no later place. -/
theorem finish_iff
    (hStar : isStar star)
    (hSingle : Single isStar fits between matched) :
    Matches isStar fits (star :: (between ++ signs)) matched ↔
      Matches isStar fits signs [] := by
  have hHere :
      Matches isStar fits (between ++ signs) (matched ++ []) ↔
        Matches isStar fits signs [] :=
    append_iff hSingle
  rw [List.append_nil] at hHere
  rw [← hHere, many_iff hStar]
  constructor
  · rintro ⟨back, hBack, hMore⟩
    rcases split hSingle.not_star hMore with
      ⟨front, last, rfl, hLength, _⟩
    have hWhole : front ++ last = matched := by
      apply hBack.eq_of_length_le
      rw [List.length_append, hLength, hSingle.length_eq]
      exact Nat.le_add_right _ _
    rw [hWhole] at hMore
    exact hMore
  · intro hMatches
    exact ⟨matched, List.suffix_refl _, hMatches⟩

end Matches

end Library

end Ydsh
