import Mathlib.Computability.RegularExpressions

/-
  Regular expressions as grammars write them: classes of
  letters, fixed texts, optional parts and repetitions, and what
  is known of the letters of a word they match.

  Main declarations:
    * `oneOf`
    * `text`
    * `opt`
    * `allLetters`
    * `all_of_mem`
    * `flatMap_mem_star`
-/

----
-- Forms
----

namespace Ydsh

namespace Library

namespace Regex

open RegularExpression

variable {α : Type}

/- A class of letters. -/
def oneOf (letters : List α) : RegularExpression α :=
  letters.foldr (fun a r => char a + r) 0

def text (word : List α) : RegularExpression α :=
  word.foldr (fun a r => char a * r) 1

def opt (r : RegularExpression α) : RegularExpression α :=
  1 + r

/- At least once. -/
def many (r : RegularExpression α) : RegularExpression α :=
  r * r.star

theorem mem_oneOf
    {letters word : List α} :
    word ∈ (oneOf letters).matches' ↔
      ∃ a ∈ letters, word = [a] := by
  induction letters with
  | nil =>
      constructor
      · intro hMem
        exact absurd hMem (Language.notMem_zero word)
      · rintro ⟨a, hMem, -⟩
        cases hMem
  | cons a letters ih =>
      show word ∈ (char a + oneOf letters).matches' ↔ _
      rw [matches'_add, Language.mem_add, ih, matches'_char]
      constructor
      · rintro (hFirst | ⟨b, hMem, hWord⟩)
        · exact ⟨a, List.mem_cons_self, hFirst⟩
        · exact ⟨b, List.mem_cons_of_mem _ hMem, hWord⟩
      · rintro ⟨b, hMem, hWord⟩
        rcases List.mem_cons.mp hMem with rfl | hMem
        · exact .inl hWord
        · exact .inr ⟨b, hMem, hWord⟩

theorem mem_mul
    {r s : RegularExpression α}
    {word : List α} :
    word ∈ (r * s).matches' ↔
      ∃ first ∈ r.matches',
        ∃ rest ∈ s.matches', first ++ rest = word := by
  rw [matches'_mul, Language.mem_mul]

theorem mem_add
    {r s : RegularExpression α}
    {word : List α} :
    word ∈ (r + s).matches' ↔
      word ∈ r.matches' ∨ word ∈ s.matches' := by
  rw [matches'_add, Language.mem_add]

theorem mem_text
    {word other : List α} :
    other ∈ (text word).matches' ↔ other = word := by
  induction word generalizing other with
  | nil => exact Language.mem_one other
  | cons a word ih =>
      show other ∈ (char a * text word).matches' ↔ _
      rw [mem_mul, matches'_char]
      constructor
      · rintro ⟨first, hFirst, rest, hRest, rfl⟩
        rw [ih] at hRest
        rw [hRest, Set.mem_singleton_iff.mp hFirst]
        rfl
      · intro hOther
        exact ⟨[a], rfl, word, ih.mpr rfl, hOther.symm⟩

theorem mem_opt
    {r : RegularExpression α}
    {word : List α} :
    word ∈ (opt r).matches' ↔
      word = [] ∨ word ∈ r.matches' := by
  unfold opt
  rw [mem_add, matches'_epsilon, Language.mem_one]

----
-- Repetition
----

theorem nil_mem_star (r : RegularExpression α) :
    [] ∈ r.star.matches' :=
  Language.nil_mem_kstar _

theorem append_mem_star
    {r : RegularExpression α}
    {first rest : List α}
    (hFirst : first ∈ r.star.matches')
    (hRest : rest ∈ r.star.matches') :
    first ++ rest ∈ r.star.matches' := by
  rw [matches'_star, Language.mem_kstar] at hFirst hRest ⊢
  rcases hFirst with ⟨firsts, rfl, hFirsts⟩
  rcases hRest with ⟨rests, rfl, hRests⟩
  refine ⟨firsts ++ rests, List.flatten_append.symm, ?_⟩
  intro word hMem
  rcases List.mem_append.mp hMem with hMem | hMem
  · exact hFirsts word hMem
  · exact hRests word hMem

theorem mem_star_of_mem
    {r : RegularExpression α}
    {word : List α}
    (hWord : word ∈ r.matches') :
    word ∈ r.star.matches' := by
  rw [matches'_star, Language.mem_kstar]
  refine ⟨[word], (List.append_nil word).symm, ?_⟩
  intro other hMem
  rw [List.mem_singleton.mp hMem]
  exact hWord

theorem flatMap_mem_star
    {β : Type}
    {r : RegularExpression α}
    {f : β → List α}
    {xs : List β}
    (hEach : ∀ x ∈ xs, f x ∈ r.star.matches') :
    xs.flatMap f ∈ r.star.matches' := by
  induction xs with
  | nil => exact nil_mem_star r
  | cons x xs ih =>
      rw [List.flatMap_cons]
      apply append_mem_star
      · exact hEach x List.mem_cons_self
      · apply ih
        intro y hMem
        exact hEach y (List.mem_cons_of_mem _ hMem)

/- A word of a repetition is built by putting words in front. -/
theorem star_induction
    {r : RegularExpression α}
    {motive : List α → Prop}
    (nil : motive [])
    (append :
      ∀ first rest,
        first ∈ r.matches' →
          rest ∈ r.star.matches' →
            motive rest → motive (first ++ rest))
    {word : List α}
    (hWord : word ∈ r.star.matches') :
    motive word := by
  rw [matches'_star, Language.mem_kstar] at hWord
  rcases hWord with ⟨words, rfl, hWords⟩
  induction words with
  | nil => exact nil
  | cons first words ih =>
      have hRest : ∀ other ∈ words, other ∈ r.matches' :=
        fun other hMem =>
          hWords other (List.mem_cons_of_mem _ hMem)
      rw [List.flatten_cons]
      apply append first _ (hWords first List.mem_cons_self)
      · rw [matches'_star]
        exact Language.join_mem_kstar hRest
      · exact ih hRest

----
-- Letters
----

/- Every letter that the expression can match. -/
def allLetters (p : α → Bool) : RegularExpression α → Bool
  | .zero => true
  | .epsilon => true
  | .char a => p a
  | .plus r s => allLetters p r && allLetters p s
  | .comp r s => allLetters p r && allLetters p s
  | .star r => allLetters p r

variable {p : α → Bool}

theorem all_of_mem
    {r : RegularExpression α}
    (hLetters : allLetters p r = true)
    {word : List α}
    (hWord : word ∈ r.matches') :
    ∀ a ∈ word, p a = true := by
  induction r generalizing word with
  | zero => exact absurd hWord (Language.notMem_zero word)
  | epsilon =>
      rw [(Language.mem_one word).mp hWord]
      intro a hMem
      cases hMem
  | char b =>
      intro a hMem
      rw [Set.mem_singleton_iff.mp hWord,
        List.mem_singleton] at hMem
      rw [hMem]
      exact hLetters
  | plus r s ihR ihS =>
      unfold allLetters at hLetters
      rw [Bool.and_eq_true] at hLetters
      rcases hWord with hWord | hWord
      · exact ihR hLetters.1 hWord
      · exact ihS hLetters.2 hWord
  | comp r s ihR ihS =>
      unfold allLetters at hLetters
      rw [Bool.and_eq_true] at hLetters
      rcases Language.mem_mul.mp hWord with
        ⟨first, hFirst, rest, hRest, rfl⟩
      intro a hMem
      rcases List.mem_append.mp hMem with hMem | hMem
      · exact ihR hLetters.1 hFirst a hMem
      · exact ihS hLetters.2 hRest a hMem
  | star r ih =>
      rcases Language.mem_kstar.mp hWord with ⟨words, rfl, hWords⟩
      intro a hMem
      rcases List.mem_flatten.mp hMem with ⟨w, hW, hMem⟩
      exact ih hLetters (hWords w hW) a hMem

end Regex

end Library

end Ydsh
