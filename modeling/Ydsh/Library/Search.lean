import Mathlib.Data.List.Infix
import Mathlib.Data.List.TakeWhile

/-
  A text cut at the first of its separators, and searched.

  The first occurrence of a word in a text, and the parts of a
  text between the occurrences that a search from the left
  finds.

  Main declarations:
    * `cut`
    * `join`
    * `cut_join`
    * `search`
    * `search_eq_none`
    * `Splits`
    * `Splits.not_infix`
-/

----
-- Cutting
----

namespace Ydsh

namespace Library

variable {α : Type} [DecidableEq α]

def cut
    (sep : α)
    (word : List α) : List α × Option (List α) :=
  (word.takeWhile (· ≠ sep),
    match word.dropWhile (· ≠ sep) with
    | [] => none
    | _ :: rest => some rest)

omit [DecidableEq α] in
/- The separator stands before the rest, if there is one. -/
def join
    (sep : α)
    (first : List α)
    (rest : Option (List α)) : List α :=
  first ++ rest.elim [] (fun rest => sep :: rest)

theorem takeWhile_ne_append
    {sep : α}
    {first rest : List α}
    (hFirst : sep ∉ first)
    (hRest : rest.takeWhile (· ≠ sep) = []) :
    (first ++ rest).takeWhile (· ≠ sep) = first ∧
      (first ++ rest).dropWhile (· ≠ sep) = rest := by
  have hAll : ∀ a ∈ first, decide (a ≠ sep) = true := by
    intro a hMem
    rw [decide_eq_true_eq]
    rintro rfl
    exact hFirst hMem
  have hDrop : rest.dropWhile (· ≠ sep) = rest := by
    have hSplit :=
      List.takeWhile_append_dropWhile
        (p := fun a => decide (a ≠ sep)) (l := rest)
    rw [hRest, List.nil_append] at hSplit
    exact hSplit
  rw [List.takeWhile_append_of_pos hAll,
    List.dropWhile_append_of_pos hAll, hRest, hDrop,
    List.append_nil]
  exact ⟨rfl, rfl⟩

theorem takeWhile_join
    (sep : α)
    (rest : Option (List α)) :
    (rest.elim [] (fun rest => sep :: rest)).takeWhile
        (· ≠ sep) =
      [] := by
  cases rest with
  | none => rfl
  | some rest =>
      rw [Option.elim_some, List.takeWhile_cons]
      simp

theorem cut_join
    {sep : α}
    {first : List α}
    (hFirst : sep ∉ first)
    (rest : Option (List α)) :
    cut sep (join sep first rest) = (first, rest) := by
  have hBoth :=
    takeWhile_ne_append hFirst (takeWhile_join sep rest)
  unfold cut join
  rw [hBoth.1, hBoth.2]
  cases rest with
  | none => rfl
  | some rest => rfl

end Library

end Ydsh

----
-- Searching
----

namespace Ydsh

namespace Library

variable {α : Type} [DecidableEq α]

/- Where a word begins for the first time. -/
def search (word : List α) : List α → Option Nat
  | [] => if word = [] then some 0 else none
  | a :: text =>
      if word.isPrefixOf (a :: text) then
        some 0
      else
        (search word text).map (· + 1)

variable {word : List α}

theorem search_eq_none {text : List α} :
    search word text = none ↔ ¬ word <:+: text := by
  induction text with
  | nil =>
      simp only [search, List.infix_nil]
      split_ifs with hWord <;> simp [hWord]
  | cons a text ih =>
      simp only [search, List.infix_cons_iff, not_or,
        ← List.isPrefixOf_iff_prefix]
      split_ifs with hHere
      · simp [hHere]
      · rw [Option.map_eq_none_iff, ih]
        simp [hHere]

/- What is found is an occurrence, and none is further left. -/
theorem search_eq_some
    {text : List α}
    {index : Nat}
    (hSearch : search word text = some index) :
    ∃ front back,
      text = front ++ word ++ back ∧ front.length = index ∧
        ∀ before after,
          text = before ++ word ++ after →
            index ≤ before.length := by
  induction text generalizing index with
  | nil =>
      simp only [search] at hSearch
      split_ifs at hSearch with hWord
      cases hSearch
      exact
        ⟨[], [], by simp [hWord], rfl,
          fun _ _ _ => Nat.zero_le _⟩
  | cons a text ih =>
      simp only [search] at hSearch
      split_ifs at hSearch with hHere
      · cases hSearch
        rcases List.isPrefixOf_iff_prefix.mp hHere with
          ⟨back, hBack⟩
        exact
          ⟨[], back, hBack.symm, rfl, fun _ _ _ => Nat.zero_le _⟩
      · rcases Option.map_eq_some_iff.mp hSearch with
          ⟨found, hFound, rfl⟩
        rcases ih hFound with
          ⟨front, back, hText, hLength, hFirst⟩
        refine
          ⟨a :: front, back, by rw [hText]; rfl,
            congrArg (· + 1) hLength, ?_⟩
        intro before after hOther
        cases before with
        | nil =>
            have hPrefix : word <+: a :: text :=
              ⟨after, hOther.symm⟩
            exact
              absurd (List.isPrefixOf_iff_prefix.mpr hPrefix)
                hHere
        | cons b before =>
            have hTail := (List.cons.inj hOther).2
            exact
              Nat.succ_le_succ (hFirst before after hTail)

----
-- Splitting
----

/- The parts between the occurrences of a word. -/
inductive Splits (word : List α) :
    List α → List (List α) → Prop where
  | last {text : List α}
      (hNone : ¬ word <:+: text) :
      Splits word text [text]
  | next {front back : List α} {pieces : List (List α)}
      (hFirst :
        search word (front ++ word ++ back) =
          some front.length)
      (hMore : Splits word back pieces) :
      Splits word (front ++ word ++ back) (front :: pieces)

theorem Splits.ne_nil
    {text : List α}
    {pieces : List (List α)}
    (hSplits : Splits word text pieces) :
    pieces ≠ [] := by
  cases hSplits with
  | last => simp
  | next => simp

/- Every text can be split. -/
theorem Splits.total
    (hWord : word ≠ [])
    (text : List α) :
    ∃ pieces,
      Splits word text pieces ∧
        pieces.length ≤ text.length + 1 := by
  induction hLength : text.length using Nat.strong_induction_on
    generalizing text with
  | _ length ih =>
      cases hSearch : search word text with
      | none =>
          exact
            ⟨[text], .last (search_eq_none.mp hSearch),
              Nat.succ_le_succ (Nat.zero_le _)⟩
      | some index =>
          rcases search_eq_some hSearch with
            ⟨front, back, rfl, hIndex, _⟩
          have hPos := List.length_pos_iff.mpr hWord
          simp only [List.length_append] at hLength
          rcases
            ih back.length (by omega) back
              rfl with
            ⟨pieces, hPieces, hCount⟩
          rw [← hIndex] at hSearch
          refine ⟨front :: pieces, .next hSearch hPieces, ?_⟩
          rw [List.length_cons]
          omega

/- No part contains the word. -/
theorem Splits.not_infix
    (hWord : word ≠ [])
    {text : List α}
    {pieces : List (List α)}
    (hSplits : Splits word text pieces) :
    ∀ piece ∈ pieces, ¬ word <:+: piece := by
  induction hSplits with
  | last hNone =>
      intro piece hMem
      rw [List.mem_singleton.mp hMem]
      exact hNone
  | @next front back pieces hFirst _ ih =>
      intro piece hMem
      rcases List.mem_cons.mp hMem with rfl | hMem
      · rintro ⟨before, after, rfl⟩
        rcases search_eq_some hFirst with ⟨_, _, _, _, hLeft⟩
        have hPos := List.length_pos_iff.mpr hWord
        have hLe :=
          hLeft before (after ++ word ++ back) (by
            simp only [List.append_assoc])
        simp only [List.length_append] at hLe
        omega
      · exact ih piece hMem

end Library

end Ydsh
