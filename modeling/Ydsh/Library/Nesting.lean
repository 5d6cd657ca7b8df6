import Mathlib.Tactic.Common

/-
  Words with brackets.

  Some symbols open a bracket, some close one and some separate
  words.  A word is closed if its brackets match and no
  separator stands outside of them, so that the end of a closed
  word can be found in a longer word.

  Main declarations:
    * `Mark`
    * `cut`
    * `Closed`
    * `cut_of_closed`
    * `cutAll_intercalate`
-/

----
-- Cutting at the End of a Word
----

namespace Ydsh

namespace Library

namespace Nesting

inductive Mark where
  | opening
  | closing
  | separator
  | plain
  deriving DecidableEq, Repr

variable {α : Type}

def cons (symbol : α) (parts : List α × List α) :
    List α × List α :=
  (symbol :: parts.1, parts.2)

/- The word up to the end of `depth` brackets, and the rest. -/
def cut
    (mark : α → Mark) : Nat → List α → List α × List α
  | _, [] => ([], [])
  | depth, symbol :: rest =>
      match mark symbol, depth with
      | .opening, depth => cons symbol (cut mark (depth + 1) rest)
      | .closing, 0 => ([], symbol :: rest)
      | .closing, depth + 1 => cons symbol (cut mark depth rest)
      | .separator, 0 => ([], symbol :: rest)
      | .separator, depth + 1 =>
          cons symbol (cut mark (depth + 1) rest)
      | .plain, depth => cons symbol (cut mark depth rest)

def prepend (word : List α) (parts : List α × List α) :
    List α × List α :=
  (word ++ parts.1, parts.2)

----
-- Closed Words
----

/- A word that is passed over inside of brackets. -/
def Inner (mark : α → Mark) (word : List α) : Prop :=
  ∀ depth rest,
    cut mark (depth + 1) (word ++ rest) =
      prepend word (cut mark (depth + 1) rest)

/- A word that is passed over anywhere. -/
def Closed (mark : α → Mark) (word : List α) : Prop :=
  ∀ depth rest,
    cut mark depth (word ++ rest) =
      prepend word (cut mark depth rest)

variable {mark : α → Mark}
variable {word word' : List α}
variable {symbol : α}

theorem Closed.inner (hClosed : Closed mark word) :
    Inner mark word :=
  fun depth rest => hClosed (depth + 1) rest

theorem Closed.nil : Closed mark [] := by
  intro depth rest
  rfl

theorem Closed.append
    (hFirst : Closed mark word)
    (hSecond : Closed mark word') :
    Closed mark (word ++ word') := by
  intro depth rest
  rw [List.append_assoc, hFirst, hSecond]
  simp [prepend]

theorem Inner.append
    (hFirst : Inner mark word)
    (hSecond : Inner mark word') :
    Inner mark (word ++ word') := by
  intro depth rest
  rw [List.append_assoc, hFirst, hSecond]
  simp [prepend]

theorem Closed.plain (hMark : mark symbol = .plain) :
    Closed mark [symbol] := by
  intro depth rest
  rw [List.singleton_append, cut.eq_def]
  simp only [hMark]
  rfl

theorem Closed.all_plain
    (hMarks : ∀ symbol ∈ word, mark symbol = .plain) :
    Closed mark word := by
  induction word with
  | nil => exact .nil
  | cons symbol word ih =>
      rw [← List.singleton_append]
      apply Closed.append
      · exact .plain (hMarks symbol List.mem_cons_self)
      · apply ih
        intro found hMem
        exact hMarks found (List.mem_cons_of_mem _ hMem)

theorem Inner.separator (hMark : mark symbol = .separator) :
    Inner mark [symbol] := by
  intro depth rest
  rw [List.singleton_append, cut.eq_def]
  simp only [hMark]
  rfl

/- A word in brackets is closed. -/
theorem Closed.bracket
    {opening closing : α}
    (hOpening : mark opening = .opening)
    (hClosing : mark closing = .closing)
    (hInner : Inner mark word) :
    Closed mark (opening :: (word ++ [closing])) := by
  intro depth rest
  have hRest :
      cut mark (depth + 1) (closing :: rest) =
        cons closing (cut mark depth rest) := by
    rw [cut.eq_def]
    simp only [hClosing]
  rw [List.cons_append, List.append_assoc, cut.eq_def]
  simp only [hOpening]
  rw [hInner, List.singleton_append, hRest]
  simp [cons, prepend]

/- Where a word may end. -/
def Stops (mark : α → Mark) (symbol : α) : Prop :=
  mark symbol = .closing ∨ mark symbol = .separator

theorem cut_of_closed
    (hClosed : Closed mark word)
    (hStops : Stops mark symbol)
    (rest : List α) :
    cut mark 0 (word ++ symbol :: rest) =
      (word, symbol :: rest) := by
  have hRest :
      cut mark 0 (symbol :: rest) = ([], symbol :: rest) := by
    rw [cut.eq_def]
    rcases hStops with hMark | hMark
    · simp only [hMark]
    · simp only [hMark]
  rw [hClosed, hRest]
  simp [prepend]

----
-- Sequences of Words
----

/- A sequence of closed words is passed over in brackets. -/
theorem Inner.intercalate
    {sep : List α}
    {words : List (List α)}
    (hSep : Inner mark sep)
    (hWords : ∀ word ∈ words, Closed mark word) :
    Inner mark (sep.intercalate words) := by
  induction words with
  | nil => exact Closed.nil.inner
  | cons word words ih =>
      have hWord := hWords word List.mem_cons_self
      cases words with
      | nil =>
          rw [List.intercalate_singleton]
          exact hWord.inner
      | cons next words =>
          rw [List.intercalate_cons_cons]
          apply (hWord.inner.append hSep).append
          apply ih
          intro found hMem
          exact hWords found (List.mem_cons_of_mem _ hMem)

variable [DecidableEq α]

/- The words that are separated by `sep`, and the rest. -/
def cutAll
    (mark : α → Mark)
    (sep : List α) :
    Nat → List α → List (List α) × List α
  | 0, rest => ([], rest)
  | limit + 1, rest =>
      let parts := cut mark 0 rest
      if sep.isPrefixOf parts.2 then
        let more := cutAll mark sep limit (parts.2.drop sep.length)
        (parts.1 :: more.1, more.2)
      else
        ([parts.1], parts.2)

/- The words are found again if the rest does not go on. -/
theorem cutAll_intercalate
    {sep rest : List α}
    {first : α}
    {words : List (List α)}
    (limit : Nat)
    (hSep : mark first = .separator)
    (hStops : Stops mark symbol)
    (hRest : ¬(first :: sep).isPrefixOf (symbol :: rest))
    (hNe : words ≠ [])
    (hWords : ∀ word ∈ words, Closed mark word)
    (hLimit : words.length ≤ limit) :
    cutAll mark (first :: sep) limit
        ((first :: sep).intercalate words ++ symbol :: rest) =
      (words, symbol :: rest) := by
  induction words generalizing limit with
  | nil => exact absurd rfl hNe
  | cons word words ih =>
      have hWord := hWords word List.mem_cons_self
      cases limit with
      | zero =>
          rw [List.length_cons] at hLimit
          omega
      | succ limit =>
          cases words with
          | nil =>
              have hCut := cut_of_closed hWord hStops rest
              simp only [List.intercalate_singleton, cutAll, hCut,
                if_neg hRest]
          | cons next words =>
              have hCut :=
                cut_of_closed hWord
                  (show Stops mark first from .inr hSep)
                  (sep ++ ((first :: sep).intercalate
                    (next :: words) ++ symbol :: rest))
              have hMore :=
                ih limit (List.cons_ne_nil _ _)
                  (fun found hMem =>
                    hWords found (List.mem_cons_of_mem _ hMem))
                  (by
                    simp only [List.length_cons] at hLimit ⊢
                    omega)
              have hJoin :
                  (first :: sep).intercalate
                        (word :: next :: words) ++
                      symbol :: rest =
                    word ++ first ::
                      (sep ++ ((first :: sep).intercalate
                        (next :: words) ++ symbol :: rest)) := by
                rw [List.intercalate_cons_cons]
                simp
              have hPrefix :
                  (first :: sep).isPrefixOf
                      (first ::
                        (sep ++ ((first :: sep).intercalate
                          (next :: words) ++ symbol :: rest))) =
                    true := by
                simp
              have hDrop :
                  (first ::
                      (sep ++ ((first :: sep).intercalate
                        (next :: words) ++ symbol :: rest))).drop
                      (first :: sep).length =
                    (first :: sep).intercalate (next :: words) ++
                      symbol :: rest := by
                simp
              rw [hJoin, cutAll]
              simp only [hCut, hPrefix, if_true, hDrop, hMore]

end Nesting

end Library

end Ydsh
