import Mathlib.Data.List.DropRight
import Mathlib.Data.List.TakeWhile

/-
  Splitting a text into fields.

  Two kinds of items separate fields: blanks, of which a run is
  one separator, and marks, each of which is one together with
  the blanks next to it.

  Main declarations:
    * `Fields`
    * `Fields.total`
    * `trim`
    * `firstFields`
-/

----
-- Fields
----

namespace Ydsh

namespace Library

section Fields

variable {α : Type}
variable (blank mark : α → Bool)

/- A separator is as long as it can be. -/
inductive Fields : List α → List (List α) → Prop where
  | last {field : List α}
      (hField :
        ∀ a ∈ field, blank a = false ∧ mark a = false) :
      Fields field [field]
  | blanks {field run rest : List α}
      {fields : List (List α)}
      (hField :
        ∀ a ∈ field, blank a = false ∧ mark a = false)
      (hRun : ∀ a ∈ run, blank a = true)
      (hNonempty : run ≠ [])
      (hRest :
        ∀ a ∈ rest.head?, blank a = false ∧ mark a = false)
      (hMore : Fields rest fields) :
      Fields (field ++ run ++ rest) (field :: fields)
  | mark {field before after rest : List α} {a : α}
      {fields : List (List α)}
      (hField :
        ∀ a ∈ field, blank a = false ∧ mark a = false)
      (hBefore : ∀ a ∈ before, blank a = true)
      (hMark : mark a = true)
      (hAfter : ∀ a ∈ after, blank a = true)
      (hRest : ∀ a ∈ rest.head?, blank a = false)
      (hMore : Fields rest fields) :
      Fields (field ++ before ++ a :: after ++ rest)
        (field :: fields)

/- What is left between the blanks at both ends. -/
def trim (text : List α) : List α :=
  (text.dropWhile blank).rdropWhile blank

----
-- Every text has fields
----

variable {blank mark : α → Bool}

/- What stands in front of the first item that a test does not
   hold of. -/
theorem head?_dropWhile
    (p : α → Bool)
    (text : List α) :
    ∀ a ∈ (text.dropWhile p).head?, p a = false := by
  intro a hHead
  induction text with
  | nil => cases hHead
  | cons b text ih =>
      cases hTest : p b with
      | true =>
          rw [List.dropWhile_cons, if_pos hTest] at hHead
          exact ih hHead
      | false =>
          rw [List.dropWhile_cons, if_neg (by simp [hTest])]
            at hHead
          cases hHead
          exact hTest

theorem Fields.total (text : List α) :
    ∃ fields, Fields blank mark text fields := by
  induction hLength : text.length using Nat.strong_induction_on
    generalizing text with
  | _ length ih =>
      have hField :
          ∀ a ∈ text.takeWhile (fun a => !(blank a || mark a)),
            blank a = false ∧ mark a = false := by
        intro a hMem
        simpa using List.mem_takeWhile_imp hMem
      have hHead :=
        head?_dropWhile (fun a => !(blank a || mark a)) text
      have hText :=
        @List.takeWhile_append_dropWhile _
          (fun a => !(blank a || mark a)) text
      generalize
        text.takeWhile (fun a => !(blank a || mark a)) = field
        at hField hText
      generalize
        text.dropWhile (fun a => !(blank a || mark a)) = rest
        at hHead hText
      subst hText
      rw [List.length_append] at hLength
      cases rest with
      | nil =>
          rw [List.append_nil]
          exact ⟨[field], .last hField⟩
      | cons a rest =>
          have hSeparates : blank a = true ∨ mark a = true := by
            have hInside := hHead a rfl
            rw [Bool.not_eq_false', Bool.or_eq_true] at hInside
            exact hInside
          have hRun :
              ∀ b ∈ (a :: rest).takeWhile blank,
                blank b = true :=
            fun _ hMem => List.mem_takeWhile_imp hMem
          have hNext := head?_dropWhile blank (a :: rest)
          have hRest :=
            @List.takeWhile_append_dropWhile _ blank (a :: rest)
          generalize (a :: rest).takeWhile blank = run
            at hRun hRest
          generalize (a :: rest).dropWhile blank = after
            at hNext hRest
          have hCount := congrArg List.length hRest
          rw [List.length_append, List.length_cons] at hCount
          rw [List.length_cons] at hLength
          cases after with
          | nil =>
              rw [List.append_nil] at hRest
              have hNonempty : run ≠ [] := by
                simp [hRest]
              have hNil : ∀ b : α,
                  b ∈ ([] : List α) →
                    blank b = false ∧ mark b = false :=
                fun _ hMem => by cases hMem
              have hFields :=
                Fields.blanks hField hRun hNonempty
                  (fun b hHead => by cases hHead)
                  (Fields.last hNil)
              rw [List.append_nil, hRest] at hFields
              exact ⟨_, hFields⟩
          | cons b more =>
              have hBlank : blank b = false := hNext b rfl
              rw [← hRest]
              rw [List.length_cons] at hCount
              cases hMark : mark b with
              | true =>
                  have hAfter :
                      ∀ c ∈ more.takeWhile blank,
                        blank c = true :=
                    fun _ hMem => List.mem_takeWhile_imp hMem
                  have hMore :=
                    @List.takeWhile_append_dropWhile _ blank more
                  have hFewer := List.length_dropWhile_le blank more
                  rcases
                    ih
                      (more.dropWhile blank).length
                      (by omega) (more.dropWhile blank) rfl with
                    ⟨fields, hFields⟩
                  refine ⟨field :: fields, ?_⟩
                  have hAll :=
                    Fields.mark hField hRun hMark hAfter
                      (head?_dropWhile blank more) hFields
                  simp only [List.append_assoc, List.cons_append,
                    hMore] at hAll
                  exact hAll
              | false =>
                  have hNonempty : run ≠ [] := by
                    rintro rfl
                    cases hRest
                    rw [hBlank, hMark] at hSeparates
                    simp at hSeparates
                  rcases
                    ih (b :: more).length
                      (by
                        rw [List.length_cons]
                        have := List.length_pos_iff.mpr hNonempty
                        omega)
                      (b :: more) rfl with
                    ⟨fields, hFields⟩
                  refine ⟨field :: fields, ?_⟩
                  rw [← List.append_assoc]
                  apply
                    Fields.blanks hField hRun hNonempty ?_ hFields
                  rintro c ⟨⟩
                  exact ⟨hBlank, hMark⟩

theorem trim_head (text : List α) :
    ∀ a ∈ (trim blank text).head?, blank a = false := by
  intro a hHead
  have hSplit :=
    @List.rdropWhile_append_rtakeWhile _ blank
      (text.dropWhile blank)
  apply head?_dropWhile blank text
  unfold trim at hHead
  rw [← hSplit]
  exact List.mem_head?_append_of_mem_head? hHead

/- What is trimmed are blanks. -/
theorem trim_append (text : List α) :
    ∃ before after,
      text = before ++ trim blank text ++ after ∧
        (∀ a ∈ before, blank a = true) ∧
        ∀ a ∈ after, blank a = true := by
  refine
    ⟨text.takeWhile blank,
      (text.dropWhile blank).rtakeWhile blank, ?_,
      fun _ hMem => List.mem_takeWhile_imp hMem,
      fun _ hMem => List.mem_rtakeWhile_imp hMem⟩
  unfold trim
  rw [List.append_assoc, List.rdropWhile_append_rtakeWhile,
    List.takeWhile_append_dropWhile]

----
-- First fields
----

variable (blank mark : α → Bool)

/- What stands behind the separator that a text begins with. -/
def dropSeparator (text : List α) : List α :=
  match text.dropWhile blank with
  | [] => []
  | a :: rest =>
      if mark a then rest.dropWhile blank else a :: rest

/- A number of fields at most, and what stands behind them. -/
def firstFields : Nat → List α → List (List α)
  | 0, text => [text]
  | n + 1, text =>
      match text.dropWhile fun a => !(blank a || mark a) with
      | [] => [text]
      | a :: rest =>
          text.takeWhile (fun a => !(blank a || mark a)) ::
            firstFields n (dropSeparator blank mark (a :: rest))

variable {blank mark : α → Bool}

theorem dropSeparator_blank
    {a : α}
    (rest : List α)
    (hBlank : blank a = true) :
    dropSeparator blank mark (a :: rest) =
      dropSeparator blank mark rest := by
  unfold dropSeparator
  rw [List.dropWhile_cons_of_pos hBlank]

theorem dropSeparator_mark
    {a : α}
    (rest : List α)
    (hBlank : blank a = false)
    (hMark : mark a = true) :
    dropSeparator blank mark (a :: rest) =
      rest.dropWhile blank := by
  unfold dropSeparator
  rw [List.dropWhile_cons_of_neg (by simp [hBlank])]
  exact if_pos hMark

theorem dropSeparator_inside
    {a : α}
    (rest : List α)
    (hBlank : blank a = false)
    (hMark : mark a = false) :
    dropSeparator blank mark (a :: rest) = a :: rest := by
  unfold dropSeparator
  rw [List.dropWhile_cons_of_neg (by simp [hBlank])]
  exact if_neg (by simp [hMark])

/- Without a separator, the text is one field. -/
theorem firstFields_inside
    {text : List α}
    (n : Nat)
    (hText :
      ∀ a ∈ text, blank a = false ∧ mark a = false) :
    firstFields blank mark n text = [text] := by
  cases n with
  | zero => rfl
  | succ n =>
      have hNone :
          text.dropWhile (fun a => !(blank a || mark a)) =
            [] := by
        rw [List.dropWhile_eq_nil_iff]
        intro a hMem
        simp [hText a hMem]
      rw [firstFields, hNone]

/- The first separator ends the first field. -/
theorem firstFields_separator
    {field rest : List α}
    {a : α}
    (n : Nat)
    (hField :
      ∀ a ∈ field, blank a = false ∧ mark a = false)
    (hSeparator : (blank a || mark a) = true) :
    firstFields blank mark (n + 1) (field ++ a :: rest) =
      field ::
        firstFields blank mark n
          (dropSeparator blank mark (a :: rest)) := by
  have hInside :
      ∀ b ∈ field, (!(blank b || mark b)) = true := by
    intro b hMem
    simp [hField b hMem]
  rw [firstFields, List.dropWhile_append_of_pos hInside,
    List.takeWhile_append_of_pos hInside, List.dropWhile_cons,
    List.takeWhile_cons, hSeparator]
  exact congrArg (· :: _) (List.append_nil field)

end Fields

end Library

end Ydsh
