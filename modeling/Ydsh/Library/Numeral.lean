import Mathlib.Data.Nat.Digits.Defs

/-
  Numerals in any base, and reading them under a limit.

  What a letter stands for as a digit is a parameter.  The
  reader gives up as soon as the limit is reached, which is
  only so when the numeral itself reaches it.

  Main declarations:
    * `Numeral`
    * `pushLimited`
    * `foldlM_pushLimited_iff`
-/

----
-- Numerals
----

namespace Ydsh

namespace Library

variable {α : Type}

/- The digits of a text, the highest first. -/
structure Spells
    (digit : α → Option Nat)
    (base : Nat)
    (text : List α)
    (digits : List Nat) : Prop where
  letters : text.map digit = digits.map some
  small : ∀ d ∈ digits, d < base

/- A text of at least one digit, and its value. -/
def Numeral
    (digit : α → Option Nat)
    (base : Nat)
    (text : List α)
    (value : Nat) : Prop :=
  text ≠ [] ∧
    ∃ digits,
      Spells digit base text digits ∧
        Nat.ofDigits base digits.reverse = value

/- One digit more, unless the limit is reached. -/
def pushLimited
    (digit : α → Option Nat)
    (base limit ret : Nat)
    (a : α) : Option Nat :=
  (digit a).bind fun d =>
    if d < base ∧ ret * base + d < limit then
      some (ret * base + d)
    else
      none

/- Horner's rule, from a value that has been read. -/
def horner
    (base ret : Nat)
    (digits : List Nat) : Nat :=
  digits.foldl (fun ret d => ret * base + d) ret

variable {digit : α → Option Nat}
variable {base limit ret value : Nat}
variable {a : α}
variable {text : List α}

theorem horner_zero
    (digits : List Nat) :
    horner base 0 digits = Nat.ofDigits base digits.reverse := by
  rw [Nat.ofDigits_eq_foldr, List.foldr_reverse]
  unfold horner
  congr 1
  funext ret d
  simp only [Nat.cast_id]
  rw [Nat.mul_comm, Nat.add_comm]

theorem le_horner
    (hBase : 0 < base)
    (digits : List Nat) :
    ret ≤ horner base ret digits := by
  induction digits generalizing ret with
  | nil => exact Nat.le_refl _
  | cons d digits ih =>
      have hStep :=
        @ih (ret * base + d)
      have hGrows : ret ≤ ret * base :=
        Nat.le_mul_of_pos_right ret hBase
      exact le_trans (Nat.le_add_right_of_le hGrows) hStep

theorem spells_nil_iff
    {digits : List Nat} :
    Spells digit base [] digits ↔ digits = [] := by
  constructor
  · intro hSpells
    exact List.map_eq_nil_iff.mp hSpells.letters.symm
  · rintro rfl
    exact ⟨rfl, fun _ hMem => absurd hMem List.not_mem_nil⟩

theorem spells_cons_iff
    {digits : List Nat} :
    Spells digit base (a :: text) digits ↔
      ∃ d more,
        digits = d :: more ∧ digit a = some d ∧ d < base ∧
          Spells digit base text more := by
  constructor
  · rintro ⟨hLetters, hSmall⟩
    cases digits with
    | nil => cases hLetters
    | cons d more =>
        rw [List.map_cons, List.map_cons] at hLetters
        rcases List.cons.inj hLetters with ⟨hFirst, hMore⟩
        exact
          ⟨d, more, rfl, hFirst, hSmall d List.mem_cons_self,
            hMore,
            fun other hOther =>
              hSmall other (List.mem_cons_of_mem _ hOther)⟩
  · rintro ⟨d, more, rfl, hFirst, hLt, hMore, hSmall⟩
    refine ⟨by rw [List.map_cons, hFirst, hMore]; rfl, ?_⟩
    intro other hOther
    rcases List.mem_cons.mp hOther with rfl | hOther
    · exact hLt
    · exact hSmall other hOther

theorem pushLimited_iff :
    pushLimited digit base limit ret a = some value ↔
      ∃ d,
        digit a = some d ∧ d < base ∧
          ret * base + d = value ∧ value < limit := by
  unfold pushLimited
  rw [Option.bind_eq_some_iff]
  apply exists_congr
  intro d
  apply and_congr_right
  intro _
  constructor
  · intro hPush
    split_ifs at hPush with hFits
    cases hPush
    exact ⟨hFits.1, rfl, hFits.2⟩
  · rintro ⟨hLt, rfl, hFits⟩
    exact if_pos ⟨hLt, hFits⟩

/- Reading digits after a value below the limit. -/
theorem foldlM_pushLimited
    (hBase : 0 < base)
    (hRet : ret < limit) :
    text.foldlM (pushLimited digit base limit) ret =
        some value ↔
      ∃ digits,
        Spells digit base text digits ∧
          horner base ret digits = value ∧ value < limit := by
  induction text generalizing ret with
  | nil =>
      constructor
      · intro hRead
        cases hRead
        exact ⟨[], spells_nil_iff.mpr rfl, rfl, hRet⟩
      · rintro ⟨digits, hSpells, rfl, _⟩
        rw [spells_nil_iff.mp hSpells]
        rfl
  | cons a text ih =>
      rw [List.foldlM_cons, Option.bind_eq_bind,
        Option.bind_eq_some_iff]
      constructor
      · rintro ⟨next, hPush, hRead⟩
        rcases pushLimited_iff.mp hPush with
          ⟨d, hDigit, hLt, rfl, hNext⟩
        rcases (ih hNext).mp hRead with
          ⟨digits, hSpells, hValue⟩
        exact
          ⟨d :: digits,
            spells_cons_iff.mpr
              ⟨d, digits, rfl, hDigit, hLt, hSpells⟩,
            hValue⟩
      · rintro ⟨digits, hSpells, hValue, hFits⟩
        rcases spells_cons_iff.mp hSpells with
          ⟨d, more, rfl, hDigit, hLt, hMore⟩
        have hNext : ret * base + d < limit := by
          have hGrows :=
            @le_horner base (ret * base + d) hBase more
          have hSame :
              horner base ret (d :: more) =
                horner base (ret * base + d) more :=
            rfl
          omega
        exact
          ⟨ret * base + d,
            pushLimited_iff.mpr ⟨d, hDigit, hLt, rfl, hNext⟩,
            (ih hNext).mpr
              ⟨more, hMore, hValue, hFits⟩⟩

/- Exactly the numerals below the limit are read. -/
theorem foldlM_pushLimited_iff
    (hBase : 0 < base)
    (hLimit : 0 < limit)
    (hText : text ≠ []) :
    text.foldlM (pushLimited digit base limit) 0 =
        some value ↔
      Numeral digit base text value ∧ value < limit := by
  rw [foldlM_pushLimited hBase hLimit]
  constructor
  · rintro ⟨digits, hSpells, hValue, hFits⟩
    rw [horner_zero] at hValue
    exact ⟨⟨hText, digits, hSpells, hValue⟩, hFits⟩
  · rintro ⟨⟨_, digits, hSpells, hValue⟩, hFits⟩
    rw [← horner_zero] at hValue
    exact ⟨digits, hSpells, hValue, hFits⟩

namespace Numeral

/- The first letter is a digit. -/
theorem digit_first
    (hNumeral : Numeral digit base (a :: text) value) :
    ∃ d, digit a = some d ∧ d < base := by
  rcases hNumeral with ⟨_, digits, hSpells, _⟩
  rcases spells_cons_iff.mp hSpells with
    ⟨d, _, _, hDigit, hLt, _⟩
  exact ⟨d, hDigit, hLt⟩

theorem not_of_none
    (hDigit : digit a = none) :
    ¬ Numeral digit base (a :: text) value := by
  intro hNumeral
  rcases hNumeral.digit_first with ⟨d, hSome, _⟩
  rw [hDigit] at hSome
  cases hSome

theorem single_iff :
    Numeral digit base [a] value ↔
      digit a = some value ∧ value < base := by
  constructor
  · rintro ⟨_, digits, hSpells, hValue⟩
    rcases spells_cons_iff.mp hSpells with
      ⟨d, more, rfl, hDigit, hLt, hMore⟩
    rw [spells_nil_iff.mp hMore, List.reverse_singleton,
      Nat.ofDigits_singleton] at hValue
    rw [← hValue]
    exact ⟨hDigit, hLt⟩
  · rintro ⟨hDigit, hLt⟩
    refine
      ⟨List.cons_ne_nil _ _, [value],
        spells_cons_iff.mpr
          ⟨value, [], rfl, hDigit, hLt,
            spells_nil_iff.mpr rfl⟩, ?_⟩
    rw [List.reverse_singleton, Nat.ofDigits_singleton]

/- A zero in front of a numeral changes nothing. -/
theorem cons_zero_iff
    (hZero : digit a = some 0)
    (hBase : 0 < base)
    (hText : text ≠ []) :
    Numeral digit base (a :: text) value ↔
      Numeral digit base text value := by
  have hValue :
      ∀ more : List Nat,
        Nat.ofDigits base (0 :: more).reverse =
          Nat.ofDigits base more.reverse := by
    intro more
    rw [← horner_zero, ← horner_zero]
    unfold horner
    rw [List.foldl_cons, Nat.zero_mul, Nat.add_zero]
  constructor
  · rintro ⟨_, digits, hSpells, hDigits⟩
    rcases spells_cons_iff.mp hSpells with
      ⟨d, more, rfl, hDigit, _, hMore⟩
    rw [hZero] at hDigit
    cases hDigit
    rw [hValue] at hDigits
    exact ⟨hText, more, hMore, hDigits⟩
  · rintro ⟨_, more, hMore, hDigits⟩
    rw [← hValue] at hDigits
    exact
      ⟨List.cons_ne_nil _ _, 0 :: more,
        spells_cons_iff.mpr
          ⟨0, more, rfl, hZero, hBase, hMore⟩, hDigits⟩

end Numeral

end Library

end Ydsh
