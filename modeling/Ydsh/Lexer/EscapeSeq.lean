import Ydsh.Json.Unescape
import Ydsh.Library.Utf8

/-
  The escape sequences of string literals.

  A range of bytes is given by its bytes: the cursor stands at
  the first of them, and moves by dropping some.

  Main declarations:
    * `parseEscapeSeq`
    * `escapeAt`
    * `parseEscapeSeq_eq`
    * `keepsContract_iff`
-/

----
-- Reading an Escape
----

namespace Ydsh

namespace EscapeSeq

open Json (ascii isHex hexToNum BACKSLASH)

/- The number of values of an unsigned int. -/
abbrev UINT_RANGE : Nat := 0x100000000

/- An unsigned int returned as an int. -/
def toInt (code : Nat) : Int :=
  if code < 0x80000000 then
    (code : Int)
  else
    (code : Int) - UINT_RANGE

def isOctal (ch : UInt8) : Bool :=
  0x30 ≤ ch.toNat && ch.toNat < 0x38

def octalToNum (ch : UInt8) : Nat :=
  ch.toNat - 0x30

/- The escapes of one letter. -/
def namedEscape (next : UInt8) : Option Nat :=
  if next = BACKSLASH then
    some 0x5C
  else if next ∈ ascii ['a'] then
    some 0x07
  else if next ∈ ascii ['b'] then
    some 0x08
  else if next ∈ ascii ['e', 'E'] then
    some 0x1B
  else if next ∈ ascii ['f'] then
    some 0x0C
  else if next ∈ ascii ['n'] then
    some 0x0A
  else if next ∈ ascii ['r'] then
    some 0x0D
  else if next ∈ ascii ['t'] then
    some 0x09
  else if next ∈ ascii ['v'] then
    some 0x0B
  else
    none

/- The letters that hexadecimal digits follow. -/
def HEX_MARKS : List UInt8 :=
  ascii ['x', 'u', 'U']

def hexLimit (next : UInt8) : Nat :=
  if next ∈ ascii ['x'] then
    2
  else if next ∈ ascii ['u'] then
    4
  else
    8

/- At most `count` digits more, in an unsigned int. -/
def digitLoop
    (isDigit : UInt8 → Bool)
    (num : UInt8 → Nat)
    (base : Nat) :
    Nat → Nat → List UInt8 → Nat × List UInt8
  | 0, code, range => (code, range)
  | _ + 1, code, [] => (code, [])
  | count + 1, code, ch :: range =>
      if isDigit ch then
        digitLoop isDigit num base count
          ((code * base % UINT_RANGE + num ch) % UINT_RANGE)
          range
      else
        (code, ch :: range)

/- After `\x`, `\u` and `\U`: at least one digit. -/
def parseHexEscape
    (range : List UInt8)
    (next : UInt8) : List UInt8 → Int × List UInt8
  | [] => (-1, range)
  | ch :: rest =>
      if isHex ch then
        let found :=
          digitLoop isHex hexToNum 16 (hexLimit next - 1)
            (hexToNum ch) rest
        (toInt found.1, found.2)
      else
        (-1, range)

def parseOctalEscape
    (needOctalPrefix : Bool)
    (range : List UInt8)
    (next : UInt8)
    (rest : List UInt8) : Int × List UInt8 :=
  if isOctal next = false ∨
      (needOctalPrefix = true ∧ next ≠ 0x30) then
    (-1, range)
  else
    let found :=
      digitLoop isOctal octalToNum 8
        (if needOctalPrefix then 3 else 2)
        (octalToNum next) rest
    (toInt found.1, found.2)

/- The code, or -1, and the range from the cursor on. -/
def parseEscapeSeq
    (needOctalPrefix : Bool) :
    List UInt8 → Int × List UInt8
  | [] => (-1, [])
  | [slash] => (-1, [slash])
  | slash :: next :: rest =>
      if slash ≠ BACKSLASH then
        (-1, slash :: next :: rest)
      else
        match namedEscape next with
        | some code => (code, rest)
        | none =>
            if next ∈ HEX_MARKS then
              parseHexEscape (slash :: next :: rest) next rest
            else
              parseOctalEscape needOctalPrefix
                (slash :: next :: rest) next rest

----
-- What an Escape Is
----

/- The digits at the start of a range, at most `limit`. -/
def digits
    (isDigit : UInt8 → Bool)
    (limit : Nat)
    (range : List UInt8) : List UInt8 :=
  (range.take limit).takeWhile isDigit

def number
    (num : UInt8 → Nat)
    (base code : Nat)
    (ds : List UInt8) : Nat :=
  ds.foldl (fun code ch => code * base + num ch) code

/- A number in digits, and the range after it. -/
def numeral
    (isDigit : UInt8 → Bool)
    (num : UInt8 → Nat)
    (base limit : Nat)
    (range : List UInt8) : Option (Nat × List UInt8) :=
  if digits isDigit limit range = [] then
    none
  else
    some
      (number num base 0 (digits isDigit limit range),
        range.drop (digits isDigit limit range).length)

/- The number that an escape gives in digits. -/
def numberAt
    (needOctalPrefix : Bool)
    (next : UInt8)
    (rest : List UInt8) : Option (Nat × List UInt8) :=
  if next ∈ HEX_MARKS then
    numeral isHex hexToNum 16 (hexLimit next) rest
  else if needOctalPrefix = false then
    numeral isOctal octalToNum 8 3 (next :: rest)
  else if next = 0x30 then
    numeral isOctal octalToNum 8 4 (next :: rest)
  else
    none

/-
  The code point of the escape that a range starts with, and the
  range after that escape.
-/
def escapeAt
    (needOctalPrefix : Bool) :
    List UInt8 → Option (Nat × List UInt8)
  | [] => none
  | [_] => none
  | slash :: next :: rest =>
      if slash ≠ BACKSLASH then
        none
      else
        match namedEscape next with
        | some code => some (code, rest)
        | none => numberAt needOctalPrefix next rest

----
-- Numbers
----

section Numbers

variable {isDigit : UInt8 → Bool}
variable {num : UInt8 → Nat}
variable {base : Nat}
variable (hNum : ∀ ch, isDigit ch = true → num ch < base)

include hNum

theorem push_lt
    {code count : Nat}
    {ch : UInt8}
    (hDigit : isDigit ch = true)
    (hFits : (code + 1) * base ^ (count + 1) ≤ UINT_RANGE) :
    (code * base + num ch + 1) * base ^ count ≤ UINT_RANGE := by
  have hNext : code * base + num ch + 1 ≤ (code + 1) * base := by
    have hLt := hNum ch hDigit
    rw [Nat.add_mul, Nat.one_mul]
    omega
  calc
    (code * base + num ch + 1) * base ^ count ≤
        (code + 1) * base * base ^ count :=
      Nat.mul_le_mul_right _ hNext
    _ = (code + 1) * base ^ (count + 1) := by
      rw [Nat.pow_succ', Nat.mul_assoc]
    _ ≤ UINT_RANGE := hFits

theorem fits_of_mul
    {code count : Nat}
    {ch : UInt8}
    (hDigit : isDigit ch = true)
    (hFits : (code + 1) * base ^ count ≤ UINT_RANGE) :
    code < UINT_RANGE := by
  have hPos : 0 < base ^ count :=
    Nat.pow_pos (Nat.zero_lt_of_lt (hNum ch hDigit))
  have hLe := Nat.le_mul_of_pos_right (code + 1) hPos
  omega

omit hNum in
theorem digits_cons
    (count : Nat)
    (ch : UInt8)
    (range : List UInt8) :
    digits isDigit (count + 1) (ch :: range) =
      if isDigit ch = true then
        ch :: digits isDigit count range
      else
        [] := by
  unfold digits
  rw [List.take_succ_cons, List.takeWhile_cons]

/- No digit overflows. -/
theorem digitLoop_eq
    {code count : Nat}
    (hFits : (code + 1) * base ^ count ≤ UINT_RANGE)
    (range : List UInt8) :
    digitLoop isDigit num base count code range =
      (number num base code (digits isDigit count range),
        range.drop (digits isDigit count range).length) := by
  induction count generalizing code range with
  | zero => rfl
  | succ count ih =>
      cases range with
      | nil => rfl
      | cons ch range =>
          by_cases hDigit : isDigit ch = true
          · have hNext := push_lt hNum hDigit hFits
            have hLt := fits_of_mul hNum hDigit hNext
            have hMod :
                (code * base % UINT_RANGE + num ch) %
                    UINT_RANGE =
                  code * base + num ch := by
              rw [Nat.mod_eq_of_lt
                  (Nat.lt_of_le_of_lt (Nat.le_add_right _ _) hLt),
                Nat.mod_eq_of_lt hLt]
            rw [digitLoop, if_pos hDigit, hMod, ih hNext,
              digits_cons, if_pos hDigit]
            rfl
          · rw [digitLoop, if_neg hDigit, digits_cons,
              if_neg hDigit]
            rfl

/- The first digit starts the number. -/
theorem numeral_cons
    {count : Nat}
    {ch : UInt8}
    (hDigit : isDigit ch = true)
    (hFits : base ^ (count + 1) ≤ UINT_RANGE)
    (range : List UInt8) :
    numeral isDigit num base (count + 1) (ch :: range) =
      some
        (digitLoop isDigit num base count (num ch) range) := by
  have hStart : (0 + 1) * base ^ (count + 1) ≤ UINT_RANGE := by
    rw [Nat.zero_add, Nat.one_mul]
    exact hFits
  have hNext := push_lt hNum hDigit hStart
  rw [Nat.zero_mul, Nat.zero_add] at hNext
  unfold numeral
  rw [digits_cons, if_pos hDigit,
    if_neg (List.cons_ne_nil _ _), digitLoop_eq hNum hNext]
  unfold number
  rw [List.foldl_cons, Nat.zero_mul, Nat.zero_add]
  rfl

omit hNum in
theorem numeral_of_not
    {count : Nat}
    {ch : UInt8}
    (hDigit : isDigit ch = false)
    (range : List UInt8) :
    numeral isDigit num base (count + 1) (ch :: range) =
      none := by
  unfold numeral
  rw [digits_cons, hDigit]
  rfl

theorem number_lt
    {code : Nat}
    (count : Nat)
    {ds : List UInt8}
    (hDigits : ∀ ch ∈ ds, isDigit ch = true)
    (hLength : ds.length ≤ count)
    (hFits : (code + 1) * base ^ count ≤ UINT_RANGE)
    (hPos : 0 < base) :
    number num base code ds < UINT_RANGE := by
  induction ds generalizing code count with
  | nil =>
      have hLe :=
        Nat.le_mul_of_pos_right (code + 1)
          (Nat.pow_pos (n := count) hPos)
      show code < UINT_RANGE
      omega
  | cons ch ds ih =>
      cases count with
      | zero => exact absurd hLength (Nat.not_succ_le_zero _)
      | succ count =>
          have hFirst := hDigits ch List.mem_cons_self
          apply
            ih count
              (fun other hMem =>
                hDigits other (List.mem_cons_of_mem _ hMem))
              (Nat.le_of_succ_le_succ hLength)
              (push_lt hNum hFirst hFits)

omit hNum in
theorem numeral_some
    {limit : Nat}
    {range : List UInt8}
    {found : Nat × List UInt8}
    (hFound :
      numeral isDigit num base limit range = some found) :
    found =
      (number num base 0 (digits isDigit limit range),
        range.drop (digits isDigit limit range).length) := by
  unfold numeral at hFound
  split_ifs at hFound
  exact (Option.some.inj hFound).symm

theorem numeral_lt
    {limit : Nat}
    (hFits : base ^ limit ≤ UINT_RANGE)
    (hPos : 0 < base)
    {range : List UInt8}
    {found : Nat × List UInt8}
    (hFound :
      numeral isDigit num base limit range = some found) :
    found.1 < UINT_RANGE := by
  rw [numeral_some hFound]
  apply number_lt hNum limit _ _ _ hPos
  · exact List.all_eq_true.mp List.all_takeWhile
  · exact
      Nat.le_trans (List.takeWhile_prefix _).length_le
        (List.length_take_le _ _)
  · rw [Nat.zero_add, Nat.one_mul]
    exact hFits

end Numbers

theorem numeral_length
    {isDigit : UInt8 → Bool}
    {num : UInt8 → Nat}
    {base limit : Nat}
    {range : List UInt8}
    {found : Nat × List UInt8}
    (hFound :
      numeral isDigit num base limit range = some found) :
    found.2.length ≤ range.length := by
  rw [numeral_some hFound, List.length_drop]
  exact Nat.sub_le _ _

theorem hexToNum_lt (ch : UInt8) :
    hexToNum ch < 16 := by
  unfold hexToNum
  split_ifs
  all_goals omega

theorem octalToNum_lt
    {ch : UInt8}
    (hDigit : isOctal ch = true) :
    octalToNum ch < 8 := by
  unfold isOctal at hDigit
  unfold octalToNum
  simp only [Bool.and_eq_true, decide_eq_true_eq] at hDigit
  omega

theorem hexLimit_le (next : UInt8) :
    16 ^ hexLimit next ≤ UINT_RANGE := by
  unfold hexLimit
  split_ifs
  all_goals decide

----
-- The Contract
----

/- The result if that is what the range starts with. -/
def resultOf
    (range : List UInt8)
    (found : Option (Nat × List UInt8)) : Int × List UInt8 :=
  found.elim (-1, range)
    (fun found => (toInt found.1, found.2))

theorem hexEscape_eq
    (range rest : List UInt8)
    (next : UInt8) :
    parseHexEscape range next rest =
      resultOf range
        (numeral isHex hexToNum 16 (hexLimit next) rest) := by
  have hLimit : hexLimit next = hexLimit next - 1 + 1 := by
    unfold hexLimit
    split_ifs
    all_goals rfl
  cases rest with
  | nil =>
      unfold numeral digits
      rw [List.take_nil]
      rfl
  | cons ch rest =>
      rw [parseHexEscape, hLimit]
      by_cases hDigit : isHex ch = true
      · have hFits := hexLimit_le next
        rw [hLimit] at hFits
        rw [if_pos hDigit,
          numeral_cons (fun ch _ => hexToNum_lt ch) hDigit hFits]
        rfl
      · rw [if_neg hDigit,
          numeral_of_not (Bool.not_eq_true _ ▸ hDigit)]
        rfl

theorem octalEscape_eq
    (needOctalPrefix : Bool)
    (range rest : List UInt8)
    {next : UInt8}
    (hMark : next ∉ HEX_MARKS) :
    parseOctalEscape needOctalPrefix range next rest =
      resultOf range (numberAt needOctalPrefix next rest) := by
  have hNum : ∀ ch, isOctal ch = true → octalToNum ch < 8 :=
    fun _ hDigit => octalToNum_lt hDigit
  unfold parseOctalEscape numberAt
  rw [if_neg hMark]
  by_cases hRead :
      isOctal next = false ∨
        (needOctalPrefix = true ∧ next ≠ 0x30)
  · rw [if_pos hRead]
    cases needOctalPrefix with
    | false =>
        have hDigit : isOctal next = false := by
          rcases hRead with hDigit | hBoth
          · exact hDigit
          · cases hBoth.1
        rw [if_pos rfl, numeral_of_not hDigit]
        rfl
    | true =>
        have hZero : next ≠ 0x30 := by
          rcases hRead with hDigit | hBoth
          · intro hEq
            rw [hEq] at hDigit
            cases hDigit
          · exact hBoth.2
        rw [if_neg (by decide), if_neg hZero]
        rfl
  · rw [if_neg hRead]
    rw [not_or, Bool.not_eq_false] at hRead
    cases needOctalPrefix with
    | false =>
        rw [if_pos rfl, numeral_cons hNum hRead.1 (by decide)]
        rfl
    | true =>
        have hZero : next = 0x30 := by
          by_contra hNe
          exact hRead.2 ⟨rfl, hNe⟩
        have hPrefix : ¬true = false := by
          decide
        rw [if_neg hPrefix, if_pos hZero,
          numeral_cons hNum hRead.1 (by decide)]
        rfl

theorem namedEscape_lt
    {next : UInt8}
    {code : Nat}
    (hNamed : namedEscape next = some code) :
    code < 0x80 := by
  unfold namedEscape at hNamed
  split_ifs at hNamed
  all_goals
    cases hNamed
    decide

/- What the cursor leaves behind is the escape. -/
theorem parseEscapeSeq_eq
    (needOctalPrefix : Bool)
    (range : List UInt8) :
    parseEscapeSeq needOctalPrefix range =
      resultOf range (escapeAt needOctalPrefix range) := by
  unfold parseEscapeSeq escapeAt
  split
  · rfl
  · rfl
  · rename_i slash next rest
    by_cases hSlash : slash ≠ BACKSLASH
    · rw [if_pos hSlash, if_pos hSlash]
      rfl
    · rw [if_neg hSlash, if_neg hSlash]
      cases hNamed : namedEscape next with
      | some code =>
          have hLt : code < 0x80000000 :=
            Nat.lt_trans (namedEscape_lt hNamed) (by decide)
          show ((code : Int), rest) = (toInt code, rest)
          unfold toInt
          rw [if_pos hLt]
      | none =>
          simp only
          by_cases hMark : next ∈ HEX_MARKS
          · unfold numberAt
            rw [if_pos hMark, if_pos hMark, hexEscape_eq]
          · rw [if_neg hMark, octalEscape_eq _ _ _ hMark]

/- An escape is a name or a number behind a backslash. -/
theorem escapeAt_cases
    {needOctalPrefix : Bool}
    {range : List UInt8}
    {found : Nat × List UInt8}
    (hFound : escapeAt needOctalPrefix range = some found) :
    ∃ slash next rest,
      range = slash :: next :: rest ∧
        ((∃ code,
            namedEscape next = some code ∧
              found = (code, rest)) ∨
          numberAt needOctalPrefix next rest = some found) := by
  unfold escapeAt at hFound
  split at hFound
  · cases hFound
  · cases hFound
  · rename_i slash next rest
    refine ⟨slash, next, rest, rfl, ?_⟩
    by_cases hSlash : slash ≠ BACKSLASH
    · rw [if_pos hSlash] at hFound
      cases hFound
    · rw [if_neg hSlash] at hFound
      cases hNamed : namedEscape next with
      | some code =>
          rw [hNamed] at hFound
          exact
            Or.inl ⟨code, rfl, (Option.some.inj hFound).symm⟩
      | none =>
          rw [hNamed] at hFound
          exact Or.inr hFound

theorem escapeAt_lt
    {needOctalPrefix : Bool}
    {range : List UInt8}
    {found : Nat × List UInt8}
    (hFound : escapeAt needOctalPrefix range = some found) :
    found.1 < UINT_RANGE := by
  have hNum : ∀ ch, isOctal ch = true → octalToNum ch < 8 :=
    fun _ hDigit => octalToNum_lt hDigit
  rcases escapeAt_cases hFound with
    ⟨_, next, _, _, ⟨code, hNamed, rfl⟩ | hNumber⟩
  · exact Nat.lt_trans (namedEscape_lt hNamed) (by decide)
  · unfold numberAt at hNumber
    split_ifs at hNumber
    · exact
        numeral_lt (fun ch _ => hexToNum_lt ch)
          (hexLimit_le next) (by decide) hNumber
    · exact numeral_lt hNum (by decide) (by decide) hNumber
    · exact numeral_lt hNum (by decide) (by decide) hNumber

theorem escapeAt_length
    {needOctalPrefix : Bool}
    {range : List UInt8}
    {found : Nat × List UInt8}
    (hFound : escapeAt needOctalPrefix range = some found) :
    found.2.length < range.length := by
  rcases escapeAt_cases hFound with
    ⟨_, next, rest, rfl, ⟨code, _, rfl⟩ | hNumber⟩
  · exact Nat.lt_succ_of_le (Nat.le_succ _)
  · rw [List.length_cons]
    apply Nat.lt_succ_of_le
    unfold numberAt at hNumber
    split_ifs at hNumber
    · exact Nat.le_succ_of_le (numeral_length hNumber)
    · exact numeral_length hNumber
    · exact numeral_length hNumber

/-
  Either there is no escape and the cursor stays, or the code
  point of an escape is returned and the cursor is past it.
-/
def KeepsContract
    (needOctalPrefix : Bool)
    (range : List UInt8) : Prop :=
  parseEscapeSeq needOctalPrefix range = (-1, range) ∨
    ∃ found,
      escapeAt needOctalPrefix range = some found ∧
        parseEscapeSeq needOctalPrefix range =
          ((found.1 : Int), found.2)

theorem toInt_of_lt
    {code : Nat}
    (hLt : code < 0x80000000) :
    toInt code = code :=
  if_pos hLt

theorem toInt_neg
    {code : Nat}
    (hCode : code < UINT_RANGE)
    (hLt : ¬code < 0x80000000) :
    toInt code < 0 := by
  unfold toInt
  rw [if_neg hLt]
  unfold UINT_RANGE at hCode ⊢
  omega

/- The failure value is a code that digits can give. -/
theorem toInt_eq_neg_one_iff
    {code : Nat}
    (hCode : code < UINT_RANGE) :
    toInt code = -1 ↔ code = 0xFFFFFFFF := by
  unfold UINT_RANGE at hCode
  by_cases hLt : code < 0x80000000
  · rw [toInt_of_lt hLt]
    omega
  · unfold toInt UINT_RANGE
    rw [if_neg hLt]
    omega

theorem keepsContract_iff
    (needOctalPrefix : Bool)
    (range : List UInt8) :
    KeepsContract needOctalPrefix range ↔
      ∀ found,
        escapeAt needOctalPrefix range = some found →
          found.1 < 0x80000000 := by
  unfold KeepsContract
  rw [parseEscapeSeq_eq]
  constructor
  · intro hKeeps found hFound
    have hLength := escapeAt_length hFound
    rw [hFound] at hKeeps
    by_contra hLarge
    rcases hKeeps with hUnmoved | ⟨other, hOther, hResult⟩
    · have hRest : found.2 = range :=
        congrArg Prod.snd hUnmoved
      rw [hRest] at hLength
      exact Nat.lt_irrefl _ hLength
    · rw [← Option.some.inj hOther] at hResult
      have hCode : toInt found.1 = found.1 :=
        congrArg Prod.fst hResult
      have hNeg := toInt_neg (escapeAt_lt hFound) hLarge
      omega
  · intro hSmall
    cases hFound : escapeAt needOctalPrefix range with
    | none => exact .inl rfl
    | some found =>
        right
        refine ⟨found, rfl, ?_⟩
        unfold resultOf
        rw [Option.elim_some, toInt_of_lt (hSmall found hFound)]

end EscapeSeq

end Ydsh
