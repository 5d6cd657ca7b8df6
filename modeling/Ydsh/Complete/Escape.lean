import Ydsh.Lexer.Words

/-
  The escape of what is completed.

  A name is inserted in the place of a command, or of one of
  its arguments, and is then read as one word.

  Main declarations:
    * `escape`
    * `escape_command_iff`
    * `escape_argument_iff`
-/

----
-- Escaping
----

namespace Ydsh

namespace Complete

open Lexing
open Words

abbrev DOLLAR : UInt8 := 0x24

inductive EscapeOp where
  | NOP
  | COMMAND_NAME
  | COMMAND_NAME_PART
  | COMMAND_ARG
  deriving DecidableEq

/- A byte from 128 on is negative. -/
def isControl (ch : UInt8) : Bool :=
  ch < 32 || ch == 127

def needEscape (ch : UInt8) (op : EscapeOp) : Bool :=
  if (bytes " ;\x27\x22\x60|&<>()$#~").contains ch then true
  else if (bytes "\x7b\x7d").contains ch then
    op == .COMMAND_NAME || op == .COMMAND_NAME_PART
  else isControl ch

def hexDigit (digit : UInt8) : UInt8 :=
  if digit < 10 then digit + 0x30 else digit + 0x57

/- `$'\x%02x'` -/
def controlText (ch : UInt8) : List UInt8 :=
  bytes "$\x27\\x" ++ [hexDigit (ch / 16), hexDigit (ch % 16)] ++
    bytes "\x27"

def escapeChar (op : EscapeOp) (ch : UInt8) : List UInt8 :=
  if needEscape ch op then
    if isControl ch then controlText ch else [BACKSLASH, ch]
  else [ch]

/- The loop of `escape`.  What has already been escaped is
kept. -/
def escapeRest (op : EscapeOp) : List UInt8 → List UInt8
  | [] => []
  | [ch] => escapeChar op ch
  | ch :: next :: rest =>
      if ch = BACKSLASH ∧ needEscape next op = true then
        BACKSLASH :: next :: escapeRest op rest
      else escapeChar op ch ++ escapeRest op (next :: rest)

/- What a command name does not begin with as it is. -/
def escapesFirst (ch : UInt8) : Bool :=
  (bytes "0123456789+-[]").contains ch

def escape (ref : List UInt8) (op : EscapeOp) : List UInt8 :=
  match op with
  | .NOP => ref
  | .COMMAND_NAME =>
      match ref with
      | [] => []
      | ch :: rest =>
          if escapesFirst ch then
            BACKSLASH :: ch :: escapeRest op rest
          else escapeRest op ref
  | _ => escapeRest op ref

----
-- What Is Escaped
----

/- A byte that is read back. -/
def survives (word : Word) (op : EscapeOp) (ch : UInt8) : Bool :=
  ch != BACKSLASH && !isControl ch &&
    (needEscape ch op || !word.stops.contains ch)

section Escaped

variable {word : Word}
variable {op : EscapeOp}

theorem needEscape_slash :
    needEscape BACKSLASH op = false := by
  cases op <;> decide

theorem not_isControl
    {ch : UInt8}
    (hControl : isControl ch = false) :
    ch ≠ 0 ∧ ch ≠ 0x0A ∧ ch ≠ 0x0D := by
  refine ⟨?_, ?_, ?_⟩ <;>
    · rintro rfl
      exact absurd hControl (by decide)

theorem survives_eq_true
    {ch : UInt8} :
    survives word op ch = true ↔
      ch ≠ BACKSLASH ∧ isControl ch = false ∧
        (needEscape ch op = true ∨
          word.stops.contains ch = false) := by
  unfold survives
  rw [Bool.and_eq_true, Bool.and_eq_true, bne_iff_ne,
    Bool.not_eq_true', Bool.or_eq_true, Bool.not_eq_true',
    and_assoc]

theorem escapeRest_cons
    {ch : UInt8}
    (hSlash : ch ≠ BACKSLASH)
    (rest : List UInt8) :
    escapeRest op (ch :: rest) =
      escapeChar op ch ++ escapeRest op rest := by
  cases rest with
  | nil => rw [escapeRest, escapeRest, List.append_nil]
  | cons next rest =>
      rw [escapeRest, if_neg fun hBoth => hSlash hBoth.1]

theorem escapeChar_quoted
    {ch : UInt8}
    (hNeed : needEscape ch op = true)
    (hControl : isControl ch = false) :
    escapeChar op ch = [BACKSLASH, ch] := by
  rw [escapeChar, if_pos hNeed, hControl]
  rfl

theorem escapeChar_plain
    {ch : UInt8}
    (hNeed : needEscape ch op = false) :
    escapeChar op ch = [ch] := by
  rw [escapeChar, hNeed]
  rfl

/- By induction on the name. -/
theorem escapeRest_survives
    {name : List UInt8}
    (hAll : name.all (survives word op) = true) :
    word.scan (escapeRest op name) = true ∧
      unquoted (escapeRest op name) = name := by
  induction name with
  | nil => exact ⟨rfl, rfl⟩
  | cons ch name ih =>
      rw [List.all_cons, Bool.and_eq_true] at hAll
      rcases hAll with ⟨hCh, hRest⟩
      rcases ih hRest with ⟨hScan, hRead⟩
      rcases survives_eq_true.1 hCh
        with ⟨hSlash, hControl, hOr⟩
      rcases not_isControl hControl
        with ⟨hNull, hNewline, hReturn⟩
      rw [escapeRest_cons hSlash]
      by_cases hNeed : needEscape ch op = true
      · rw [escapeChar_quoted hNeed hControl]
        change
          word.scan (BACKSLASH :: ch :: escapeRest op name) =
              true ∧
            unquoted (BACKSLASH :: ch :: escapeRest op name) =
              ch :: name
        rw [Word.scan_quoted hNull,
          unquoted_quoted hNewline hReturn, hRead]
        exact ⟨hScan, rfl⟩
      · have hStop := hOr.resolve_left hNeed
        rw [Bool.not_eq_true] at hNeed
        rw [escapeChar_plain hNeed]
        change
          word.scan (ch :: escapeRest op name) = true ∧
            unquoted (ch :: escapeRest op name) = ch :: name
        rw [Word.scan_plain hSlash, unquoted_plain hSlash, hStop,
          hRead]
        exact ⟨hScan, rfl⟩

theorem needEscape_isControl
    {ch : UInt8}
    (hControl : isControl ch = true) :
    needEscape ch op = true := by
  have hBraces :
      ((bytes "\x7b\x7d").all fun ch => !isControl ch) =
        true := by
    decide
  unfold needEscape
  split
  · rfl
  · split
    case isTrue hBrace =>
      have hOne :=
        List.all_eq_true.1 hBraces ch
          (List.contains_iff_mem.1 hBrace)
      rw [hControl] at hOne
      exact nomatch hOne
    case isFalse => exact hControl

theorem escapeRest_kept
    {next : UInt8}
    (hNeed : needEscape next op = true)
    (rest : List UInt8) :
    escapeRest op (BACKSLASH :: next :: rest) =
      BACKSLASH :: next :: escapeRest op rest := by
  rw [escapeRest, if_pos ⟨rfl, hNeed⟩]

theorem escapeRest_slash
    {next : UInt8}
    (hNeed : needEscape next op = false)
    (rest : List UInt8) :
    escapeRest op (BACKSLASH :: next :: rest) =
      BACKSLASH :: escapeRest op (next :: rest) := by
  have hNot :
      ¬(BACKSLASH = BACKSLASH ∧ needEscape next op = true) := by
    rw [hNeed]
    exact fun hBoth => nomatch hBoth.2
  rw [escapeRest, if_neg hNot,
    escapeChar_plain needEscape_slash]
  rfl

/- Not more is read than has been escaped. -/
def Shortens (word : Word) (op : EscapeOp) (name : List UInt8) :
    Prop :=
  word.scan (escapeRest op name) = true →
    (unquoted (escapeRest op name)).length ≤ name.length

/- Behind a backslash of the name, a byte is quoted that the
loop has not quoted. -/
theorem escapeRest_behind
    {next : UInt8}
    {more : List UInt8}
    (hNeed : needEscape next op = false)
    (hShorter :
      ∀ rest : List UInt8, rest.length ≤ more.length →
        Shortens word op rest)
    (hScan :
      word.scan (BACKSLASH :: escapeRest op (next :: more)) =
        true) :
    (unquoted
        (BACKSLASH :: escapeRest op (next :: more))).length ≤
      more.length + 1 := by
  by_cases hNext : next = BACKSLASH
  · subst hNext
    match more with
    | [] => exact unquoted_quoted_le BACKSLASH []
    | third :: last =>
        by_cases hThird : needEscape third op = true
        · rw [escapeRest_kept hThird] at hScan ⊢
          have hPlain : third ≠ BACKSLASH := by
            rintro rfl
            rw [needEscape_slash] at hThird
            exact nomatch hThird
          rcases Word.scan_slash hScan with ⟨_, _, hEq, _, hMore⟩
          obtain ⟨rfl, rfl⟩ := List.cons.inj hEq
          rw [Word.scan_plain hPlain, Bool.and_eq_true] at hMore
          have hLast := hShorter last (Nat.le_succ _) hMore.2
          have hOne :=
            unquoted_quoted_le BACKSLASH
              (third :: escapeRest op last)
          rw [unquoted_plain hPlain] at hOne
          simp only [List.length_cons] at hOne ⊢
          omega
        · rw [Bool.not_eq_true] at hThird
          rw [escapeRest_slash hThird] at hScan ⊢
          rcases Word.scan_slash hScan with ⟨_, _, hEq, _, hMore⟩
          obtain ⟨rfl, rfl⟩ := List.cons.inj hEq
          have hLast := hShorter _ (Nat.le_refl _) hMore
          have hOne :=
            unquoted_quoted_le BACKSLASH
              (escapeRest op (third :: last))
          omega
  · rw [escapeRest_cons hNext, escapeChar_plain hNeed] at hScan ⊢
    rcases Word.scan_slash hScan with ⟨_, _, hEq, _, hMore⟩
    obtain ⟨rfl, rfl⟩ := List.cons.inj hEq
    have hLast := hShorter _ (Nat.le_refl _) hMore
    have hOne := unquoted_quoted_le next (escapeRest op more)
    exact Nat.le_trans hOne (Nat.succ_le_succ hLast)

theorem escapeRest_slash_lt
    {rest : List UInt8}
    (hShorter :
      ∀ other : List UInt8, other.length ≤ rest.length →
        Shortens word op other)
    (hScan :
      word.scan (escapeRest op (BACKSLASH :: rest)) = true) :
    (unquoted (escapeRest op (BACKSLASH :: rest))).length <
      rest.length + 1 := by
  cases rest with
  | nil =>
      rcases Word.scan_slash hScan with ⟨_, _, hNil, _⟩
      exact nomatch hNil
  | cons next more =>
      have hMoreLe : more.length ≤ (next :: more).length :=
        Nat.le_succ _
      by_cases hNeed : needEscape next op = true
      · rw [escapeRest_kept hNeed] at hScan ⊢
        rcases Word.scan_slash hScan with ⟨_, _, hEq, _, hMore⟩
        obtain ⟨rfl, rfl⟩ := List.cons.inj hEq
        have hRest := hShorter more hMoreLe hMore
        have hOne := unquoted_quoted_le next (escapeRest op more)
        rw [List.length_cons]
        omega
      · rw [Bool.not_eq_true] at hNeed
        rw [escapeRest_slash hNeed] at hScan ⊢
        have hBehind :=
          escapeRest_behind hNeed
            (fun other hOther =>
              hShorter other (Nat.le_trans hOther hMoreLe))
            hScan
        exact Nat.lt_succ_of_le hBehind

/- A byte that is no backslash is read back, if it is read. -/
theorem escapeRest_plain
    {ch : UInt8}
    {rest : List UInt8}
    (hDollar : word.stops.contains DOLLAR = true)
    (hSlash : ch ≠ BACKSLASH)
    (hScan : word.scan (escapeRest op (ch :: rest)) = true) :
    survives word op ch = true ∧
      word.scan (escapeRest op rest) = true ∧
      unquoted (escapeRest op (ch :: rest)) =
        ch :: unquoted (escapeRest op rest) := by
  rw [escapeRest_cons hSlash] at hScan ⊢
  unfold survives
  by_cases hControl : isControl ch = true
  · have hDollarSlash : DOLLAR ≠ BACKSLASH := by decide
    rw [escapeChar, if_pos (needEscape_isControl hControl),
      if_pos hControl] at hScan
    change word.scan (DOLLAR :: _) = true at hScan
    rw [Word.scan_plain hDollarSlash, hDollar] at hScan
    exact nomatch hScan
  · rw [Bool.not_eq_true] at hControl
    rcases not_isControl hControl with ⟨_, hNewline, hReturn⟩
    rw [bne_iff_ne.2 hSlash, hControl]
    by_cases hNeed : needEscape ch op = true
    · rw [escapeChar_quoted hNeed hControl] at hScan ⊢
      rcases Word.scan_slash hScan with ⟨_, _, hEq, _, hMore⟩
      obtain ⟨rfl, rfl⟩ := List.cons.inj hEq
      rw [hNeed]
      exact ⟨rfl, hMore, unquoted_quoted hNewline hReturn _⟩
    · rw [Bool.not_eq_true] at hNeed
      rw [escapeChar_plain hNeed] at hScan ⊢
      change word.scan (ch :: escapeRest op rest) = true at hScan
      rw [Word.scan_plain hSlash, Bool.and_eq_true] at hScan
      rw [hScan.1, Bool.or_true]
      exact ⟨rfl, hScan.2, unquoted_plain hSlash _⟩

/- If one byte is not read back, less is read than has been
escaped. -/
theorem escapeRest_cases
    (hDollar : word.stops.contains DOLLAR = true)
    (name : List UInt8)
    (hScan : word.scan (escapeRest op name) = true) :
    name.all (survives word op) = true ∨
      (unquoted (escapeRest op name)).length < name.length := by
  induction hLength : name.length using Nat.strong_induction_on
    generalizing name with
  | _ length ih =>
      have hShorter :
          ∀ rest : List UInt8, rest.length < length →
            Shortens word op rest := by
        intro rest hRest hRead
        rcases ih _ hRest rest hRead rfl with hAll | hLess
        · have hSame := (escapeRest_survives hAll).2
          exact Nat.le_of_eq (congrArg List.length hSame)
        · exact Nat.le_of_lt hLess
      cases name with
      | nil => exact .inl rfl
      | cons ch rest =>
          subst hLength
          by_cases hSlash : ch = BACKSLASH
          · subst hSlash
            right
            apply escapeRest_slash_lt _ hScan
            intro other hOther
            exact hShorter other (Nat.lt_succ_of_le hOther)
          · rcases escapeRest_plain hDollar hSlash hScan
              with ⟨hCh, hRest, hRead⟩
            rw [hRead, List.all_cons, hCh, Bool.true_and]
            exact
              (ih _ (Nat.lt_succ_self _) rest hRest rfl).imp_right
                Nat.succ_lt_succ

/- All bytes are read back, or not all of them. -/
theorem escapeRest_iff
    (hDollar : word.stops.contains DOLLAR = true)
    {name : List UInt8} :
    word.scan (escapeRest op name) = true ∧
        unquoted (escapeRest op name) = name ↔
      name.all (survives word op) = true := by
  constructor
  · rintro ⟨hScan, hRead⟩
    rcases escapeRest_cases hDollar name hScan with hAll | hLess
    · exact hAll
    · rw [hRead] at hLess
      exact absurd hLess (Nat.lt_irrefl _)
  · exact escapeRest_survives

end Escaped

----
-- Reading Back
----

/- The bytes that end a word without being escaped are lost,
and no others. -/
theorem survives_iff
    {word : Word}
    {op : EscapeOp}
    {lost : List UInt8}
    {ch : UInt8}
    (hStops :
      (word.stops.all fun ch =>
        needEscape ch op || lost.contains ch) = true)
    (hLost :
      (lost.all fun ch =>
        word.stops.contains ch && !needEscape ch op) = true)
    (hSlash : lost.contains BACKSLASH = true) :
    survives word op ch = true ↔
      isControl ch = false ∧ ch ∉ lost := by
  rw [survives_eq_true]
  constructor
  · rintro ⟨_, hControl, hOr⟩
    refine ⟨hControl, fun hMem => ?_⟩
    have hOne := List.all_eq_true.1 hLost ch hMem
    rw [Bool.and_eq_true, Bool.not_eq_true'] at hOne
    rcases hOr with hNeed | hStop
    · exact nomatch hNeed.symm.trans hOne.2
    · exact nomatch hOne.1.symm.trans hStop
  · rintro ⟨hControl, hOut⟩
    refine ⟨?_, hControl, ?_⟩
    · rintro rfl
      exact hOut (List.contains_iff_mem.1 hSlash)
    · by_cases hStop : word.stops.contains ch = true
      · have hOne :=
          List.all_eq_true.1 hStops ch
            (List.contains_iff_mem.1 hStop)
        rw [Bool.or_eq_true, List.contains_iff_mem] at hOne
        exact .inl (hOne.resolve_right hOut)
      · exact .inr (Bool.eq_false_iff.2 hStop)

theorem keywords_checked :
    (keywords.all fun keyword =>
      unquoted keyword == keyword &&
        escape keyword .COMMAND_NAME == keyword) = true := by
  decide +kernel

/- A byte that is read back is not one of those that no
backslash quotes at the beginning. -/
theorem begins_quoted
    {word : Word}
    {ch : UInt8}
    (hControl : isControl ch = false)
    (rest : List UInt8) :
    word.begins (BACKSLASH :: ch :: rest) = true := by
  rcases not_isControl hControl with ⟨hNull, hNewline, hReturn⟩
  rw [Word.begins, if_pos rfl,
    show bytes "\r\n\x00" = [0x0D, 0x0A, 0] from rfl]
  simp [hNull, hNewline, hReturn]

theorem begins_plain_iff
    {word : Word}
    {ch : UInt8}
    {op : EscapeOp}
    (hSurvives : survives word op ch = true)
    (hNeed : needEscape ch op = false)
    (rest : List UInt8) :
    word.begins (escapeRest op (ch :: rest)) = true ↔
      word.starts.contains ch = false := by
  have hSlash := (survives_eq_true.1 hSurvives).1
  rw [escapeRest_cons hSlash, escapeChar_plain hNeed]
  change word.begins (ch :: escapeRest op rest) = true ↔ _
  rw [Word.begins_plain hSlash, Bool.not_eq_true']

theorem begins_need
    {word : Word}
    {ch : UInt8}
    {op : EscapeOp}
    (hSurvives : survives word op ch = true)
    (hNeed : needEscape ch op = true)
    (rest : List UInt8) :
    word.begins (escapeRest op (ch :: rest)) = true := by
  rcases survives_eq_true.1 hSurvives with ⟨hSlash, hControl, _⟩
  rw [escapeRest_cons hSlash, escapeChar_quoted hNeed hControl]
  exact begins_quoted hControl (escapeRest op rest)

section Command

variable {ch : UInt8}
variable {name : List UInt8}

theorem command_survives :
    survives commandWord .COMMAND_NAME ch = true ↔
      isControl ch = false ∧ ch ∉ bytes "\\=" :=
  survives_iff (by decide +kernel) (by decide) (by decide)

theorem command_escapesFirst
    (hFirst : escapesFirst ch = true) :
    survives commandWord .COMMAND_NAME ch = true ∧
      ch ≠ 0x21 := by
  have hAll :
      ((bytes "0123456789+-[]").all fun ch =>
        survives commandWord .COMMAND_NAME ch && ch != 0x21) =
        true := by
    decide
  have hOne :=
    List.all_eq_true.1 hAll ch (List.contains_iff_mem.1 hFirst)
  rw [Bool.and_eq_true, bne_iff_ne] at hOne
  exact hOne

/- What a word does not begin with, but for the mark of a
negation, is escaped. -/
theorem command_starts
    (hSurvives : survives commandWord .COMMAND_NAME ch = true)
    (hNeed : needEscape ch .COMMAND_NAME = false)
    (hFirst : escapesFirst ch = false) :
    commandWord.starts.contains ch = true ↔ ch = 0x21 := by
  have hAll :
      (commandWord.starts.all fun ch =>
        !survives commandWord .COMMAND_NAME ch ||
          needEscape ch .COMMAND_NAME || escapesFirst ch ||
          ch == 0x21) = true := by
    decide +kernel
  constructor
  · intro hStart
    have hOne :=
      List.all_eq_true.1 hAll ch (List.contains_iff_mem.1 hStart)
    rw [hSurvives, hNeed, hFirst] at hOne
    exact eq_of_beq hOne
  · rintro rfl
    decide

/- The first byte gets a backslash of its own, or is escaped as
the others are. -/
theorem escape_command_cases
    (ch : UInt8)
    (name : List UInt8) :
    escapesFirst ch = true ∧
        escape (ch :: name) .COMMAND_NAME =
          BACKSLASH :: ch :: escapeRest .COMMAND_NAME name ∨
      escapesFirst ch = false ∧
        escape (ch :: name) .COMMAND_NAME =
          escapeRest .COMMAND_NAME (ch :: name) := by
  cases hFirst : escapesFirst ch with
  | true =>
      left
      rw [escape, hFirst]
      exact ⟨rfl, rfl⟩
  | false =>
      right
      rw [escape, hFirst]
      exact ⟨rfl, rfl⟩

theorem command_read_iff :
    commandWord.scan (escape name .COMMAND_NAME) = true ∧
        unquoted (escape name .COMMAND_NAME) = name ↔
      name.all (survives commandWord .COMMAND_NAME) = true := by
  have hDollar : commandWord.stops.contains DOLLAR = true := by
    decide
  cases name with
  | nil => exact ⟨fun _ => rfl, fun _ => ⟨rfl, rfl⟩⟩
  | cons ch name =>
      rcases escape_command_cases ch name
        with ⟨hFirst, hEscape⟩ | ⟨_, hEscape⟩
      · have hCh := (command_escapesFirst hFirst).1
        rcases not_isControl (command_survives.1 hCh).1
          with ⟨hNull, hNewline, hReturn⟩
        rw [hEscape, Word.scan_quoted hNull,
          unquoted_quoted hNewline hReturn, List.all_cons, hCh,
          Bool.true_and, ← escapeRest_iff hDollar]
        refine and_congr_right fun _ => ?_
        exact ⟨fun hEq => (List.cons.inj hEq).2, congrArg _⟩
      · rw [hEscape]
        exact escapeRest_iff hDollar

theorem command_begins_iff
    (hAll :
      name.all (survives commandWord .COMMAND_NAME) = true)
    (hName : name ≠ []) :
    commandWord.begins (escape name .COMMAND_NAME) = true ↔
      name.head? ≠ some 0x21 := by
  cases name with
  | nil => exact absurd rfl hName
  | cons ch name =>
      rw [List.all_cons, Bool.and_eq_true] at hAll
      rw [List.head?_cons, ne_eq, Option.some.injEq]
      rcases escape_command_cases ch name
        with ⟨hFirst, hEscape⟩ | ⟨hFirst, hEscape⟩
      · rcases command_escapesFirst hFirst with ⟨hCh, hMark⟩
        rw [hEscape]
        exact
          iff_of_true
            (begins_quoted (command_survives.1 hCh).1 _) hMark
      · rw [hEscape]
        by_cases hNeed : needEscape ch .COMMAND_NAME = true
        · have hMark : ch ≠ 0x21 := by
            rintro rfl
            exact absurd hNeed (by decide)
          exact iff_of_true (begins_need hAll.1 hNeed name) hMark
        · rw [Bool.not_eq_true] at hNeed
          have hStart := command_starts hAll.1 hNeed hFirst
          rw [begins_plain_iff hAll.1 hNeed name, ← hStart,
            Bool.not_eq_true]

theorem command_keyword_iff
    (hRead : unquoted (escape name .COMMAND_NAME) = name) :
    escape name .COMMAND_NAME ∈ keywords ↔ name ∈ keywords := by
  have hChecked :
      ∀ keyword ∈ keywords,
        unquoted keyword = keyword ∧
          escape keyword .COMMAND_NAME = keyword := by
    intro keyword hMem
    simpa using List.all_eq_true.1 keywords_checked keyword hMem
  constructor
  · intro hMem
    rw [(hChecked _ hMem).1] at hRead
    rw [← hRead]
    exact hMem
  · intro hMem
    rw [(hChecked _ hMem).2]
    exact hMem

end Command

/-
  A command name that is completed is read back as one command,
  unless a byte of it cannot be quoted, it begins with the mark
  of a negation, or it is a keyword.
-/
theorem escape_command_iff
    {lexer : Lexer}
    {name rest : List UInt8}
    {sep : UInt8}
    (hCond : lexer.curMode.cond = .STMT)
    (hComplete : lexer.complete = false)
    (hInput :
      lexer.buf.drop lexer.cursor =
        escape name .COMMAND_NAME ++ sep :: rest)
    (hSep : wordEnds.contains sep = true)
    (hName : name ≠ []) :
    (∃ ret,
        lexer.nextToken = some ret ∧
          ret.kind = .COMMAND ∧
          ret.token =
            ⟨lexer.cursor, (escape name .COMMAND_NAME).length⟩ ∧
          toCmdArg ret.lexer ret.token = name) ↔
      (∀ ch ∈ name, isControl ch = false ∧ ch ∉ bytes "\\=") ∧
        name.head? ≠ some 0x21 ∧ name ∉ keywords := by
  have hBefore :
      commandPlace.Before lexer (escape name .COMMAND_NAME) rest
        sep :=
    ⟨hCond, hComplete, hInput, hSep⟩
  have hAll :
      name.all (survives commandWord .COMMAND_NAME) = true ↔
        ∀ ch ∈ name, isControl ch = false ∧ ch ∉ bytes "\\=" := by
    rw [List.all_eq_true]
    exact
      forall_congr' fun ch => imp_congr_right fun _ =>
        command_survives
  refine (read_back_iff hBefore).trans ?_
  rw [← hAll, ← command_read_iff]
  constructor
  · rintro ⟨⟨hBegins, hScan, hKeyword⟩, hRead⟩
    have hSurvives := command_read_iff.1 ⟨hScan, hRead⟩
    refine ⟨⟨hScan, hRead⟩, ?_, ?_⟩
    · exact (command_begins_iff hSurvives hName).1 hBegins
    · exact fun hMem =>
        hKeyword ((command_keyword_iff hRead).2 hMem)
  · rintro ⟨⟨hScan, hRead⟩, hMark, hKeyword⟩
    have hSurvives := command_read_iff.1 ⟨hScan, hRead⟩
    refine ⟨⟨?_, hScan, ?_⟩, hRead⟩
    · exact (command_begins_iff hSurvives hName).2 hMark
    · exact fun hMem =>
        hKeyword ((command_keyword_iff hRead).1 hMem)

theorem escape_command_iff_blank :
    ∃ ret,
      (Lexer.new (bytes "\\1\\ a;") 0).nextToken = some ret ∧
        ret.kind = .COMMAND ∧
        ret.token = ⟨0, 5⟩ ∧
        toCmdArg ret.lexer ret.token = bytes "1 a" :=
  (@escape_command_iff (Lexer.new (bytes "\\1\\ a;") 0)
    (bytes "1 a") [0x0A, 0] 0x3B rfl rfl (by decide) (by decide)
    (by decide)).2
    ⟨by decide +kernel, by decide, by decide⟩

section Argument

variable {ch : UInt8}
variable {name : List UInt8}

theorem argument_survives :
    survives argumentWord .COMMAND_ARG ch = true ↔
      isControl ch = false ∧ ch ∉ bytes "\\:?*" :=
  survives_iff (by decide +kernel) (by decide) (by decide)

/- What a part does not begin with is escaped. -/
theorem argument_starts
    (hSurvives : survives argumentWord .COMMAND_ARG ch = true)
    (hNeed : needEscape ch .COMMAND_ARG = false) :
    argumentWord.starts.contains ch = false := by
  have hAll :
      (argumentWord.starts.all fun ch =>
        !survives argumentWord .COMMAND_ARG ch ||
          needEscape ch .COMMAND_ARG) = true := by
    decide +kernel
  apply Bool.eq_false_iff.2
  intro hStart
  have hOne :=
    List.all_eq_true.1 hAll ch (List.contains_iff_mem.1 hStart)
  rw [hSurvives, hNeed] at hOne
  exact nomatch hOne

theorem argument_begins
    (hAll :
      name.all (survives argumentWord .COMMAND_ARG) = true)
    (hName : name ≠ []) :
    argumentWord.begins (escapeRest .COMMAND_ARG name) =
      true := by
  cases name with
  | nil => exact absurd rfl hName
  | cons ch name =>
      rw [List.all_cons, Bool.and_eq_true] at hAll
      by_cases hNeed : needEscape ch .COMMAND_ARG = true
      · exact begins_need hAll.1 hNeed name
      · rw [Bool.not_eq_true] at hNeed
        have hStart := argument_starts hAll.1 hNeed
        exact (begins_plain_iff hAll.1 hNeed name).2 hStart

end Argument

/-
  An argument that is completed is read back as one part of a
  command, unless a byte of it cannot be quoted, or is that of
  a glob or of a list of paths, which no backslash quotes.
-/
theorem escape_argument_iff
    {lexer : Lexer}
    {name rest : List UInt8}
    {sep : UInt8}
    (hCond : lexer.curMode.cond = .CMD)
    (hComplete : lexer.complete = false)
    (hInput :
      lexer.buf.drop lexer.cursor =
        escape name .COMMAND_ARG ++ sep :: rest)
    (hSep : wordEnds.contains sep = true)
    (hName : name ≠ []) :
    (∃ ret,
        lexer.nextToken = some ret ∧
          ret.kind = .CMD_ARG_PART ∧
          ret.token =
            ⟨lexer.cursor, (escape name .COMMAND_ARG).length⟩ ∧
          toCmdArg ret.lexer ret.token = name) ↔
      ∀ ch ∈ name,
        isControl ch = false ∧ ch ∉ bytes "\\:?*" := by
  have hDollar : argumentWord.stops.contains DOLLAR = true := by
    decide
  have hBefore :
      argumentPlace.Before lexer (escapeRest .COMMAND_ARG name)
        rest sep :=
    ⟨hCond, hComplete, hInput, hSep⟩
  have hAll :
      name.all (survives argumentWord .COMMAND_ARG) = true ↔
        ∀ ch ∈ name,
          isControl ch = false ∧ ch ∉ bytes "\\:?*" := by
    rw [List.all_eq_true]
    exact
      forall_congr' fun ch => imp_congr_right fun _ =>
        argument_survives
  refine (read_back_iff hBefore).trans ?_
  rw [← hAll, ← escapeRest_iff hDollar]
  constructor
  · rintro ⟨⟨_, hScan, _⟩, hRead⟩
    exact ⟨hScan, hRead⟩
  · rintro ⟨hScan, hRead⟩
    have hSurvives := (escapeRest_iff hDollar).1 ⟨hScan, hRead⟩
    refine ⟨⟨?_, hScan, ?_⟩, hRead⟩
    · exact argument_begins hSurvives hName
    · exact List.not_mem_nil

theorem escape_argument_iff_blank :
    ∃ ret,
      ({ Lexer.new (bytes "a\\ \\$;") 0 with
            curMode := ⟨.CMD, false⟩ } : Lexer).nextToken =
          some ret ∧
        ret.kind = .CMD_ARG_PART ∧
        ret.token = ⟨0, 5⟩ ∧
        toCmdArg ret.lexer ret.token = bytes "a $" :=
  (@escape_argument_iff
    { Lexer.new (bytes "a\\ \\$;") 0 with
      curMode := ⟨.CMD, false⟩ }
    (bytes "a $") [0x0A, 0] 0x3B rfl rfl (by decide) (by decide)
    (by decide)).2
    (by decide +kernel)

end Complete

end Ydsh
