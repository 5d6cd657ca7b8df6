import Ydsh.Lexer.EscapeSeq
import Ydsh.Misc.Unicode

/-
  The value of an escaped string literal `$'...'`.

  The escape `\UFFFFFFFF` is told apart from a failure by
  nothing but the cursor, which is past it: the loop takes the
  bytes after it for the ones it stands at.

  Main declarations:
    * `escapedSingleToString`
    * `denoted`
    * `Denotes`
    * `escapedSingle_iff`
-/

----
-- The Loop
----

namespace Ydsh

namespace EscapeSeq

open Json (ascii BACKSLASH)

open Library

abbrev QUOTE : UInt8 := 0x27

/- Nothing for what is no code point. -/
def codePointToUtf8 (code : Int) : List UInt8 :=
  if code < 0 then [] else Json.codePointToUtf8 code.toNat

inductive Outcome where
  | done (out : List UInt8)
  | failed
  -- a byte outside of the token is read
  | outside
deriving DecidableEq

/- The loop stops or goes on with the rest of the range. -/
inductive Next where
  | stop (outcome : Outcome)
  | more (range out : List UInt8)

/- The bytes at the cursor after -1 was returned. -/
def noEscape (out : List UInt8) : List UInt8 → Next
  | [] => .stop .outside
  | [ch] => .more [] (out ++ [ch])
  | ch :: next :: rest =>
      if next = QUOTE then
        .more rest (out ++ [QUOTE])
      else if next ∈ HEX_MARKS then
        .stop .failed
      else
        .more (next :: rest) (out ++ [ch])

def step (out : List UInt8) : List UInt8 → Next
  | [] => .stop (.done out)
  | ch :: rest =>
      if ch = BACKSLASH then
        let found := parseEscapeSeq false (ch :: rest)
        if found.1 = -1 then
          noEscape out found.2
        else if codePointToUtf8 found.1 = [] then
          .stop .failed
        else
          .more found.2 (out ++ codePointToUtf8 found.1)
      else
        .more rest (out ++ [ch])

theorem resultOf_length
    (needOctalPrefix : Bool)
    (range : List UInt8) :
    (parseEscapeSeq needOctalPrefix range).2.length ≤
        range.length ∧
      ((parseEscapeSeq needOctalPrefix range).1 ≠ -1 →
        (parseEscapeSeq needOctalPrefix range).2.length <
          range.length) := by
  rw [parseEscapeSeq_eq]
  cases hFound : escapeAt needOctalPrefix range with
  | none => exact ⟨Nat.le_refl _, fun hNe => absurd rfl hNe⟩
  | some found =>
      have hLength := escapeAt_length hFound
      exact ⟨Nat.le_of_lt hLength, fun _ => hLength⟩

theorem noEscape_length
    {out moved range out' : List UInt8}
    (hMore : noEscape out moved = .more range out') :
    range.length < moved.length := by
  unfold noEscape at hMore
  split at hMore
  · cases hMore
  · cases hMore
    exact Nat.zero_lt_succ _
  · split_ifs at hMore
    · cases hMore
      exact Nat.lt_succ_of_lt (Nat.lt_succ_self _)
    · cases hMore
      exact Nat.lt_succ_self _

theorem step_length
    {out range range' out' : List UInt8}
    (hMore : step out range = .more range' out') :
    range'.length < range.length := by
  unfold step at hMore
  split at hMore
  · cases hMore
  · rename_i ch rest
    have hLength :=
      resultOf_length false (ch :: rest)
    dsimp only at hMore
    split_ifs at hMore with hSlash hCode hEmpty
    · exact
        Nat.lt_of_lt_of_le (noEscape_length hMore) hLength.1
    · cases hMore
      exact hLength.2 hCode
    · cases hMore
      exact Nat.lt_succ_self _

def escapedLoop (out range : List UInt8) : Outcome :=
  match _hNext : step out range with
  | .stop outcome => outcome
  | .more range' out' => escapedLoop out' range'
termination_by range.length
decreasing_by exact step_length _hNext

/- The token less its prefix `$'` and its suffix `'`. -/
def escapedSingleToString (token : List UInt8) : Outcome :=
  escapedLoop [] (token.drop 2).dropLast

----
-- The Value of a Literal
----

inductive Piece where
  | escape (code : Nat)
  -- a quote after a backslash
  | quote
  -- `\x`, `\u` or `\U` without a digit
  | ill
  | byte (ch : UInt8)
deriving DecidableEq

/- The piece that a body starts with, and the bytes after it. -/
def firstPiece
    (ch : UInt8)
    (rest : List UInt8) : Piece × List UInt8 :=
  match escapeAt false (ch :: rest) with
  | some found => (.escape found.1, found.2)
  | none =>
      if ch = BACKSLASH ∧ [QUOTE].isPrefixOf rest then
        (.quote, rest.tail)
      else if ch = BACKSLASH ∧
          HEX_MARKS.any (fun mark => [mark].isPrefixOf rest) then
        (.ill, rest)
      else
        (.byte ch, rest)

theorem firstPiece_length
    (ch : UInt8)
    (rest : List UInt8) :
    (firstPiece ch rest).2.length < (ch :: rest).length := by
  unfold firstPiece
  split
  · rename_i found hFound
    exact escapeAt_length hFound
  · split_ifs
    · rw [List.length_tail]
      exact Nat.lt_succ_of_le (Nat.sub_le _ _)
    · exact Nat.lt_succ_self _
    · exact Nat.lt_succ_self _

def pieces : List UInt8 → List Piece
  | [] => []
  | ch :: rest =>
      (firstPiece ch rest).1 :: pieces (firstPiece ch rest).2
termination_by body => body.length
decreasing_by exact firstPiece_length ch rest

def Piece.isFine : Piece → Bool
  | .escape code => code ≤ 0x10FFFF
  | .ill => false
  | _ => true

def Piece.bytes : Piece → List UInt8
  | .escape code => Utf8.encode code
  | .quote => [QUOTE]
  | .ill => []
  | .byte ch => [ch]

/- No value if an escape is ill or out of range. -/
def denoted (body : List UInt8) : Option (List UInt8) :=
  if (pieces body).all Piece.isFine then
    some ((pieces body).flatMap Piece.bytes)
  else
    none

def literal (body : List UInt8) : List UInt8 :=
  [0x24, QUOTE] ++ body ++ [QUOTE]

/- The function does with a literal what it should. -/
def Denotes (body : List UInt8) : Prop :=
  escapedSingleToString (literal body) =
    (denoted body).elim .failed .done

----
-- Single Steps
----

/- The escape whose code is the failure value. -/
abbrev OVERFLOW : Piece :=
  .escape 0xFFFFFFFF

theorem codePointToUtf8_eq
    {code : Nat}
    (hCode : code ≤ 0x10FFFF) :
    codePointToUtf8 (toInt code) = Utf8.encode code := by
  rw [toInt_of_lt (Nat.lt_of_le_of_lt hCode (by decide)),
    ← Unicode.utf8_eq hCode]
  unfold codePointToUtf8
  rw [if_neg (Int.not_lt.mpr (Int.natCast_nonneg _)),
    Int.toNat_natCast]

theorem codePointToUtf8_of_large
    {code : Nat}
    (hCode : code < UINT_RANGE)
    (hLarge : 0x10FFFF < code) :
    codePointToUtf8 (toInt code) = [] := by
  by_cases hLt : code < 0x80000000
  · rw [toInt_of_lt hLt]
    unfold codePointToUtf8 Json.codePointToUtf8
    rw [if_neg (Int.not_lt.mpr (Int.natCast_nonneg _)),
      Int.toNat_natCast, if_neg (by omega), if_neg (by omega),
      if_neg (by omega), if_neg (by omega)]
  · exact if_pos (toInt_neg hCode hLt)

theorem firstPiece_of_escape
    {ch : UInt8}
    {rest : List UInt8}
    {found : Nat × List UInt8}
    (hFound : escapeAt false (ch :: rest) = some found) :
    firstPiece ch rest = (.escape found.1, found.2) := by
  unfold firstPiece
  rw [hFound]

theorem escapeAt_slash
    {needOctalPrefix : Bool}
    {ch : UInt8}
    {rest : List UInt8}
    {found : Nat × List UInt8}
    (hFound :
      escapeAt needOctalPrefix (ch :: rest) = some found) :
    ch = BACKSLASH := by
  by_contra hNe
  cases rest with
  | nil => cases hFound
  | cons next rest =>
      rw [escapeAt, if_pos hNe] at hFound
      cases hFound

theorem step_of_escape
    (out : List UInt8)
    {ch : UInt8}
    {rest : List UInt8}
    {found : Nat × List UInt8}
    (hFound : escapeAt false (ch :: rest) = some found) :
    step out (ch :: rest) =
      if found.1 = 0xFFFFFFFF then
        noEscape out found.2
      else if found.1 ≤ 0x10FFFF then
        .more found.2 (out ++ Utf8.encode found.1)
      else
        .stop .failed := by
  have hLt := escapeAt_lt hFound
  rw [step, if_pos (escapeAt_slash hFound), parseEscapeSeq_eq,
    hFound]
  show
    (if toInt found.1 = -1 then noEscape out found.2
      else if codePointToUtf8 (toInt found.1) = [] then
        .stop .failed
      else
        .more found.2 (out ++ codePointToUtf8 (toInt found.1))) =
      _
  simp only [toInt_eq_neg_one_iff hLt]
  by_cases hOver : found.1 = 0xFFFFFFFF
  · rw [if_pos hOver, if_pos hOver]
  · rw [if_neg hOver, if_neg hOver]
    by_cases hCode : found.1 ≤ 0x10FFFF
    · rw [codePointToUtf8_eq hCode,
        if_neg (Utf8.encode_ne_nil _), if_pos hCode]
    · rw [codePointToUtf8_of_large hLt (Nat.lt_of_not_le hCode),
        if_pos rfl, if_neg hCode]

theorem firstPiece_of_none
    {next : UInt8}
    {rest : List UInt8}
    (hNone :
      escapeAt false (BACKSLASH :: next :: rest) = none) :
    firstPiece BACKSLASH (next :: rest) =
      if next = QUOTE then
        (.quote, rest)
      else if next ∈ HEX_MARKS then
        (.ill, next :: rest)
      else
        (.byte BACKSLASH, next :: rest) := by
  have hPrefix (mark : UInt8) :
      [mark].isPrefixOf (next :: rest) = (mark == next) := by
    rw [List.isPrefixOf_cons_cons, List.isPrefixOf_nil_left,
      Bool.and_true]
  unfold firstPiece
  rw [hNone]
  simp only [hPrefix, true_and, beq_iff_eq, List.any_eq_true,
    exists_eq_right, List.tail_cons]
  by_cases hQuote : next = QUOTE
  · rw [if_pos hQuote.symm, if_pos hQuote]
  · have hSwap : ¬QUOTE = next :=
      fun hEq => hQuote (Eq.symm hEq)
    rw [if_neg hSwap, if_neg hQuote]

/- A backslash of no escape. -/
theorem step_of_none
    (out : List UInt8)
    {rest : List UInt8}
    (hNone : escapeAt false (BACKSLASH :: rest) = none) :
    step out (BACKSLASH :: rest) =
      noEscape out (BACKSLASH :: rest) := by
  rw [step, if_pos rfl, parseEscapeSeq_eq, hNone]
  rfl

/- What one round makes of the next piece. -/
theorem step_piece
    (out : List UInt8)
    (ch : UInt8)
    (rest : List UInt8) :
    step out (ch :: rest) =
      if (firstPiece ch rest).1 = OVERFLOW then
        noEscape out (firstPiece ch rest).2
      else if (firstPiece ch rest).1.isFine then
        .more (firstPiece ch rest).2
          (out ++ (firstPiece ch rest).1.bytes)
      else
        .stop .failed := by
  cases hFound : escapeAt false (ch :: rest) with
  | some found =>
      rw [step_of_escape out hFound, firstPiece_of_escape hFound]
      simp only [OVERFLOW, Piece.escape.injEq, Piece.isFine,
        decide_eq_true_eq, Piece.bytes]
  | none =>
      by_cases hSlash : ch = BACKSLASH
      · rw [hSlash] at hFound ⊢
        rw [step_of_none out hFound]
        cases rest with
        | nil => rfl
        | cons next rest =>
            rw [firstPiece_of_none hFound, noEscape]
            by_cases hQuote : next = QUOTE
            · simp only [if_pos hQuote]
              rfl
            · simp only [if_neg hQuote]
              by_cases hMark : next ∈ HEX_MARKS
              · simp only [if_pos hMark]
                rfl
              · simp only [if_neg hMark]
                rfl
      · have hByte : firstPiece ch rest = (.byte ch, rest) := by
          unfold firstPiece
          rw [hFound]
          simp only [hSlash, false_and, if_false]
        rw [hByte, step, if_neg hSlash]
        rfl

theorem escapedLoop_of_stop
    {out range : List UInt8}
    {outcome : Outcome}
    (hStop : step out range = .stop outcome) :
    escapedLoop out range = outcome := by
  rw [escapedLoop.eq_def]
  split
  · rename_i other hOther
    rw [hStop] at hOther
    cases hOther
    rfl
  · rename_i range' out' hMore
    rw [hStop] at hMore
    cases hMore

theorem escapedLoop_of_more
    {out range out' range' : List UInt8}
    (hMore : step out range = .more range' out') :
    escapedLoop out range = escapedLoop out' range' := by
  rw [escapedLoop.eq_def]
  split
  · rename_i other hOther
    rw [hMore] at hOther
    cases hOther
  · rename_i range'' out'' hOther
    rw [hMore] at hOther
    cases hOther
    rfl

----
-- Whole Bodies
----

/-
  The loop comes to an escape without digits or out of range.
  After an overflow it stands one byte off, and asks of the byte
  after the next whether it marks an escape.
-/
inductive Stops : List UInt8 → Prop where
  | ill
      (ch : UInt8)
      (rest : List UInt8)
      (hPiece : (firstPiece ch rest).1 ≠ OVERFLOW)
      (hIll : (firstPiece ch rest).1.isFine = false) :
      Stops (ch :: rest)
  | fine
      (ch : UInt8)
      (rest : List UInt8)
      (hFine : (firstPiece ch rest).1.isFine = true)
      (hRest : Stops (firstPiece ch rest).2) :
      Stops (ch :: rest)
  | mark
      (ch first next : UInt8)
      (rest more : List UInt8)
      (hPiece :
        firstPiece ch rest = (OVERFLOW, first :: next :: more))
      (hMark : next ∈ HEX_MARKS) :
      Stops (ch :: rest)
  | quote
      (ch first : UInt8)
      (rest more : List UInt8)
      (hPiece :
        firstPiece ch rest = (OVERFLOW, first :: QUOTE :: more))
      (hMore : Stops more) :
      Stops (ch :: rest)
  | byte
      (ch first next : UInt8)
      (rest more : List UInt8)
      (hPiece :
        firstPiece ch rest = (OVERFLOW, first :: next :: more))
      (hQuote : next ≠ QUOTE)
      (hMore : Stops (next :: more)) :
      Stops (ch :: rest)

/- An overflow that no ill escape comes before. -/
def Overflows (body : List UInt8) : Prop :=
  ∃ before after,
    pieces body = before ++ OVERFLOW :: after ∧
      before.all Piece.isFine = true

theorem pieces_cons
    (ch : UInt8)
    (rest : List UInt8) :
    pieces (ch :: rest) =
      (firstPiece ch rest).1 :: pieces (firstPiece ch rest).2 := by
  rw [pieces]

theorem overflows_cons
    (ch : UInt8)
    (rest : List UInt8) :
    Overflows (ch :: rest) ↔
      (firstPiece ch rest).1 = OVERFLOW ∨
        (firstPiece ch rest).1.isFine = true ∧
          Overflows (firstPiece ch rest).2 := by
  unfold Overflows
  rw [pieces_cons]
  constructor
  · rintro ⟨before, after, hPieces, hFine⟩
    cases before with
    | nil => exact .inl (List.cons.inj hPieces).1
    | cons piece before =>
        rcases List.cons.inj hPieces with ⟨hFirst, hRest⟩
        rw [List.all_cons, Bool.and_eq_true, ← hFirst] at hFine
        exact .inr ⟨hFine.1, before, after, hRest, hFine.2⟩
  · rintro (hOver | ⟨hFine, before, after, hPieces, hAll⟩)
    · exact ⟨[], _, by rw [hOver]; rfl, rfl⟩
    · refine
        ⟨(firstPiece ch rest).1 :: before, after, ?_, ?_⟩
      · rw [hPieces]
        rfl
      · rw [List.all_cons, hFine, hAll]
        rfl

theorem denoted_nil : denoted [] = some [] := by
  unfold denoted
  rw [pieces]
  rfl

theorem denoted_cons
    (ch : UInt8)
    (rest : List UInt8) :
    denoted (ch :: rest) =
      if (firstPiece ch rest).1.isFine then
        (denoted (firstPiece ch rest).2).map
          (fun out => (firstPiece ch rest).1.bytes ++ out)
      else
        none := by
  unfold denoted
  rw [pieces_cons, List.all_cons, List.flatMap_cons]
  by_cases hFine : (firstPiece ch rest).1.isFine = true
  · rw [hFine, Bool.true_and, if_pos rfl]
    split_ifs
    · rfl
    · rfl
  · rw [Bool.not_eq_true] at hFine
    rw [hFine]
    rfl

theorem isFine_overflow : OVERFLOW.isFine = false :=
  rfl

theorem denoted_of_overflows
    {body : List UInt8}
    (hOver : Overflows body) :
    denoted body = none := by
  rcases hOver with ⟨before, after, hPieces, -⟩
  unfold denoted
  rw [hPieces, List.all_append, List.all_cons,
    isFine_overflow, Bool.false_and, Bool.and_false]
  rfl

/- Without an overflow the loop keeps to the pieces. -/
theorem escapedLoop_of_not_overflows
    {body : List UInt8}
    (hOver : ¬Overflows body)
    (out : List UInt8) :
    escapedLoop out body =
      (denoted body).elim .failed
        (fun value => .done (out ++ value)) := by
  induction body using pieces.induct generalizing out with
  | case1 =>
      rw [escapedLoop_of_stop rfl, denoted_nil]
      show Outcome.done out = Outcome.done (out ++ [])
      rw [List.append_nil]
  | case2 ch rest ih =>
      have hStep := step_piece out ch rest
      rw [overflows_cons, not_or] at hOver
      rw [if_neg hOver.1] at hStep
      rw [denoted_cons]
      by_cases hFine : (firstPiece ch rest).1.isFine = true
      · rw [if_pos hFine] at hStep ⊢
        have hRest : ¬Overflows (firstPiece ch rest).2 :=
          fun hRest => hOver.2 ⟨hFine, hRest⟩
        rw [escapedLoop_of_more hStep, ih hRest]
        cases denoted (firstPiece ch rest).2 with
        | none => rfl
        | some value =>
            show
              Outcome.done (_ ++ value) =
                Outcome.done (out ++ (_ ++ value))
            rw [List.append_assoc]
      · rw [if_neg hFine] at hStep ⊢
        rw [escapedLoop_of_stop hStep]
        rfl

/- The loop fails exactly if it comes to an ill escape. -/
theorem failed_of_stops
    {body : List UInt8}
    (hStops : Stops body)
    (out : List UInt8) :
    escapedLoop out body = .failed := by
  induction hStops generalizing out with
  | ill ch rest hPiece hIll =>
      apply escapedLoop_of_stop
      rw [step_piece, if_neg hPiece, hIll]
      rfl
  | fine ch rest hFine hRest ih =>
      have hPiece : (firstPiece ch rest).1 ≠ OVERFLOW := by
        intro hOver
        rw [hOver] at hFine
        cases hFine
      have hStep := step_piece out ch rest
      rw [if_neg hPiece, if_pos hFine] at hStep
      rw [escapedLoop_of_more hStep]
      exact ih _
  | mark ch first next rest more hPiece hMark =>
      have hNe : next ≠ QUOTE := by
        intro hEq
        rw [hEq] at hMark
        exact absurd hMark (by decide)
      apply escapedLoop_of_stop
      rw [step_piece, hPiece, if_pos rfl, noEscape, if_neg hNe,
        if_pos hMark]
  | quote ch first rest more hPiece hMore ih =>
      have hStep := step_piece out ch rest
      rw [hPiece, if_pos rfl, noEscape, if_pos rfl] at hStep
      rw [escapedLoop_of_more hStep]
      exact ih _
  | byte ch first next rest more hPiece hQuote hMore ih =>
      have hStep := step_piece out ch rest
      rw [hPiece, if_pos rfl, noEscape, if_neg hQuote] at hStep
      by_cases hMark : next ∈ HEX_MARKS
      · rw [if_pos hMark] at hStep
        exact escapedLoop_of_stop hStep
      · rw [if_neg hMark] at hStep
        rw [escapedLoop_of_more hStep]
        exact ih _

theorem stops_of_overflow
    {out rest : List UInt8}
    {ch : UInt8}
    (hStep :
      step out (ch :: rest) =
        noEscape out (firstPiece ch rest).2)
    (hFailed : escapedLoop out (ch :: rest) = .failed)
    (hPiece : (firstPiece ch rest).1 = OVERFLOW)
    (hMore :
      ∀ more out',
        more.length < (firstPiece ch rest).2.length →
          escapedLoop out' more = .failed → Stops more) :
    Stops (ch :: rest) := by
  rcases hFirst : firstPiece ch rest with ⟨piece, moved⟩
  rw [hFirst] at hStep hPiece hMore
  dsimp only at hStep hPiece hMore
  rw [hPiece] at hFirst
  rcases moved with _ | ⟨first, _ | ⟨next, more⟩⟩
  · rw [escapedLoop_of_stop hStep] at hFailed
    cases hFailed
  · rw [escapedLoop_of_more hStep,
      escapedLoop_of_stop rfl] at hFailed
    cases hFailed
  · rw [noEscape] at hStep
    by_cases hQuote : next = QUOTE
    · rw [if_pos hQuote] at hStep
      rw [escapedLoop_of_more hStep] at hFailed
      rw [hQuote] at hFirst
      apply Stops.quote ch first rest more hFirst
      apply hMore more _ _ hFailed
      exact Nat.lt_succ_of_lt (Nat.lt_succ_self _)
    · rw [if_neg hQuote] at hStep
      by_cases hMark : next ∈ HEX_MARKS
      · exact .mark ch first next rest more hFirst hMark
      · rw [if_neg hMark] at hStep
        rw [escapedLoop_of_more hStep] at hFailed
        apply Stops.byte ch first next rest more hFirst hQuote
        apply hMore (next :: more) _ _ hFailed
        exact Nat.lt_succ_self _

theorem stops_of_failed
    {out body : List UInt8}
    (hFailed : escapedLoop out body = .failed) :
    Stops body := by
  induction hSize : body.length using Nat.strong_induction_on
    generalizing out body with
  | _ size ih =>
      cases body with
      | nil =>
          rw [escapedLoop_of_stop rfl] at hFailed
          cases hFailed
      | cons ch rest =>
          have hLength := firstPiece_length ch rest
          have hStep := step_piece out ch rest
          by_cases hPiece : (firstPiece ch rest).1 = OVERFLOW
          · rw [if_pos hPiece] at hStep
            exact
              stops_of_overflow hStep hFailed hPiece
                (fun more out' hMore hLoop =>
                  ih more.length (by omega) hLoop rfl)
          · rw [if_neg hPiece] at hStep
            by_cases hFine :
                (firstPiece ch rest).1.isFine = true
            · rw [if_pos hFine] at hStep
              rw [escapedLoop_of_more hStep] at hFailed
              exact
                .fine ch rest hFine
                  (ih _ (by omega) hFailed rfl)
            · rw [Bool.not_eq_true] at hFine
              exact .ill ch rest hPiece hFine

theorem escapedSingleToString_literal (body : List UInt8) :
    escapedSingleToString (literal body) =
      escapedLoop [] body := by
  have hTrimmed :
      ((literal body).drop 2).dropLast = body :=
    List.dropLast_concat
  unfold escapedSingleToString
  rw [hTrimmed]

theorem denotes_iff (body : List UInt8) :
    Denotes body ↔ (Overflows body → Stops body) := by
  unfold Denotes
  rw [escapedSingleToString_literal]
  by_cases hOver : Overflows body
  · rw [denoted_of_overflows hOver]
    constructor
    · intro hFailed _
      exact stops_of_failed hFailed
    · intro hStops
      exact failed_of_stops (hStops hOver) []
  · constructor
    · intro _ hIs
      exact absurd hIs hOver
    · intro _
      rw [escapedLoop_of_not_overflows hOver]
      rfl

/-
  A literal has its value exactly if no escape overflows, or the
  loop fails all the same, and an escape is read as its code
  point exactly if that is in the range of an int.
-/
theorem escapedSingle_iff
    (body : List UInt8)
    (needOctalPrefix : Bool)
    (range : List UInt8) :
    (Denotes body ↔ (Overflows body → Stops body)) ∧
      (KeepsContract needOctalPrefix range ↔
        ∀ found,
          escapeAt needOctalPrefix range = some found →
            found.1 < 0x80000000) := by
  constructor
  · exact denotes_iff body
  · exact keepsContract_iff needOctalPrefix range

/- `\UFFFFFFFF` -/
def overflowBody : List UInt8 :=
  ascii ['\\', 'U', 'F', 'F', 'F', 'F', 'F', 'F', 'F', 'F']

/- The bytes after the token are read. -/
theorem not_denotes_overflowBody :
    ¬Denotes overflowBody := by
  intro hDenotes
  unfold Denotes at hDenotes
  have hOutside :
      escapedSingleToString (literal overflowBody) =
        .outside := by
    rw [escapedSingleToString_literal]
    exact escapedLoop_of_stop rfl
  rw [hOutside] at hDenotes
  cases hValue : denoted overflowBody with
  | none | some value =>
      rw [hValue] at hDenotes
      cases hDenotes

end EscapeSeq

end Ydsh
