import Ydsh.Lexer.Tracking

/-
  The positions of tokens.

  Line numbers and lines are exact, but for tokens behind a
  newline that is missing in the table, and for a token over
  several lines that ends with the last byte.

  Main declarations:
    * `Exact`
    * `exact_iff_not_cutOff`
    * `positions_exact`
-/

----
-- Lines
----

namespace Ydsh

namespace Lexing

/- Some lines of the buffer, with their newlines. -/
structure IsLines
    (buf : List UInt8)
    (line : Token) : Prop where
  begins :
    line.pos = 0 ∨ buf[line.pos - 1]? = some NEWLINE
  nonempty : 0 < line.endPos
  range : line.endPos ≤ buf.length - 1
  ends : buf[line.endPos - 1]? = some NEWLINE

def Contains (line token : Token) : Prop :=
  line.pos ≤ token.pos ∧ token.endPos ≤ line.endPos

/- The fewest lines that contain a token. -/
structure IsLineOf
    (buf : List UInt8)
    (token line : Token) : Prop where
  lines : IsLines buf line
  contains : Contains line token
  fewest :
    ∀ other, IsLines buf other → Contains other token →
      Contains other line

structure Exact (lexer : Lexer) (token : Token) : Prop where
  lineNum :
    lexer.getSrcLine token =
      lexer.lineNumTable.offset +
        UInt32.ofNat
          ((lexer.buf.take token.pos).count NEWLINE)
  line : IsLineOf lexer.buf token (lexer.getLineToken token)

/- A token over several lines ends with the last byte, and is
taken for the end of the source. -/
def CutOff (buf : List UInt8) (token : Token) : Prop :=
  buf.length - 1 ≤ token.endPos ∧
    ∃ i, token.pos ≤ i ∧ i + 1 < buf.length - 1 ∧
      buf[i]? = some NEWLINE

section Lines

variable {buf : List UInt8}

/- By induction on the positions that are left. -/
theorem startIndex_cases
    {pos count : Nat}
    (hCount : count ≤ pos + 1) :
    Lexer.startIndex buf pos count ≤ pos ∧
      (Lexer.startIndex buf pos count = 0 ∨
        buf[Lexer.startIndex buf pos count - 1]? =
          some NEWLINE) ∧
      NoNewline buf (Lexer.startIndex buf pos count)
        (min count pos) := by
  induction count with
  | zero =>
      refine ⟨Nat.zero_le _, Or.inl rfl, ?_⟩
      intro i hFirst hStop
      omega
  | succ i ih =>
      unfold Lexer.startIndex
      by_cases hHere : buf[i]? = some NEWLINE ∧ i ≠ pos
      · rw [if_pos hHere]
        refine ⟨by omega, Or.inr hHere.1, ?_⟩
        intro j hFirst hStop
        omega
      · rw [if_neg hHere]
        rcases ih (by omega) with ⟨hLe, hBegins, hNone⟩
        refine ⟨hLe, hBegins, ?_⟩
        intro j hFirst hStop hGet
        by_cases hEq : j = i
        · subst hEq
          exact hHere ⟨hGet, by omega⟩
        · exact hNone j hFirst (by omega) hGet

theorem startIndex_spec
    (buf : List UInt8)
    (pos : Nat) :
    Lexer.startIndex buf pos (pos + 1) ≤ pos ∧
      (Lexer.startIndex buf pos (pos + 1) = 0 ∨
        buf[Lexer.startIndex buf pos (pos + 1) - 1]? =
          some NEWLINE) ∧
      NoNewline buf (Lexer.startIndex buf pos (pos + 1))
        pos := by
  have hCases := @startIndex_cases buf pos _ (Nat.le_refl _)
  rw [Nat.min_eq_right (Nat.le_succ pos)] at hCases
  exact hCases

theorem stopIndex_spec
    {count stop last : Nat}
    (hStop : stop ≤ last)
    (hLast : last < stop + count)
    (hNewline : buf[last]? = some NEWLINE) :
    stop < Lexer.stopIndex buf count stop ∧
      Lexer.stopIndex buf count stop ≤ last + 1 ∧
      buf[Lexer.stopIndex buf count stop - 1]? =
        some NEWLINE ∧
      NoNewline buf stop
        (Lexer.stopIndex buf count stop - 1) := by
  induction count generalizing stop with
  | zero => omega
  | succ count ih =>
      unfold Lexer.stopIndex
      by_cases hHere : buf[stop]? = some NEWLINE
      · rw [if_pos hHere]
        refine ⟨Nat.lt_succ_self _, by omega, hHere, ?_⟩
        intro i hFirst hEnd
        omega
      · rw [if_neg hHere]
        have hNot : stop ≠ last := by
          rintro rfl
          exact hHere hNewline
        have hMore : stop + 1 ≤ last := by omega
        rcases ih hMore (by omega)
          with ⟨hLess, hLe, hEnds, hNone⟩
        refine ⟨by omega, hLe, hEnds, ?_⟩
        intro i hFirst hEnd
        by_cases hEq : i = stop
        · rw [hEq]
          exact hHere
        · exact hNone i (by omega) hEnd

/- Where a line begins before a position, no other lines begin
behind it. -/
theorem begins_le
    {pos start : Nat}
    {other : Token}
    (hNone : NoNewline buf start pos)
    (hOther : IsLines buf other)
    (hPos : other.pos ≤ pos) : other.pos ≤ start := by
  rcases hOther.begins with hZero | hBefore
  · rw [hZero]
    exact Nat.zero_le start
  · by_contra hBehind
    exact hNone (other.pos - 1) (by omega) (by omega) hBefore

end Lines

----
-- Exactness
----

section Exactness

variable {lexer : Lexer} {token : Token}

/- A token before the last byte. -/
theorem getLineToken_inside
    (hBuffer : IsBuffer lexer.buf)
    (hSize : 0 < token.size)
    (hEnd : token.endPos < lexer.getUsedSize) :
    IsLineOf lexer.buf token (lexer.getLineToken token) := by
  have hLength :
      lexer.getUsedSize = lexer.buf.length - 1 := rfl
  have hNext : token.endPos = token.pos + token.size := rfl
  have hShift : lexer.shiftEOS token = token :=
    if_neg (Nat.not_le_of_lt hEnd)
  rcases startIndex_spec lexer.buf token.pos
    with ⟨hStart, hBegins, hNone⟩
  rcases @stopIndex_spec lexer.buf
      (lexer.getUsedSize - (token.endPos - 1))
      (token.endPos - 1) (lexer.buf.length - 1 - 1)
      (by omega) (by omega) hBuffer.newline
    with ⟨hLess, hLe, hEnds, hNoneEnd⟩
  unfold Lexer.getLineToken
  dsimp only
  rw [hShift, if_pos hSize]
  have hEndPos :
      (⟨Lexer.startIndex lexer.buf token.pos (token.pos + 1),
          Lexer.stopIndex lexer.buf
              (lexer.getUsedSize - (token.endPos - 1))
              (token.endPos - 1) -
            Lexer.startIndex lexer.buf token.pos
              (token.pos + 1)⟩ : Token).endPos =
        Lexer.stopIndex lexer.buf
          (lexer.getUsedSize - (token.endPos - 1))
          (token.endPos - 1) := by
    unfold Token.endPos at hLess hNext ⊢
    dsimp only
    omega
  refine ⟨⟨hBegins, ?_, ?_, ?_⟩, ⟨hStart, ?_⟩, ?_⟩
  · rw [hEndPos]
    omega
  · rw [hEndPos]
    have hTwo := hBuffer.pos
    omega
  · rw [hEndPos]
    exact hEnds
  · rw [hEndPos]
    omega
  · rintro other hOther ⟨hPos, hOtherEnd⟩
    refine ⟨begins_le hNone hOther hPos, ?_⟩
    rw [hEndPos]
    by_contra hBefore
    exact
      hNoneEnd (other.endPos - 1) (by omega) (by omega)
        hOther.ends

/- A token that ends with the last byte is taken for the end of
the source, whose line is the last one. -/
theorem getLineToken_last
    (hBuffer : IsBuffer lexer.buf)
    (hEnd : token.endPos = lexer.getUsedSize) :
    ∃ start,
      lexer.getLineToken token =
          ⟨start, lexer.getUsedSize - start⟩ ∧
        start ≤ lexer.getUsedSize - 1 ∧
        (start = 0 ∨
          lexer.buf[start - 1]? = some NEWLINE) ∧
        NoNewline lexer.buf start (lexer.getUsedSize - 1) := by
  have hTwo := hBuffer.pos
  have hLength :
      lexer.getUsedSize = lexer.buf.length - 1 := rfl
  have hShift :
      lexer.shiftEOS token = ⟨lexer.getUsedSize - 1, 0⟩ :=
    if_pos (Nat.le_of_eq hEnd.symm)
  refine ⟨_, ?_, startIndex_spec lexer.buf _⟩
  unfold Lexer.getLineToken
  dsimp only
  rw [hShift, if_neg (Nat.lt_irrefl 0)]
  unfold Token.endPos
  dsimp only
  congr 1
  omega

theorem isLineOf_last_iff
    (hBuffer : IsBuffer lexer.buf)
    (hSize : 0 < token.size)
    (hEnd : token.endPos = lexer.getUsedSize) :
    IsLineOf lexer.buf token (lexer.getLineToken token) ↔
      NoNewline lexer.buf token.pos
        (lexer.getUsedSize - 1) := by
  have hTwo := hBuffer.pos
  have hLength :
      lexer.getUsedSize = lexer.buf.length - 1 := rfl
  have hNext : token.endPos = token.pos + token.size := rfl
  rcases getLineToken_last hBuffer hEnd
    with ⟨start, hLine, hStart, hBegins, hNone⟩
  rw [hLine]
  have hEndPos :
      (⟨start, lexer.getUsedSize - start⟩ : Token).endPos =
        lexer.getUsedSize := by
    unfold Token.endPos
    dsimp only
    omega
  constructor
  · intro hIs i hFirst hStop
    exact
      hNone i (Nat.le_trans hIs.contains.1 hFirst) hStop
  · intro hInside
    have hPos : start ≤ token.pos := by
      rcases hBegins with hZero | hBefore
      · rw [hZero]
        exact Nat.zero_le _
      · by_contra hBehind
        exact
          hInside (start - 1) (by omega) (by omega) hBefore
    refine ⟨⟨hBegins, ?_, ?_, ?_⟩, ⟨hPos, ?_⟩, ?_⟩
    · rw [hEndPos]
      omega
    · rw [hEndPos]
      exact Nat.le_refl _
    · rw [hEndPos]
      exact hBuffer.newline
    · rw [hEndPos]
      exact Nat.le_of_eq hEnd
    · rintro other hOther ⟨hOtherPos, hOtherEnd⟩
      refine ⟨begins_le hNone hOther (by omega), ?_⟩
      rw [hEndPos, ← hEnd]
      exact hOtherEnd

/- With a complete table, a position is exact if and only if
the token is not cut off. -/
theorem exact_iff_not_cutOff
    {reach : Nat}
    (hBuffer : IsBuffer lexer.buf)
    (hTracks : Tracks lexer reach)
    (hSize : 0 < token.size)
    (hReach : token.endPos ≤ reach) :
    Exact lexer token ↔ ¬CutOff lexer.buf token := by
  have hTwo := hBuffer.pos
  have hLength :
      lexer.getUsedSize = lexer.buf.length - 1 := rfl
  have hNext : token.endPos = token.pos + token.size := rfl
  have hRange := hTracks.range
  by_cases hInside : token.endPos < lexer.getUsedSize
  · have hShift : lexer.shiftEOS token = token :=
      if_neg (Nat.not_le_of_lt hInside)
    have hExact : Exact lexer token := by
      refine ⟨?_, getLineToken_inside hBuffer hSize hInside⟩
      unfold Lexer.getSrcLine
      rw [hShift]
      exact lookup_eq hTracks.table (by omega)
    have hNot : ¬CutOff lexer.buf token := by
      rintro ⟨hEnd, hNewline⟩
      omega
    exact ⟨fun _ => hNot, fun _ => hExact⟩
  · have hEnd : token.endPos = lexer.getUsedSize := by omega
    have hLine := isLineOf_last_iff hBuffer hSize hEnd
    constructor
    · rintro hExact ⟨hLast, i, hFirst, hStop, hGet⟩
      exact
        hLine.1 hExact.line i hFirst (by omega) hGet
    · intro hNot
      have hNone :
          NoNewline lexer.buf token.pos
            (lexer.getUsedSize - 1) := by
        intro i hFirst hStop hGet
        exact
          hNot
            ⟨Nat.le_of_eq hEnd.symm, i, hFirst, by omega, hGet⟩
      refine ⟨?_, hLine.2 hNone⟩
      have hShift :
          lexer.shiftEOS token = ⟨lexer.getUsedSize - 1, 0⟩ :=
        if_pos (Nat.le_of_eq hEnd.symm)
      unfold Lexer.getSrcLine
      rw [hShift]
      dsimp only
      rw [lookup_eq hTracks.table (by omega),
        ← newlines_length, ← newlines_length,
        newlines_eq (by omega) hNone]

end Exactness

/-
  Whatever a parser does with its lexer: as long as no token of
  an assignment of an environment variable contains a newline,
  the position of a token is exact if and only if the token is
  not over several lines of which it ends the last one.
-/
theorem positions_exact
    (source : List UInt8)
    (offset : UInt32)
    (ops : List Op) :
    ∃ lexer tokens,
      run (Lexer.new source offset) ops =
          some (lexer, tokens) ∧
        lexer.lineNumTable.offset = offset ∧
        lexer.buf = sourceBuffer source ∧
        ((∀ t ∈ tokens,
            ¬Missed (sourceBuffer source) t.1 t.2) →
          ∀ t ∈ tokens, 0 < t.2.size →
            (Exact lexer t.2 ↔
              ¬CutOff (sourceBuffer source) t.2)) := by
  have hBuffer := sourceBuffer_isBuffer source
  rcases @run_ran (Lexer.new source offset) hBuffer
      (Nat.zero_le _) ops
    with ⟨lexer, tokens, hRun, hRan⟩
  have hBuf : lexer.buf = sourceBuffer source := hRan.buf
  refine ⟨lexer, tokens, hRun, hRan.offset, hBuf, ?_⟩
  intro hMissed t hMem hSize
  have hStart : Tracks (Lexer.new source offset) 0 :=
    ⟨Nat.le_refl 0, Nat.zero_le _, rfl⟩
  rcases hRan.tracks 0 hStart hMissed
    with ⟨reach, hReach, hTracks, hEnds⟩
  have hLast : IsBuffer lexer.buf := by
    rw [hBuf]
    exact hBuffer
  have hExact :=
    exact_iff_not_cutOff hLast hTracks hSize (hEnds t hMem)
  rw [hBuf] at hExact
  exact hExact

/- `echo b\`, and on the next line `c\`: the argument is over
both lines, and has the line number of the second one. -/
theorem argument_shifted :
    ¬∀ (source : List UInt8) (offset : UInt32)
        (ops : List Op) (lexer : Lexer) (tokens : Tokens),
      run (Lexer.new source offset) ops =
          some (lexer, tokens) →
        ∀ t ∈ tokens, t.1 ≠ .INVALID → 0 < t.2.size →
          Exact lexer t.2 := by
  intro hAll
  have hShifted :
      (run
          (Lexer.new
            [0x65, 0x63, 0x68, 0x6F, 0x20, 0x62, 0x5C, 0x0A,
              0x63, 0x5C] 1)
          [.nextToken, .nextToken]).any
        (fun result =>
          result.2 == [(.COMMAND, ⟨0, 4⟩),
              (.CMD_ARG_PART, ⟨5, 6⟩)] &&
            result.1.getSrcLine ⟨5, 6⟩ !=
              result.1.lineNumTable.offset +
                UInt32.ofNat
                  ((result.1.buf.take 5).count NEWLINE)) =
        true := by
    decide +kernel
  cases hRun :
      run
        (Lexer.new
          [0x65, 0x63, 0x68, 0x6F, 0x20, 0x62, 0x5C, 0x0A,
            0x63, 0x5C] 1)
        [.nextToken, .nextToken] with
  | none =>
      rw [hRun] at hShifted
      exact Bool.false_ne_true hShifted
  | some result =>
      rcases result with ⟨lexer, tokens⟩
      rw [hRun] at hShifted
      rcases Bool.and_eq_true_iff.1 hShifted
        with ⟨hTokens, hLine⟩
      have hEq :
          tokens = [(.COMMAND, ⟨0, 4⟩), (.CMD_ARG_PART, ⟨5, 6⟩)] :=
        eq_of_beq hTokens
      have hMem :
          (TokenKind.CMD_ARG_PART, (⟨5, 6⟩ : Token)) ∈ tokens := by
        rw [hEq]
        exact List.mem_cons_of_mem _ List.mem_cons_self
      have hExact :=
        hAll _ _ _ _ _ hRun _ hMem TokenKind.noConfusion
          (Nat.succ_pos 5)
      exact bne_iff_ne.1 hLine hExact.lineNum

end Lexing

end Ydsh
