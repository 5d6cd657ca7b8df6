import Mathlib.Data.Nat.Init
import Mathlib.Tactic.Common
import Ydsh.Lexer.NextToken

/-
  The table of newlines.

  It is complete up to the furthest position that has been
  read, as long as every token with a newline updates it.

  Main declarations:
    * `newlines`
    * `Tracks`
    * `nextToken_returns`
    * `run_ran`
-/

----
-- Newlines
----

namespace Ydsh

namespace Lexing

open Library.LongestMatch
open Library.LongestMatch.Pattern

def newlines (buf : List UInt8) (stop : Nat) : List Nat :=
  (List.range stop).filter fun i => buf[i]? = some NEWLINE

def NoNewline (buf : List UInt8) (first stop : Nat) : Prop :=
  ∀ i, first ≤ i → i < stop → buf[i]? ≠ some NEWLINE

section Newlines

variable {buf : List UInt8}

theorem newlines_succ
    (stop : Nat) :
    newlines buf (stop + 1) =
      newlines buf stop ++
        if buf[stop]? = some NEWLINE then [stop] else [] := by
  unfold newlines
  rw [List.range_succ, List.filter_append]
  congr 1
  by_cases hHere : buf[stop]? = some NEWLINE
  · rw [if_pos hHere]
    exact List.filter_cons_of_pos (by simpa using hHere)
  · rw [if_neg hHere]
    exact List.filter_cons_of_neg (by simpa using hHere)

theorem mem_newlines
    {stop i : Nat} :
    i ∈ newlines buf stop ↔
      i < stop ∧ buf[i]? = some NEWLINE := by
  simp [newlines]

/- The last one is the greatest one. -/
theorem newlines_getLast?
    {stop back : Nat}
    (hBack : (newlines buf stop).getLast? = some back) :
    back < stop ∧ ∀ i ∈ newlines buf stop, i ≤ back := by
  induction stop with
  | zero => exact nomatch hBack
  | succ stop ih =>
      rw [newlines_succ] at hBack ⊢
      by_cases hHere : buf[stop]? = some NEWLINE
      · rw [if_pos hHere, List.getLast?_append] at hBack
        rw [if_pos hHere]
        obtain rfl := Option.some.inj hBack
        refine ⟨Nat.lt_succ_self stop, ?_⟩
        intro i hMem
        rcases List.mem_append.1 hMem with hOld | hNew
        · exact Nat.le_of_lt (mem_newlines.1 hOld).1
        · exact Nat.le_of_eq (List.mem_singleton.1 hNew)
      · rw [if_neg hHere, List.append_nil] at hBack ⊢
        rcases ih hBack with ⟨hLess, hAll⟩
        exact ⟨Nat.lt_succ_of_lt hLess, hAll⟩

theorem newlines_eq
    {first stop : Nat}
    (hLe : first ≤ stop)
    (hNone : NoNewline buf first stop) :
    newlines buf stop = newlines buf first := by
  induction stop, hLe using Nat.le_induction with
  | base => rfl
  | succ stop hLe ih =>
      have hHere : buf[stop]? ≠ some NEWLINE :=
        hNone stop hLe (Nat.lt_succ_self stop)
      rw [newlines_succ, if_neg hHere, List.append_nil]
      apply ih
      intro i hFirst hStop
      exact hNone i hFirst (Nat.lt_succ_of_lt hStop)

theorem newlines_length
    (stop : Nat) :
    (newlines buf stop).length =
      (buf.take stop).count NEWLINE := by
  induction stop with
  | zero => rfl
  | succ stop ih =>
      rw [newlines_succ, List.length_append, ih,
        List.take_add_one, List.count_append]
      congr 1
      cases hHere : buf[stop]? with
      | none => rfl
      | some byte =>
          by_cases hNewline : byte = NEWLINE
          · simp [hNewline]
          · simp [hNewline]

/- The newlines behind a position are not before it. -/
theorem newlines_split
    {pos stop : Nat}
    (hLe : pos ≤ stop) :
    ∃ rest,
      newlines buf stop = newlines buf pos ++ rest ∧
        ∀ i ∈ rest, pos ≤ i := by
  induction stop, hLe using Nat.le_induction with
  | base => exact ⟨[], by simp, by simp⟩
  | succ stop hLe ih =>
      rcases ih with ⟨rest, hRest, hAll⟩
      refine
        ⟨_, by rw [newlines_succ, hRest, List.append_assoc],
          ?_⟩
      intro i hMem
      rcases List.mem_append.1 hMem with hOld | hNew
      · exact hAll i hOld
      · by_cases hHere : buf[stop]? = some NEWLINE
        · rw [if_pos hHere] at hNew
          rw [List.mem_singleton.1 hNew]
          exact hLe
        · rw [if_neg hHere] at hNew
          exact absurd hNew List.not_mem_nil

/- A line number is that of the newlines before a position. -/
theorem lookup_eq
    {lines : LineNumTable}
    {pos reach : Nat}
    (hTable : lines.table = newlines buf reach)
    (hPos : pos ≤ reach) :
    lines.lookup pos =
      lines.offset +
        UInt32.ofNat ((buf.take pos).count NEWLINE) := by
  rcases @newlines_split buf _ _ hPos
    with ⟨rest, hRest, hAll⟩
  have hBefore :
      (newlines buf pos).findIdx (fun p => decide (pos ≤ p)) =
        (newlines buf pos).length := by
    apply List.findIdx_eq_length_of_false
    intro p hMem
    have hLess := (mem_newlines.1 hMem).1
    exact decide_eq_false (Nat.not_le_of_lt hLess)
  have hBehind :
      rest.findIdx (fun p => decide (pos ≤ p)) = 0 := by
    cases rest with
    | nil => rfl
    | cons p rest =>
        have hLe := hAll p List.mem_cons_self
        rw [List.findIdx_cons, decide_eq_true hLe]
        rfl
  have hIndex :
      lines.table.findIdx (fun p => decide (pos ≤ p)) =
        (newlines buf pos).length := by
    rw [hTable, hRest, List.findIdx_append, hBefore, hBehind,
      if_neg (Nat.lt_irrefl _), Nat.zero_add]
  unfold LineNumTable.lookup LineNumTable.getMaxLineNum
  rw [hIndex, ← newlines_length, UInt32.add_comm]
  by_cases hEnd :
      (newlines buf pos).length = lines.table.length
  · rw [if_pos hEnd, hEnd]
  · rw [if_neg hEnd, UInt32.add_comm]

theorem addNewlinePos_table
    {lines : LineNumTable}
    {reach i : Nat}
    (hTable : lines.table = newlines buf reach)
    (hReach : i ≤ reach) :
    (if buf[i]? = some NEWLINE then lines.addNewlinePos i
        else lines).table =
      newlines buf (max reach (i + 1)) := by
  by_cases hLess : i < reach
  · rw [Nat.max_eq_left hLess]
    by_cases hHere : buf[i]? = some NEWLINE
    · rw [if_pos hHere]
      have hMem : i ∈ newlines buf reach :=
        mem_newlines.2 ⟨hLess, hHere⟩
      unfold LineNumTable.addNewlinePos
      cases hBack : lines.table.getLast? with
      | none =>
          rw [hTable, List.getLast?_eq_none_iff] at hBack
          rw [hBack] at hMem
          exact absurd hMem List.not_mem_nil
      | some back =>
          rw [hTable] at hBack
          have hLe := (newlines_getLast? hBack).2 i hMem
          dsimp only
          rw [if_neg (Nat.not_lt_of_le hLe)]
          exact hTable
    · rw [if_neg hHere]
      exact hTable
  · have hEq : i = reach := by omega
    subst hEq
    rw [Nat.max_eq_right (Nat.le_succ i), newlines_succ,
      ← hTable]
    by_cases hHere : buf[i]? = some NEWLINE
    · rw [if_pos hHere, if_pos hHere]
      unfold LineNumTable.addNewlinePos
      cases hBack : lines.table.getLast? with
      | none =>
          rw [List.getLast?_eq_none_iff] at hBack
          rw [hBack]
          rfl
      | some back =>
          rw [hTable] at hBack
          have hLess := (newlines_getLast? hBack).1
          dsimp only
          rw [if_pos hLess]
    · rw [if_neg hHere, if_neg hHere, List.append_nil]

/- By induction on the number of positions. -/
theorem foldl_newlines
    {lines : LineNumTable}
    {reach pos : Nat}
    (count : Nat)
    (hTable : lines.table = newlines buf reach)
    (hPos : pos ≤ reach) :
    ((List.range' pos count).foldl
        (fun lines i =>
          if buf[i]? = some NEWLINE then lines.addNewlinePos i
          else lines)
        lines).table =
      newlines buf (max reach (pos + count)) := by
  induction count generalizing pos reach lines with
  | zero =>
      rw [Nat.add_zero, Nat.max_eq_left hPos]
      exact hTable
  | succ count ih =>
      rw [List.range'_succ, List.foldl_cons]
      rw [ih (addNewlinePos_table hTable hPos)
        (Nat.le_max_right _ _)]
      congr 1
      omega

end Newlines

theorem addNewlinePos_offset
    (lines : LineNumTable)
    (pos : Nat) :
    (lines.addNewlinePos pos).offset = lines.offset := by
  unfold LineNumTable.addNewlinePos
  split
  · rfl
  · split <;> rfl

----
-- Rules
----

/- Every rule for a token, and every mode. -/
theorem rules_checked :
    ((tokenRules.all fun rule =>
        !nullable rule.pattern && avoids 0 rule.pattern &&
          rule.action != .reachEOS &&
          (rule.updates || avoids NEWLINE rule.pattern ||
            rule.action == .ret .ENV_ASSIGN)) &&
      [LexerCond.STMT, .EXPR, .NAME, .DSTRING, .CMD, .TYPE].all
        fun cond =>
          tokenRules.any fun rule =>
            rule.conds.contains cond && rule.context.isNone &&
              nullable (deriv NEWLINE rule.pattern)) = true := by
  decide +kernel

theorem tokenRules_checked
    {rule : Rule}
    (hRule : rule ∈ tokenRules) :
    nullable rule.pattern = false ∧
      avoids 0 rule.pattern = true ∧
      rule.action ≠ .reachEOS ∧
      (rule.updates = true ∨
        avoids NEWLINE rule.pattern = true ∨
        rule.action = .ret .ENV_ASSIGN) := by
  have hAll :=
    List.all_eq_true.1 (Bool.and_eq_true_iff.1 rules_checked).1
      rule hRule
  simpa [and_assoc, or_assoc] using hAll

/- A newline updates the table, but for one kind of token. -/
theorem rules_update :
    (rules.all fun rule =>
      rule.updates || avoids NEWLINE rule.pattern ||
        rule.action == .ret .ENV_ASSIGN) = true := by
  rw [rules, List.all_append]
  apply Bool.and_eq_true_iff.2
  refine ⟨List.all_eq_true.2 fun rule hRule => ?_, by decide⟩
  rcases (tokenRules_checked hRule).2.2.2 with h | h | h
  · simp [h]
  · simp [h]
  · simp [h]

/- Only the last rule matches the null byte. -/
theorem tokenRules_inside :
    (tokenRules.all fun rule =>
      avoids 0 rule.pattern && rule.action != .reachEOS) =
      true := by
  refine List.all_eq_true.2 fun rule hRule => ?_
  rcases tokenRules_checked hRule with ⟨_, hAvoids, hEnd, _⟩
  simp [hAvoids, hEnd]

theorem rules_nullable :
    (rules.all fun rule => !nullable rule.pattern) = true := by
  rw [rules, List.all_append]
  apply Bool.and_eq_true_iff.2
  refine ⟨List.all_eq_true.2 fun rule hRule => ?_, by decide⟩
  rw [(tokenRules_checked hRule).1]
  rfl

/- A newline is matched in every mode. -/
theorem newline_matched
    (cond : LexerCond) :
    (rules.any fun rule =>
      rule.conds.contains cond && rule.context.isNone &&
        nullable (deriv NEWLINE rule.pattern)) = true := by
  have hAll :=
    List.all_eq_true.1 (Bool.and_eq_true_iff.1 rules_checked).2
      cond (by cases cond <;> simp)
  rw [rules, List.any_append, hAll]
  rfl

theorem find_cases
    {rule : Rule}
    {cond : LexerCond}
    {input : List UInt8}
    {found : Found}
    (hFind : rule.find cond input = some found) :
    found.rule = rule ∧
      longest rule.pattern input = some found.length := by
  unfold Rule.find at hFind
  split at hFind
  · split at hFind
    · exact nomatch hFind
    case h_2 length hLength =>
      split at hFind
      · obtain rfl := Option.some.inj hFind
        exact ⟨rfl, hLength⟩
      · split at hFind
        · exact nomatch hFind
        · obtain rfl := Option.some.inj hFind
          exact ⟨rfl, hLength⟩
  · exact nomatch hFind

theorem pick_cases
    {cond : LexerCond}
    {input : List UInt8}
    {found : Found}
    {rules : List Rule}
    (hPick : pick cond input rules = some found) :
    found.rule ∈ rules ∧
      longest found.rule.pattern input = some found.length := by
  induction rules generalizing found with
  | nil => exact nomatch hPick
  | cons rule rules ih =>
      unfold pick at hPick
      have hOwn :
          ∀ {other : Found},
            rule.find cond input = some other →
              other.rule ∈ rule :: rules ∧
                longest other.rule.pattern input =
                  some other.length := by
        intro other hFind
        rcases find_cases hFind with ⟨hRule, hLongest⟩
        rw [hRule]
        exact ⟨List.mem_cons_self, hLongest⟩
      have hMore :
          ∀ {other : Found},
            pick cond input rules = some other →
              other.rule ∈ rule :: rules ∧
                longest other.rule.pattern input =
                  some other.length := by
        intro other hOther
        rcases ih hOther with ⟨hMem, hLongest⟩
        exact ⟨List.mem_cons_of_mem _ hMem, hLongest⟩
      split at hPick
      · exact hMore hPick
      case h_2 own hFind hNone =>
        rw [← Option.some.inj hPick]
        exact hOwn hFind
      case h_3 own other hFind hOther =>
        split at hPick
        · rw [← Option.some.inj hPick]
          exact hMore hOther
        · rw [← Option.some.inj hPick]
          exact hOwn hFind

theorem pick_ne_none
    {cond : LexerCond}
    {input : List UInt8}
    {rules : List Rule}
    {rule : Rule}
    (hRule : rule ∈ rules)
    (hFind : rule.find cond input ≠ none) :
    pick cond input rules ≠ none := by
  induction rules with
  | nil => exact absurd hRule List.not_mem_nil
  | cons other rules ih =>
      unfold pick
      rcases List.mem_cons.1 hRule with rfl | hMem
      · cases hOwn : rule.find cond input with
        | none => exact absurd hOwn hFind
        | some own =>
            cases pick cond input rules with
            | none => exact Option.some_ne_none own
            | some more =>
                dsimp only
                split <;> exact Option.some_ne_none _
      · cases hMore : pick cond input rules with
        | none => exact absurd hMore (ih hMem)
        | some more =>
            cases other.find cond input with
            | none => exact Option.some_ne_none more
            | some own =>
                dsimp only
                split <;> exact Option.some_ne_none _

----
-- Buffers
----

/- A newline and the null byte stand at the end. -/
def IsBuffer (buf : List UInt8) : Prop :=
  ∃ body, buf = body ++ [NEWLINE, 0]

theorem sourceBuffer_isBuffer
    (source : List UInt8) : IsBuffer (sourceBuffer source) := by
  unfold sourceBuffer
  by_cases hLast : source.getLast? = some NEWLINE
  · rw [if_pos hLast]
    rcases List.getLast?_eq_some_iff.1 hLast with ⟨body, rfl⟩
    exact ⟨body, by simp⟩
  · rw [if_neg hLast]
    exact ⟨source, by simp⟩

section Buffer

variable {buf : List UInt8}

theorem IsBuffer.pos
    (hBuffer : IsBuffer buf) : 2 ≤ buf.length := by
  rcases hBuffer with ⟨body, rfl⟩
  simp

theorem IsBuffer.null
    (hBuffer : IsBuffer buf) :
    buf[buf.length - 1]? = some 0 := by
  rcases hBuffer with ⟨body, rfl⟩
  simp

theorem IsBuffer.newline
    (hBuffer : IsBuffer buf) :
    buf[buf.length - 1 - 1]? = some NEWLINE := by
  rcases hBuffer with ⟨body, rfl⟩
  simp

theorem mem_text
    {byte : UInt8}
    {cursor length i : Nat}
    (hCursor : cursor ≤ i)
    (hStop : i < cursor + length)
    (hGet : buf[i]? = some byte) :
    byte ∈ (buf.drop cursor).take length := by
  apply List.mem_of_getElem? (i := i - cursor)
  rw [List.getElem?_take_of_lt (by omega), List.getElem?_drop,
    Nat.add_sub_cancel' hCursor]
  exact hGet

/- A rule was picked at a position of the buffer. -/
structure Picked
    (buf : List UInt8)
    (cursor : Nat)
    (found : Found) : Prop where
  pos : 0 < found.length
  range : cursor + found.length ≤ buf.length
  inside :
    found.rule.action ≠ .reachEOS →
      cursor + found.length ≤ buf.length - 1
  ends : found.rule.action = .reachEOS → found.length = 1
  newline :
    found.rule.updates = true ∨
      NoNewline buf cursor (cursor + found.length) ∨
      found.rule.action = .ret .ENV_ASSIGN

theorem word_matches
    {letters text : List UInt8}
    (hMatches : Matches (word letters) text) :
    text = letters := by
  induction letters generalizing text with
  | nil =>
      cases hMatches
      rfl
  | cons a letters ih =>
      rcases hMatches with _ | _ | _ | _ | ⟨hFirst, hSecond⟩
      rcases hFirst with _ | hLetter
      rw [ih hSecond, eq_of_beq hLetter]
      rfl

theorem picked
    {cond : LexerCond}
    {cursor : Nat}
    {found : Found}
    (hBuffer : IsBuffer buf)
    (hCursor : cursor ≤ buf.length - 1)
    (hPick : pick cond (buf.drop cursor) rules = some found) :
    Picked buf cursor found := by
  rcases pick_cases hPick with ⟨hRule, hLongest⟩
  have hTwo := hBuffer.pos
  have hLe := longest_le hLongest
  rw [List.length_drop] at hLe
  have hMatches := longest_matches hLongest
  have hNullable :=
    List.all_eq_true.1 rules_nullable found.rule hRule
  have hUpdate :=
    List.all_eq_true.1 rules_update found.rule hRule
  refine ⟨?_, by omega, ?_, ?_, ?_⟩
  · exact
      longest_pos (by simpa using hNullable) hLongest
  · intro hAction
    rcases List.mem_append.1 hRule with hToken | hEnd
    · have hInside :=
        List.all_eq_true.1 tokenRules_inside found.rule hToken
      rw [Bool.and_eq_true] at hInside
      by_contra hOut
      apply not_mem_of_avoids hInside.1 hMatches
      exact
        mem_text hCursor (by omega) hBuffer.null
    · rw [List.mem_singleton.1 hEnd] at hAction
      exact absurd rfl hAction
  · intro hAction
    rcases List.mem_append.1 hRule with hToken | hEnd
    · have hInside :=
        List.all_eq_true.1 tokenRules_inside found.rule hToken
      rw [Bool.and_eq_true, hAction] at hInside
      exact absurd hInside.2 (by decide)
    · rw [List.mem_singleton.1 hEnd] at hMatches
      have hText := congrArg List.length (word_matches hMatches)
      have hOne : (bytes "\x00").length = 1 := by decide
      rw [hOne, List.length_take, List.length_drop] at hText
      omega
  · rw [Bool.or_eq_true, Bool.or_eq_true] at hUpdate
    rcases hUpdate with (hYes | hAvoids) | hEnv
    · exact Or.inl hYes
    · refine Or.inr (Or.inl ?_)
      intro i hFirst hStop hGet
      exact
        not_mem_of_avoids hAvoids hMatches
          (mem_text hFirst hStop hGet)
    · exact Or.inr (Or.inr (eq_of_beq hEnv))

/- No rule is picked only before the end, and at no newline. -/
theorem unpicked
    {cond : LexerCond}
    {cursor : Nat}
    (hBuffer : IsBuffer buf)
    (hCursor : cursor ≤ buf.length - 1)
    (hPick : pick cond (buf.drop cursor) rules = none) :
    cursor + 1 ≤ buf.length - 1 ∧
      NoNewline buf cursor (cursor + 1) := by
  have hTwo := hBuffer.pos
  constructor
  · by_contra hOut
    have hEnd : cursor = buf.length - 1 := by omega
    have hInput : buf.drop cursor = [0] := by
      rw [List.drop_eq_getElem_cons (by omega),
        List.drop_eq_nil_of_le (by omega)]
      have hNull := hBuffer.null
      rw [← hEnd, List.getElem?_eq_getElem (by omega)] at hNull
      rw [Option.some.inj hNull]
    have hEndRule : endRule ∈ rules :=
      List.mem_append_right _ List.mem_cons_self
    apply pick_ne_none hEndRule _ hPick
    rw [hInput]
    cases cond <;> exact Option.some_ne_none _
  · intro i hFirst hStop hGet
    obtain rfl : cursor = i := by omega
    rcases List.any_eq_true.1 (newline_matched cond)
      with ⟨rule, hRule, hMatched⟩
    rw [Bool.and_eq_true, Bool.and_eq_true] at hMatched
    rcases hMatched with ⟨⟨hCond, hContext⟩, hNullable⟩
    refine pick_ne_none hRule ?_ hPick
    rcases List.getElem?_eq_some_iff.1 hGet with ⟨hLess, hByte⟩
    rw [List.drop_eq_getElem_cons hLess, hByte]
    unfold Rule.find
    rw [if_pos hCond]
    cases hLongest :
        longest rule.pattern
          (NEWLINE :: buf.drop (cursor + 1)) with
    | none =>
        exact absurd hLongest (longest_cons_ne_none _ hNullable)
    | some length =>
        rw [Option.isNone_iff_eq_none.1 hContext]
        exact Option.some_ne_none _

end Buffer

----
-- Tokens
----

/- The table has the newlines up to a position behind the
cursor. -/
structure Tracks (lexer : Lexer) (reach : Nat) : Prop where
  cursor : lexer.cursor ≤ reach
  range : reach ≤ lexer.getUsedSize
  table :
    lexer.lineNumTable.table = newlines lexer.buf reach

/- Two states of the lexer that look at the same text. -/
structure Same (lexer lexer' : Lexer) : Prop where
  buf : lexer'.buf = lexer.buf
  cursor : lexer'.cursor = lexer.cursor
  lines : lexer'.lineNumTable = lexer.lineNumTable

theorem Same.refl (lexer : Lexer) : Same lexer lexer :=
  ⟨rfl, rfl, rfl⟩

theorem Same.trans
    {first second third : Lexer}
    (hFirst : Same first second)
    (hSecond : Same second third) : Same first third :=
  { buf := hSecond.buf.trans hFirst.buf
    cursor := hSecond.cursor.trans hFirst.cursor
    lines := hSecond.lines.trans hFirst.lines }

theorem Same.tracks
    {lexer lexer' : Lexer}
    {reach : Nat}
    (hSame : Same lexer lexer')
    (hTracks : Tracks lexer reach) : Tracks lexer' reach := by
  constructor
  · rw [hSame.cursor]
    exact hTracks.cursor
  · unfold Lexer.getUsedSize
    rw [hSame.buf]
    exact hTracks.range
  · rw [hSame.lines, hSame.buf]
    exact hTracks.table

theorem popLexerMode_same
    (lexer : Lexer) : Same lexer lexer.popLexerMode := by
  unfold Lexer.popLexerMode
  split
  · exact Same.refl lexer
  · exact ⟨rfl, rfl, rfl⟩

theorem change_same
    (lexer : Lexer)
    (change : ModeChange) : Same lexer (lexer.change change) := by
  cases change with
  | mode cond => exact ⟨rfl, rfl, rfl⟩
  | push cond skipNL => exact ⟨rfl, rfl, rfl⟩
  | pop => exact popLexerMode_same lexer
  | endCommand =>
      unfold Lexer.change
      dsimp only
      split
      · exact Same.refl lexer
      · exact ⟨rfl, rfl, rfl⟩

theorem changes_same
    (lexer : Lexer)
    (changes : List ModeChange) :
    Same lexer (changes.foldl Lexer.change lexer) := by
  induction changes generalizing lexer with
  | nil => exact Same.refl lexer
  | cons change changes ih =>
      exact (change_same lexer change).trans (ih _)

section Advance

variable {lexer : Lexer} {found : Found}

theorem foldl_offset
    (buf : List UInt8)
    (lines : LineNumTable)
    (positions : List Nat) :
    (positions.foldl
        (fun lines i =>
          if buf[i]? = some NEWLINE then lines.addNewlinePos i
          else lines)
        lines).offset =
      lines.offset := by
  induction positions generalizing lines with
  | nil => rfl
  | cons i positions ih =>
      rw [List.foldl_cons, ih]
      split
      · exact addNewlinePos_offset lines i
      · rfl

theorem advance_buf : (lexer.advance found).buf = lexer.buf := by
  unfold Lexer.advance
  rw [(changes_same _ found.rule.changes).buf]
  split <;> rfl

theorem advance_cursor :
    (lexer.advance found).cursor =
      lexer.cursor + found.length := by
  unfold Lexer.advance
  rw [(changes_same _ found.rule.changes).cursor]
  split <;> rfl

theorem advance_offset :
    (lexer.advance found).lineNumTable.offset =
      lexer.lineNumTable.offset := by
  unfold Lexer.advance
  rw [(changes_same _ found.rule.changes).lines]
  split
  · exact foldl_offset _ _ _
  · rfl

/- The table stays complete. -/
theorem advance_table
    {reach : Nat}
    (hTracks : Tracks lexer reach)
    (hNewline :
      found.rule.updates = true ∨
        NoNewline lexer.buf lexer.cursor
          (lexer.cursor + found.length)) :
    (lexer.advance found).lineNumTable.table =
      newlines lexer.buf
        (max reach (lexer.cursor + found.length)) := by
  unfold Lexer.advance
  rw [(changes_same _ found.rule.changes).lines]
  by_cases hUpdates : found.rule.updates = true
  · rw [if_pos hUpdates]
    have hFold :=
      foldl_newlines found.length hTracks.table hTracks.cursor
    unfold Lexer.updateNewline
    dsimp only
    rw [Nat.add_sub_cancel_left]
    exact hFold
  · rw [if_neg hUpdates]
    have hNone := hNewline.resolve_left hUpdates
    dsimp only
    rw [hTracks.table]
    symm
    apply newlines_eq (Nat.le_max_left _ _)
    intro i hReach hStop
    have hCursor := hTracks.cursor
    exact hNone i (by omega) (by omega)

theorem advance_tracks
    {reach : Nat}
    (hTracks : Tracks lexer reach)
    (hInside :
      lexer.cursor + found.length ≤ lexer.getUsedSize)
    (hNewline :
      found.rule.updates = true ∨
        NoNewline lexer.buf lexer.cursor
          (lexer.cursor + found.length)) :
    Tracks (lexer.advance found)
      (max reach (lexer.cursor + found.length)) := by
  constructor
  · rw [advance_cursor]
    exact Nat.le_max_right _ _
  · unfold Lexer.getUsedSize
    rw [advance_buf]
    exact Nat.max_le.2 ⟨hTracks.range, hInside⟩
  · rw [advance_buf]
    exact advance_table hTracks hNewline

end Advance

/- A token that should have updated the table. -/
def Missed
    (buf : List UInt8)
    (kind : TokenKind)
    (token : Token) : Prop :=
  kind = .ENV_ASSIGN ∧
    ∃ i, token.pos ≤ i ∧ i < token.endPos ∧
      buf[i]? = some NEWLINE

/- What the lexer returns from a state. -/
structure Returns (lexer : Lexer) (ret : Lexer.Result) : Prop where
  buf : ret.lexer.buf = lexer.buf
  offset :
    ret.lexer.lineNumTable.offset = lexer.lineNumTable.offset
  cursor : ret.lexer.cursor ≤ lexer.getUsedSize
  token : ret.token.endPos ≤ lexer.getUsedSize
  tracks :
    ∀ reach, Tracks lexer reach →
      ¬Missed lexer.buf ret.kind ret.token →
      ∃ reach', reach ≤ reach' ∧ Tracks ret.lexer reach' ∧
        ret.token.endPos ≤ reach'

/- A token that ends at the cursor. -/
theorem endToken_returns
    {lexer next : Lexer}
    {kind : TokenKind}
    {startPos : Nat}
    {mode : LexerMode}
    {foundNewLine foundSpace : Bool}
    (hBuf : next.buf = lexer.buf)
    (hOffset :
      next.lineNumTable.offset = lexer.lineNumTable.offset)
    (hStart : startPos ≤ next.cursor)
    (hCursor : next.cursor ≤ lexer.getUsedSize)
    (hTracks :
      ∀ reach, Tracks lexer reach →
        ¬Missed lexer.buf kind
            ⟨startPos, next.cursor - startPos⟩ →
        ∃ reach', reach ≤ reach' ∧ Tracks next reach') :
    Returns lexer
      (next.endToken kind startPos mode foundNewLine
        foundSpace) := by
  refine ⟨hBuf, hOffset, hCursor, ?_, ?_⟩
  · unfold Token.endPos Lexer.endToken
    dsimp only
    omega
  · intro reach hLexer hMissed
    rcases hTracks reach hLexer hMissed
      with ⟨reach', hReach, hNext⟩
    refine
      ⟨reach', hReach,
        ⟨hNext.cursor, hNext.range, hNext.table⟩, ?_⟩
    have hEnd := hNext.cursor
    unfold Token.endPos Lexer.endToken
    dsimp only
    omega

section NextToken

variable {lexer : Lexer} {found : Found}

/- The state behind a match, whose text is the token. -/
theorem advance_returns
    {next : Lexer}
    {kind : TokenKind}
    {mode : LexerMode}
    {foundNewLine foundSpace : Bool}
    (hPicked : Picked lexer.buf lexer.cursor found)
    (hInside :
      lexer.cursor + found.length ≤ lexer.getUsedSize)
    (hSame : Same (lexer.advance found) next)
    (hKind :
      found.rule.action = .ret .ENV_ASSIGN →
        kind = .ENV_ASSIGN) :
    Returns lexer
      (next.endToken kind lexer.cursor mode foundNewLine
        foundSpace) := by
  have hCursor :
      next.cursor = lexer.cursor + found.length :=
    hSame.cursor.trans advance_cursor
  apply endToken_returns
  · exact hSame.buf.trans advance_buf
  · rw [hSame.lines]
    exact advance_offset
  · rw [hCursor]
    exact Nat.le_add_right _ _
  · rw [hCursor]
    exact hInside
  · intro reach hTracks hMissed
    refine
      ⟨max reach (lexer.cursor + found.length),
        Nat.le_max_left _ _, hSame.tracks ?_⟩
    apply advance_tracks hTracks hInside
    rcases hPicked.newline with hUpdates | hNone | hEnv
    · exact Or.inl hUpdates
    · exact Or.inr hNone
    · refine Or.inr ?_
      intro i hFirst hStop hGet
      refine hMissed ⟨hKind hEnv, i, hFirst, ?_, hGet⟩
      unfold Token.endPos
      dsimp only
      omega

theorem endOrComp_returns
    {next : Lexer}
    {kind : TokenKind}
    {mode : LexerMode}
    {foundNewLine foundSpace : Bool}
    (hPicked : Picked lexer.buf lexer.cursor found)
    (hInside :
      lexer.cursor + found.length ≤ lexer.getUsedSize)
    (hSame : Same (lexer.advance found) next)
    (hKind : found.rule.action ≠ .ret .ENV_ASSIGN) :
    Returns lexer
      (next.endOrComp kind lexer.cursor mode foundNewLine
        foundSpace) := by
  unfold Lexer.endOrComp
  split
  · apply advance_returns hPicked hInside
    · exact hSame.trans ⟨rfl, rfl, rfl⟩
    · intro hEnv
      exact absurd hEnv hKind
  · apply advance_returns hPicked hInside hSame
    intro hEnv
    exact absurd hEnv hKind

/- What is returned behind a match that is skipped. -/
theorem skip_returns
    {ret : Lexer.Result}
    (hPicked : Picked lexer.buf lexer.cursor found)
    (hInside :
      lexer.cursor + found.length ≤ lexer.getUsedSize)
    (hKind : found.rule.action ≠ .ret .ENV_ASSIGN)
    (hReturns : Returns (lexer.advance found) ret) :
    Returns lexer ret := by
  have hSize :
      (lexer.advance found).getUsedSize = lexer.getUsedSize := by
    unfold Lexer.getUsedSize
    rw [advance_buf]
  refine
    ⟨hReturns.buf.trans advance_buf,
      hReturns.offset.trans advance_offset, ?_, ?_, ?_⟩
  · rw [← hSize]
    exact hReturns.cursor
  · rw [← hSize]
    exact hReturns.token
  · intro reach hTracks hMissed
    rw [← advance_buf] at hMissed
    have hAdvance := advance_tracks hTracks hInside
      (hPicked.newline.imp_right fun hOr =>
        hOr.resolve_right hKind)
    rcases hReturns.tracks _ hAdvance hMissed
      with ⟨reach', hReach, hNext⟩
    exact
      ⟨reach',
        Nat.le_trans (Nat.le_max_left _ _) hReach, hNext⟩

/- The end of the source is reached behind the last byte. -/
theorem reachEOS_returns
    {mode : LexerMode}
    {foundNewLine foundSpace : Bool}
    (hBuffer : IsBuffer lexer.buf)
    (hCursor : lexer.cursor ≤ lexer.getUsedSize)
    (hPicked : Picked lexer.buf lexer.cursor found)
    (hAction : found.rule.action = .reachEOS) :
    Returns lexer
      (if (lexer.advance found).isEnd then
        (lexer.advance found).endOfSource foundSpace
      else
        (lexer.advance found).endToken .INVALID lexer.cursor
          mode foundNewLine foundSpace) := by
  have hOne := hPicked.ends hAction
  have hKind : found.rule.action ≠ .ret .ENV_ASSIGN := by
    rw [hAction]
    exact fun hEnv => nomatch hEnv
  have hSize :
      (lexer.advance found).getUsedSize = lexer.getUsedSize := by
    unfold Lexer.getUsedSize
    rw [advance_buf]
  have hNext :
      (lexer.advance found).cursor = lexer.cursor + 1 := by
    rw [advance_cursor, hOne]
  by_cases hEnd : (lexer.advance found).isEnd = true
  · rw [if_pos hEnd]
    have hLast : lexer.cursor + 1 = lexer.getUsedSize + 1 := by
      unfold Lexer.isEnd at hEnd
      rw [hSize, hNext] at hEnd
      exact eq_of_beq hEnd
    refine ⟨advance_buf, advance_offset, ?_, ?_, ?_⟩
    · unfold Lexer.endOfSource
      dsimp only
      rw [hNext]
      exact hCursor
    · unfold Lexer.endOfSource Token.endPos
      dsimp only
      rw [hSize]
      exact Nat.le_refl _
    · intro reach hTracks hMissed
      have hReach := hTracks.cursor
      have hRange := hTracks.range
      have hFull : reach = lexer.getUsedSize := by omega
      have hTable :=
        advance_table hTracks
          (hPicked.newline.imp_right fun hOr =>
            hOr.resolve_right hKind)
      have hMax :
          max reach (lexer.cursor + found.length) =
            lexer.getUsedSize + 1 := by
        omega
      have hNull : NoNewline lexer.buf lexer.getUsedSize
          (lexer.getUsedSize + 1) := by
        intro i hFirst hStop hGet
        obtain rfl : lexer.getUsedSize = i := by omega
        exact absurd (hBuffer.null.symm.trans hGet) (by decide)
      rw [hMax, newlines_eq (Nat.le_succ _) hNull] at hTable
      refine ⟨lexer.getUsedSize, hRange, ⟨?_, ?_, ?_⟩, ?_⟩
      · unfold Lexer.endOfSource
        dsimp only
        omega
      · exact Nat.le_of_eq hSize.symm
      · rw [← advance_buf] at hTable
        exact hTable
      · exact Nat.le_of_eq hSize
  · rw [if_neg hEnd]
    have hInside :
        lexer.cursor + found.length ≤ lexer.getUsedSize := by
      unfold Lexer.isEnd at hEnd
      rw [hSize, hNext, beq_iff_eq] at hEnd
      omega
    apply advance_returns hPicked hInside (Same.refl _)
    intro hEnv
    exact absurd hEnv hKind

theorem unpicked_returns
    {cond : LexerCond}
    {mode : LexerMode}
    {foundNewLine foundSpace : Bool}
    (hBuffer : IsBuffer lexer.buf)
    (hCursor : lexer.cursor ≤ lexer.getUsedSize)
    (hPick :
      pick cond (lexer.buf.drop lexer.cursor) rules = none) :
    Returns lexer
      (Lexer.endToken { lexer with cursor := lexer.cursor + 1 }
        .INVALID lexer.cursor mode foundNewLine
        foundSpace) := by
  rcases unpicked hBuffer hCursor hPick with ⟨hInside, hNone⟩
  apply endToken_returns
  · rfl
  · rfl
  · exact Nat.le_succ _
  · exact hInside
  · intro reach hTracks hMissed
    have hReach := hTracks.cursor
    refine
      ⟨max reach (lexer.cursor + 1), Nat.le_max_left _ _,
        Nat.le_max_right _ _,
        Nat.max_le.2 ⟨hTracks.range, hInside⟩, ?_⟩
    dsimp only
    rw [hTracks.table]
    symm
    apply newlines_eq (Nat.le_max_left _ _)
    intro i hFirst hStop
    exact hNone i (by omega) (by omega)

/-
  The loop of `nextToken`, by induction on the bytes that are
  left: each round takes at least one.
-/
theorem nextTokenFrom_returns
    {fuel : Nat}
    {foundNewLine foundSpace : Bool}
    (hBuffer : IsBuffer lexer.buf)
    (hCursor : lexer.cursor ≤ lexer.getUsedSize)
    (hFuel : lexer.buf.length - lexer.cursor ≤ fuel) :
    ∃ ret,
      Lexer.nextTokenFrom fuel lexer foundNewLine foundSpace =
          some ret ∧
        Returns lexer ret := by
  induction fuel generalizing lexer foundNewLine foundSpace with
  | zero =>
      have hTwo := hBuffer.pos
      unfold Lexer.getUsedSize at hCursor
      omega
  | succ fuel ih =>
      rw [Lexer.nextTokenFrom]
      cases hPick :
          pick lexer.curMode.cond (lexer.buf.drop lexer.cursor)
            rules with
      | none =>
          exact ⟨_, rfl, unpicked_returns hBuffer hCursor hPick⟩
      | some found =>
          have hPicked := picked hBuffer hCursor hPick
          have hSkip :
              found.rule.action ≠ .reachEOS →
                found.rule.action ≠ .ret .ENV_ASSIGN →
                ∀ newLine space,
                  ∃ ret,
                    Lexer.nextTokenFrom fuel
                        (lexer.advance found) newLine space =
                      some ret ∧
                    Returns lexer ret := by
            intro hInside hKind newLine space
            have hNext :
                ∃ ret,
                  Lexer.nextTokenFrom fuel
                      (lexer.advance found) newLine space =
                    some ret ∧
                  Returns (lexer.advance found) ret := by
              apply ih
              · rw [advance_buf]
                exact hBuffer
              · unfold Lexer.getUsedSize
                rw [advance_buf, advance_cursor]
                exact hPicked.inside hInside
              · have hPos := hPicked.pos
                rw [advance_buf, advance_cursor]
                omega
            rcases hNext with ⟨ret, hRet, hReturns⟩
            exact
              ⟨ret, hRet,
                skip_returns hPicked (hPicked.inside hInside)
                  hKind hReturns⟩
          dsimp only
          cases hAction : found.rule.action with
          | ret kind =>
              have hInside : found.rule.action ≠ .reachEOS := by
                simp [hAction]
              refine
                ⟨_, rfl,
                  advance_returns hPicked
                    (hPicked.inside hInside) (Same.refl _) ?_⟩
              intro hEnv
              rw [hAction] at hEnv
              exact Action.ret.inj hEnv
          | retOrComp kind =>
              exact
                ⟨_, rfl,
                  endOrComp_returns hPicked
                    (hPicked.inside (by simp [hAction]))
                    (Same.refl _) (by simp [hAction])⟩
          | dollar =>
              have hInside : found.rule.action ≠ .reachEOS := by
                simp [hAction]
              by_cases hPoint :
                  (lexer.advance found).inCompletionPoint = true
              · simp only [if_pos hPoint]
                exact
                  ⟨_, rfl,
                    endOrComp_returns hPicked
                      (hPicked.inside hInside) (Same.refl _)
                      (by simp [hAction])⟩
              · simp only [if_neg hPoint]
                exact
                  ⟨_, rfl,
                    advance_returns hPicked
                      (hPicked.inside hInside) (Same.refl _)
                      (by simp [hAction])⟩
          | skip | newLine | space =>
              exact
                hSkip (by simp [hAction]) (by simp [hAction]) _
                  _
          | reachEOS =>
              have hReturns :=
                @reachEOS_returns lexer found lexer.curMode
                  foundNewLine foundSpace hBuffer hCursor
                  hPicked hAction
              by_cases hEnd : (lexer.advance found).isEnd = true
              · rw [if_pos hEnd] at hReturns
                exact ⟨_, if_pos hEnd, hReturns⟩
              · rw [if_neg hEnd] at hReturns
                exact ⟨_, if_neg hEnd, hReturns⟩

theorem nextToken_returns
    (hBuffer : IsBuffer lexer.buf)
    (hCursor : lexer.cursor ≤ lexer.getUsedSize) :
    ∃ ret,
      lexer.nextToken = some ret ∧ Returns lexer ret :=
  nextTokenFrom_returns hBuffer hCursor (Nat.le_refl _)

end NextToken

----
-- Runs
----

/- What some operations leave behind, with the tokens they
have returned. -/
structure Ran
    (lexer lexer' : Lexer)
    (tokens : Tokens) : Prop where
  buf : lexer'.buf = lexer.buf
  offset :
    lexer'.lineNumTable.offset = lexer.lineNumTable.offset
  cursor : lexer'.cursor ≤ lexer.getUsedSize
  range : ∀ t ∈ tokens, t.2.endPos ≤ lexer.getUsedSize
  tracks :
    ∀ reach, Tracks lexer reach →
      (∀ t ∈ tokens, ¬Missed lexer.buf t.1 t.2) →
      ∃ reach', reach ≤ reach' ∧ Tracks lexer' reach' ∧
        ∀ t ∈ tokens, t.2.endPos ≤ reach'

theorem Ran.trans
    {first second third : Lexer}
    {tokens more : Tokens}
    (hFirst : Ran first second tokens)
    (hSecond : Ran second third more) :
    Ran first third (tokens ++ more) := by
  have hSize : second.getUsedSize = first.getUsedSize := by
    unfold Lexer.getUsedSize
    rw [hFirst.buf]
  refine
    ⟨hSecond.buf.trans hFirst.buf,
      hSecond.offset.trans hFirst.offset, ?_, ?_, ?_⟩
  · rw [← hSize]
    exact hSecond.cursor
  · intro t hMem
    rcases List.mem_append.1 hMem with hOld | hNew
    · exact hFirst.range t hOld
    · rw [← hSize]
      exact hSecond.range t hNew
  · intro reach hTracks hMissed
    rcases hFirst.tracks reach hTracks
        (fun t hMem => hMissed t (List.mem_append_left _ hMem))
      with ⟨reach₁, hReach₁, hTracks₁, hTokens₁⟩
    have hMore : ∀ t ∈ more, ¬Missed second.buf t.1 t.2 := by
      intro t hMem
      rw [hFirst.buf]
      exact hMissed t (List.mem_append_right _ hMem)
    rcases hSecond.tracks reach₁ hTracks₁ hMore
      with ⟨reach₂, hReach₂, hTracks₂, hTokens₂⟩
    refine
      ⟨reach₂, Nat.le_trans hReach₁ hReach₂, hTracks₂, ?_⟩
    intro t hMem
    rcases List.mem_append.1 hMem with hOld | hNew
    · exact Nat.le_trans (hTokens₁ t hOld) hReach₂
    · exact hTokens₂ t hNew

/- The text and the table stay, and the cursor is at most set
back. -/
theorem Ran.of_kept
    {lexer lexer' : Lexer}
    (hCursor : lexer.cursor ≤ lexer.getUsedSize)
    (hBuf : lexer'.buf = lexer.buf)
    (hLines : lexer'.lineNumTable = lexer.lineNumTable)
    (hBack : lexer'.cursor ≤ lexer.cursor) :
    Ran lexer lexer' [] := by
  refine
    ⟨hBuf, by rw [hLines], Nat.le_trans hBack hCursor,
      fun _ hMem => absurd hMem List.not_mem_nil, ?_⟩
  intro reach hTracks hMissed
  refine
    ⟨reach, Nat.le_refl _, ⟨?_, ?_, ?_⟩,
      fun _ hMem => absurd hMem List.not_mem_nil⟩
  · exact Nat.le_trans hBack hTracks.cursor
  · unfold Lexer.getUsedSize
    rw [hBuf]
    exact hTracks.range
  · rw [hLines, hBuf]
    exact hTracks.table

theorem Same.ran
    {lexer lexer' : Lexer}
    (hSame : Same lexer lexer')
    (hCursor : lexer.cursor ≤ lexer.getUsedSize) :
    Ran lexer lexer' [] :=
  Ran.of_kept hCursor hSame.buf hSame.lines
    (Nat.le_of_eq hSame.cursor)

theorem step_ran
    {lexer : Lexer}
    (hBuffer : IsBuffer lexer.buf)
    (hCursor : lexer.cursor ≤ lexer.getUsedSize)
    (op : Op) :
    ∃ next tokens,
      step lexer op = some (next, tokens) ∧
        Ran lexer next tokens := by
  cases op with
  | nextToken =>
      rcases nextToken_returns hBuffer hCursor
        with ⟨ret, hRet, hReturns⟩
      refine
        ⟨ret.lexer, [(ret.kind, ret.token)],
          by simp only [step, hRet],
          hReturns.buf, hReturns.offset, hReturns.cursor, ?_,
          ?_⟩
      · intro t hMem
        rw [List.mem_singleton.1 hMem]
        exact hReturns.token
      · intro reach hTracks hMissed
        rcases hReturns.tracks reach hTracks
            (hMissed _ List.mem_cons_self)
          with ⟨reach', hReach, hNext, hEnd⟩
        refine ⟨reach', hReach, hNext, ?_⟩
        intro t hMem
        rw [List.mem_singleton.1 hMem]
        exact hEnd
  | setPos pos =>
      exact
        ⟨_, _, rfl,
          Ran.of_kept hCursor rfl rfl (Nat.min_le_right _ _)⟩
  | setLexerMode mode
  | setLexerCond cond
  | pushLexerMode mode
  | setComplete allow =>
      exact
        ⟨_, _, rfl,
          Ran.of_kept hCursor rfl rfl (Nat.le_refl _)⟩
  | popLexerMode =>
      exact
        ⟨_, _, rfl, (popLexerMode_same lexer).ran hCursor⟩

/- By induction on the operations. -/
theorem run_ran
    {lexer : Lexer}
    (hBuffer : IsBuffer lexer.buf)
    (hCursor : lexer.cursor ≤ lexer.getUsedSize)
    (ops : List Op) :
    ∃ last tokens,
      run lexer ops = some (last, tokens) ∧
        Ran lexer last tokens := by
  induction ops generalizing lexer with
  | nil =>
      exact
        ⟨lexer, [], rfl,
          Ran.of_kept hCursor rfl rfl (Nat.le_refl _)⟩
  | cons op ops ih =>
      rcases step_ran hBuffer hCursor op
        with ⟨next, tokens, hStep, hFirst⟩
      have hNext : next.cursor ≤ next.getUsedSize := by
        unfold Lexer.getUsedSize
        rw [hFirst.buf]
        exact hFirst.cursor
      have hSame : IsBuffer next.buf := by
        rw [hFirst.buf]
        exact hBuffer
      rcases ih hSame hNext with ⟨last, more, hRun, hSecond⟩
      refine ⟨last, tokens ++ more, ?_, hFirst.trans hSecond⟩
      rw [run, hStep]
      dsimp only
      rw [hRun]

end Lexing

end Ydsh
