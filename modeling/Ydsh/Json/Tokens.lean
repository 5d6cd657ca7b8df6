import Ydsh.Json.Parser

/-
  The tokens of serialized text.

  A serialized string is one token exactly when its bytes,
  escapes apart, are characters the lexer knows.

  Main declarations:
    * `Lexable`
-/

----
-- First Bytes
----

namespace Ydsh

namespace Json

/- A byte at which a token starts. -/
def StartsToken (b : UInt8) : Prop :=
  isSpace b = false ∧ b ≠ 0

instance (b : UInt8) : Decidable (StartsToken b) :=
  inferInstanceAs (Decidable (_ ∧ _))

theorem nextToken_of_starts
    {b : UInt8}
    (hStarts : StartsToken b)
    (rest : List UInt8) :
    nextToken (b :: rest) = matchToken b rest := by
  have hDrop :
      (b :: rest).dropWhile isSpace = b :: rest :=
    List.dropWhile_cons_of_neg (by simp [hStarts.1])
  unfold nextToken
  rw [hDrop]
  exact if_neg (fun hEnd => hStarts.2 hEnd.1)

theorem fetchNext_of_starts
    {b : UInt8}
    (hStarts : StartsToken b)
    (rest : List UInt8) :
    fetchNext (b :: rest) = matchToken b rest :=
  nextToken_of_starts hStarts rest

/- Spaces and newlines are passed over. -/
theorem fetchNext_spaces
    {spaces : List UInt8}
    (hSpaces : ∀ b ∈ spaces, isSpace b = true)
    (rest : List UInt8) :
    fetchNext (spaces ++ rest) = fetchNext rest := by
  unfold fetchNext nextToken
  rw [List.dropWhile_append_of_pos hSpaces]

theorem newline_spaces (tab : Nat) :
    ∀ b ∈ newline tab, isSpace b = true := by
  intro b hMem
  unfold newline at hMem
  split_ifs at hMem
  · rw [List.mem_singleton.mp hMem]
    rfl
  · cases hMem

theorem indent_spaces
    (tab level : Nat) :
    ∀ b ∈ indent tab level, isSpace b = true := by
  intro b hMem
  rw [(List.mem_replicate.mp hMem).2]
  rfl

/- What may follow the text of a value. -/
def Delimits : List UInt8 → Prop
  | [] => False
  | b :: _ => b = 0x2C ∨ b = 0x5D ∨ b = 0x7D ∨ b = 0x0A ∨ b = 0

theorem fetchNext_open_array
    (rest : List UInt8) :
    fetchNext (0x5B :: rest) = ⟨.ARRAY_OPEN, [0x5B], rest⟩ :=
  rfl

theorem fetchNext_close_array
    (rest : List UInt8) :
    fetchNext (0x5D :: rest) = ⟨.ARRAY_CLOSE, [0x5D], rest⟩ :=
  rfl

theorem fetchNext_open_object
    (rest : List UInt8) :
    fetchNext (0x7B :: rest) = ⟨.OBJECT_OPEN, [0x7B], rest⟩ :=
  rfl

theorem fetchNext_close_object
    (rest : List UInt8) :
    fetchNext (0x7D :: rest) = ⟨.OBJECT_CLOSE, [0x7D], rest⟩ :=
  rfl

theorem fetchNext_comma
    (rest : List UInt8) :
    fetchNext (0x2C :: rest) = ⟨.COMMA, [0x2C], rest⟩ :=
  rfl

theorem fetchNext_colon
    (rest : List UInt8) :
    fetchNext (0x3A :: rest) = ⟨.COLON, [0x3A], rest⟩ :=
  rfl

theorem fetchNext_null
    (rest : List UInt8) :
    fetchNext (ascii ['n', 'u', 'l', 'l'] ++ rest) =
      ⟨.NIL, ascii ['n', 'u', 'l', 'l'], rest⟩ :=
  rfl

theorem fetchNext_true
    (rest : List UInt8) :
    fetchNext (ascii ['t', 'r', 'u', 'e'] ++ rest) =
      ⟨.TRUE, ascii ['t', 'r', 'u', 'e'], rest⟩ :=
  rfl

theorem fetchNext_false
    (rest : List UInt8) :
    fetchNext (ascii ['f', 'a', 'l', 's', 'e'] ++ rest) =
      ⟨.FALSE, ascii ['f', 'a', 'l', 's', 'e'], rest⟩ :=
  rfl

----
-- Strings
----

def Escapes (b : UInt8) : Prop :=
  b.toNat < 0x1F ∨ b = BACKSLASH ∨ b = QUOTE

instance (b : UInt8) : Decidable (Escapes b) :=
  inferInstanceAs (Decidable (_ ∨ _))

/- How the lexer goes over the text of one byte. -/
def rawStep
    (state : CharState)
    (b : UInt8) : Option CharState :=
  if Escapes b then
    if state = .char then some .char else none
  else
    charStep state b

/- The serialized string is one token. -/
def Lexable (value : List UInt8) : Prop :=
  value.foldlM rawStep .char = some .char

instance (value : List UInt8) : Decidable (Lexable value) :=
  inferInstanceAs (Decidable (_ = _))

/- Between the texts of two bytes. -/
def CharState.InText : CharState → Prop
  | .char => True
  | .tail low _ _ => 0x80 ≤ low
  | _ => False

theorem charStep_tail_none
    {low high : Nat}
    {b : UInt8}
    (hOut : ¬(low ≤ b.toNat ∧ b.toNat ≤ high))
    (more : Nat) :
    charStep (.tail low high more) b = none := by
  cases more with
  | zero => rw [charStep, if_neg hOut]
  | succ more => rw [charStep, if_neg hOut]

theorem headStep_inText
    {b : UInt8}
    {next : CharState}
    (hStep : headStep b = some next) :
    next.InText := by
  unfold headStep at hStep
  split_ifs at hStep
  all_goals
    cases hStep
    simp [CharState.InText]

theorem rawStep_inText
    {state next : CharState}
    (hState : state.InText)
    {b : UInt8}
    (hStep : rawStep state b = some next) :
    next.InText := by
  unfold rawStep at hStep
  split_ifs at hStep with hEsc hChar
  · cases hStep
    trivial
  · cases state with
    | char =>
        rw [charStep] at hStep
        split_ifs at hStep
        · exact absurd (.inr (.inl ‹_›)) hEsc
        · cases hStep
          trivial
        · exact headStep_inText hStep
    | escape => exact absurd hState id
    | hex more => exact absurd hState id
    | tail low high more =>
        cases more with
        | zero =>
            rw [charStep] at hStep
            split_ifs at hStep
            cases hStep
            trivial
        | succ more =>
            rw [charStep] at hStep
            split_ifs at hStep
            cases hStep
            exact Nat.le_refl _

theorem scanString_step
    {state next : CharState}
    {b : UInt8}
    (hQuote : ¬(state = .char ∧ b = QUOTE))
    (hStep : charStep state b = some next)
    (rest : List UInt8) :
    scanString state (b :: rest) =
      (scanString next rest).map
        (fun found => (b :: found.1, found.2)) := by
  rw [scanString, if_neg hQuote]
  simp only [hStep]

theorem scanString_stop
    {state : CharState}
    {b : UInt8}
    (hQuote : ¬(state = .char ∧ b = QUOTE))
    (hStep : charStep state b = none)
    (rest : List UInt8) :
    scanString state (b :: rest) = none := by
  rw [scanString, if_neg hQuote]
  simp only [hStep]

theorem isHex_hexDigit :
    ∀ value < 16, isHex (hexDigit value) = true := by
  decide

/- The four digits of an escape. -/
theorem scanString_hex4
    (value : Nat)
    (rest : List UInt8) :
    scanString (.hex 3) (hex4 value ++ rest) =
      (scanString .char rest).map
        (fun found => (hex4 value ++ found.1, found.2)) := by
  have hStep :
      ∀ digit more,
        charStep (.hex (more + 1)) (hexDigit (digit % 16)) =
          some (.hex more) := by
    intro digit more
    have hHex :=
      isHex_hexDigit _ (Nat.mod_lt digit (by decide : 0 < 16))
    simp only [charStep, hHex, if_true]
  have hLast :
      charStep (.hex 0) (hexDigit (value % 16)) =
        some .char := by
    have hHex :=
      isHex_hexDigit _ (Nat.mod_lt value (by decide : 0 < 16))
    simp only [charStep, hHex, if_true]
  have hNot :
      ∀ more b, ¬(CharState.hex more = .char ∧ b = QUOTE) := by
    intro more b hBoth
    cases hBoth.1
  unfold hex4
  simp only [List.cons_append, List.nil_append]
  rw [scanString_step (hNot 3 _) (hStep _ 2),
    scanString_step (hNot 2 _) (hStep _ 1),
    scanString_step (hNot 1 _) (hStep _ 0),
    scanString_step (hNot 0 _) hLast]
  simp only [Option.map_map]
  rfl

/- Inside of a character no escape starts. -/
theorem scanString_tail_stop
    {low high more : Nat}
    (hLow : 0x80 ≤ low)
    {b : UInt8}
    (hByte : b.toNat < 0x80)
    (rest : List UInt8) :
    scanString (.tail low high more) (b :: rest) = none := by
  apply scanString_stop
  · intro hBoth
    cases hBoth.1
  · apply charStep_tail_none
    omega

theorem escapeByte_head
    {b : UInt8}
    (hEsc : Escapes b) :
    ∃ more, escapeByte b = BACKSLASH :: more := by
  unfold escapeByte
  by_cases hControl : b.toNat < 0x1F
  · rw [if_pos hControl]
    exact ⟨_, rfl⟩
  · rcases hEsc with hLt | hMark
    · exact absurd hLt hControl
    · rw [if_neg hControl, if_pos hMark]
      exact ⟨_, rfl⟩

theorem scanString_escape
    {b : UInt8}
    (hEsc : Escapes b)
    (rest : List UInt8) :
    scanString .char (escapeByte b ++ rest) =
      (scanString .char rest).map
        (fun found => (escapeByte b ++ found.1, found.2)) := by
  have hSlash : ¬(CharState.char = .char ∧ BACKSLASH = QUOTE) := by
    decide
  have hNot :
      ∀ c, ¬(CharState.escape = .char ∧ c = QUOTE) := by
    intro c hBoth
    cases hBoth.1
  have hOpen : charStep .char BACKSLASH = some .escape := by
    decide
  unfold escapeByte
  by_cases hControl : b.toNat < 0x1F
  · have hMark : charStep .escape 0x75 = some (.hex 3) := by
      decide
    rw [if_pos hControl]
    simp only [List.cons_append, List.nil_append]
    rw [scanString_step hSlash hOpen,
      scanString_step (hNot _) hMark, scanString_hex4]
    simp only [Option.map_map]
    rfl
  · rw [if_neg hControl]
    rcases hEsc with hLt | hMark
    · exact absurd hLt hControl
    · have hChar : charStep .escape b = some .char := by
        rcases hMark with hEq | hEq
        · rw [hEq]
          decide
        · rw [hEq]
          decide
      rw [if_pos hMark]
      simp only [List.cons_append, List.nil_append]
      rw [scanString_step hSlash hOpen,
        scanString_step (hNot _) hChar]
      simp only [Option.map_map]
      rfl

theorem scanString_escapeByte
    {state : CharState}
    (hState : state.InText)
    (b : UInt8)
    (rest : List UInt8) :
    scanString state (escapeByte b ++ rest) =
      (rawStep state b).bind
        (fun next =>
          (scanString next rest).map
            (fun found => (escapeByte b ++ found.1, found.2))) := by
  unfold rawStep
  by_cases hEsc : Escapes b
  · rw [if_pos hEsc]
    cases state with
    | char =>
        rw [if_pos rfl]
        exact scanString_escape hEsc rest
    | escape => exact absurd hState id
    | hex more => exact absurd hState id
    | tail low high more =>
        rcases escapeByte_head hEsc with ⟨more, hMore⟩
        rw [hMore]
        exact scanString_tail_stop hState (by decide) _
  · have hPlain : escapeByte b = [b] := by
      unfold escapeByte
      rw [if_neg (fun hLt => hEsc (.inl hLt)),
        if_neg (fun hMark => hEsc (.inr hMark))]
    have hQuote : ¬(state = .char ∧ b = QUOTE) := by
      intro hBoth
      exact hEsc (.inr (.inr hBoth.2))
    rw [if_neg hEsc, hPlain]
    simp only [List.cons_append, List.nil_append]
    cases hStep : charStep state b with
    | none => rw [scanString_stop hQuote hStep]; rfl
    | some next => rw [scanString_step hQuote hStep]; rfl

/- The whole text of a string, up to its closing quote. -/
theorem scanString_escaped
    (value rest : List UInt8)
    {state : CharState}
    (hState : state.InText) :
    scanString state
        (value.flatMap escapeByte ++ QUOTE :: rest) =
      if value.foldlM rawStep state = some .char then
        some (value.flatMap escapeByte ++ [QUOTE], rest)
      else
        none := by
  induction value generalizing state with
  | nil =>
      cases state with
      | char => rfl
      | escape => exact absurd hState id
      | hex more => exact absurd hState id
      | tail low high more =>
          exact scanString_tail_stop hState (by decide) _
  | cons b value ih =>
      simp only [List.flatMap_cons, List.append_assoc]
      rw [scanString_escapeByte hState, List.foldlM_cons]
      cases hStep : rawStep state b with
      | none => rfl
      | some next =>
          simp only [Option.bind_some, Option.bind_eq_bind]
          rw [ih (rawStep_inText hState hStep)]
          by_cases hLex : value.foldlM rawStep next = some .char
          · rw [if_pos hLex, if_pos hLex]
            rfl
          · rw [if_neg hLex, if_neg hLex]
            rfl

theorem matchToken_quote
    (rest : List UInt8) :
    matchToken QUOTE rest =
      match scanString .char rest with
      | some found => ⟨.STRING, QUOTE :: found.1, found.2⟩
      | none => ⟨.INVALID, [QUOTE], rest⟩ :=
  rfl

theorem serializeString_append
    (value rest : List UInt8) :
    serializeString value ++ rest =
      QUOTE :: (value.flatMap escapeByte ++ QUOTE :: rest) := by
  unfold serializeString
  simp

theorem fetchNext_string
    {value : List UInt8}
    (hLex : Lexable value)
    (rest : List UInt8) :
    fetchNext (serializeString value ++ rest) =
      ⟨.STRING, serializeString value, rest⟩ := by
  rw [serializeString_append,
    fetchNext_of_starts (by decide), matchToken_quote,
    scanString_escaped _ _ (show CharState.char.InText from trivial),
    if_pos (show _ = _ from hLex)]
  rfl

theorem fetchNext_invalid
    {value : List UInt8}
    (hLex : ¬Lexable value)
    (rest : List UInt8) :
    (fetchNext (serializeString value ++ rest)).curKind =
      .INVALID := by
  rw [serializeString_append,
    fetchNext_of_starts (by decide), matchToken_quote,
    scanString_escaped _ _ (show CharState.char.InText from trivial),
    if_neg (show ¬_ = _ from hLex)]

/- Bytes below `\x80` other than `\x1F` are characters. -/
theorem lexable_of_ascii
    {value : List UInt8}
    (hAscii : ∀ b ∈ value, b.toNat < 0x80 ∧ b ≠ 0x1F) :
    Lexable value := by
  unfold Lexable
  induction value with
  | nil => rfl
  | cons b value ih =>
      have hByte := hAscii b List.mem_cons_self
      have hStep : rawStep .char b = some .char := by
        unfold rawStep
        by_cases hEsc : Escapes b
        · rw [if_pos hEsc, if_pos rfl]
        · have hNe : b.toNat ≠ 0x1F := by
            intro hEq
            exact hByte.2 (UInt8.toNat_inj.mp hEq)
          have hGe : ¬b.toNat < 0x1F :=
            fun hLt => hEsc (.inl hLt)
          rw [if_neg hEsc]
          rw [charStep]
          rw [if_neg (fun hEq => hEsc (.inr (.inl hEq))),
            if_pos (by omega)]
      rw [List.foldlM_cons, hStep]
      apply ih
      intro c hMem
      exact hAscii c (List.mem_cons_of_mem _ hMem)

theorem rawStep_unit_separator
    {state : CharState}
    (hState : state.InText) :
    rawStep state 0x1F = none := by
  cases state with
  | char => rfl
  | escape => exact absurd hState id
  | hex more => exact absurd hState id
  | tail low high more =>
      have hLow : 0x80 ≤ low := hState
      unfold rawStep
      rw [if_neg (by decide)]
      apply charStep_tail_none
      intro hBoth
      have hLe := hBoth.1
      simp at hLe
      omega

theorem not_mem_of_lexes
    {value : List UInt8}
    {state : CharState}
    (hState : state.InText)
    (hLex : value.foldlM rawStep state = some .char) :
    (0x1F : UInt8) ∉ value := by
  induction value generalizing state with
  | nil => exact List.not_mem_nil
  | cons b value ih =>
      rw [List.foldlM_cons] at hLex
      rcases Option.bind_eq_some_iff.mp hLex with
        ⟨next, hStep, hRest⟩
      intro hMem
      rcases List.mem_cons.mp hMem with hEq | hTail
      · rw [← hEq, rawStep_unit_separator hState] at hStep
        cases hStep
      · exact ih (rawStep_inText hState hStep) hRest hTail

end Json

end Ydsh
