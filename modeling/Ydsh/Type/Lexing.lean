import Ydsh.Type.NameForm
import Ydsh.Type.TypeName

/-
  The tokens of a type name.

  The text of a name is split into the tokens of its parts, as
  long as the character after a part does not belong to it.

  Main declarations:
    * `lexType_cons`
    * `Boundary`
    * `Lexes`
-/

----
-- One Token
----

namespace Ydsh

namespace Pool

theorem skipBlank_length
    (inComment newLine : Bool)
    (text : List Char) :
    (skipBlank inComment newLine text).2.length ≤
      text.length := by
  fun_induction skipBlank inComment newLine text
  all_goals
    simp only [List.length_cons, List.length_nil]
    omega

theorem nextKind_pos
    {text : List Char}
    (hKind : (nextKind text).1 ≠ .EOS) :
    text ≠ [] ∧ 0 < (nextKind text).2 := by
  constructor
  · rintro rfl
    exact hKind rfl
  · revert hKind
    rw [nextKind.eq_def]
    split
    case h_1 => exact fun hKind => absurd rfl hKind
    case h_16 =>
      intro _
      split
      · exact Nat.succ_pos _
      · exact Nat.succ_pos _
    all_goals exact fun _ => Nat.succ_pos _

/- A token takes a part of the text. -/
theorem drop_length_lt
    {text : List Char}
    (hKind : (nextKind (skipBlank false false text).2).1 ≠ .EOS) :
    ((skipBlank false false text).2.drop
        (nextKind (skipBlank false false text).2).2).length <
      text.length := by
  have hBlank := skipBlank_length false false text
  rcases nextKind_pos hKind with ⟨hNe, hPos⟩
  have hLength := List.length_pos_iff.mpr hNe
  rw [List.length_drop]
  omega

/- Any limit above the length of the text does. -/
theorem nextTokens_limit
    {limit limit' : Nat}
    {text : List Char}
    (hLimit : text.length < limit)
    (hLimit' : text.length < limit') :
    nextTokens limit text = nextTokens limit' text := by
  induction limit generalizing limit' text with
  | zero => exact absurd hLimit (Nat.not_lt_zero _)
  | succ limit ih =>
      cases limit' with
      | zero => exact absurd hLimit' (Nat.not_lt_zero _)
      | succ limit' =>
          rw [nextTokens, nextTokens]
          by_cases hKind :
              (nextKind (skipBlank false false text).2).1 = .EOS
          · simp only [if_pos hKind]
          · simp only [if_neg hKind]
            have hLt := drop_length_lt hKind
            congr 1
            apply ih
            · omega
            · omega

theorem lexType_cons
    {text blank : List Char}
    {newLine : Bool}
    {kind : TokenKind}
    {length : Nat}
    (hBlank : skipBlank false false text = (newLine, blank))
    (hNext : nextKind blank = (kind, length))
    (hKind : kind ≠ .EOS) :
    lexType text =
      ⟨kind, String.ofList (blank.take length), newLine⟩ ::
        lexType (blank.drop length) := by
  have hNot :
      (nextKind (skipBlank false false text).2).1 ≠ .EOS := by
    rw [hBlank, hNext]
    exact hKind
  have hLt := drop_length_lt hNot
  rw [lexType, nextTokens]
  simp only [if_neg hNot]
  simp only [hBlank, hNext] at hLt ⊢
  rw [lexType, nextTokens_limit hLt (Nat.lt_succ_self _)]

/- A space before a token is no part of it. -/
theorem lexType_space (text : List Char) :
    lexType (' ' :: text) = lexType text := by
  have hBlank :
      skipBlank false false (' ' :: text) =
        skipBlank false false text := rfl
  by_cases hKind :
      (nextKind (skipBlank false false text).2).1 = .EOS
  · rw [lexType, lexType, nextTokens, nextTokens]
    simp only [hBlank, if_pos hKind]
  · have hNext :
        nextKind (skipBlank false false text).2 =
          ((nextKind (skipBlank false false text).2).1,
            (nextKind (skipBlank false false text).2).2) := rfl
    rw [lexType_cons hBlank hNext hKind,
      lexType_cons rfl hNext hKind]

----
-- Symbols
----

/- A token of one character. -/
def symbol (kind : TokenKind) (c : Char) : Token :=
  ⟨kind, String.ofList [c], false⟩

theorem lexType_symbol
    {kind : TokenKind}
    {c : Char}
    {text : List Char}
    (hBlank :
      skipBlank false false (c :: text) = (false, c :: text))
    (hNext : nextKind (c :: text) = (kind, 1))
    (hKind : kind ≠ .EOS) :
    lexType (c :: text) = symbol kind c :: lexType text :=
  lexType_cons hBlank hNext hKind

/- What may stand after a name in a longer name. -/
def Boundary (text : List Char) : Prop :=
  ∀ c, text.head? = some c → c ∈ [',', ')', ']', '!', ' ']

theorem Boundary.nil : Boundary [] := by
  rintro c ⟨⟩

theorem Boundary.cons
    {c : Char}
    (text : List Char)
    (hMem : c ∈ [',', ')', ']', '!', ' ']) :
    Boundary (c :: text) := by
  rintro _ ⟨⟩
  exact hMem

theorem lexType_open (text : List Char) :
    lexType ('(' :: text) =
      symbol .PTYPE_OPEN '(' :: lexType text :=
  lexType_symbol rfl rfl (by decide)

theorem lexType_close (text : List Char) :
    lexType (')' :: text) =
      symbol .PTYPE_CLOSE ')' :: lexType text :=
  lexType_symbol rfl rfl (by decide)

theorem lexType_squareOpen (text : List Char) :
    lexType ('[' :: text) =
      symbol .ATYPE_OPEN '[' :: lexType text :=
  lexType_symbol rfl rfl (by decide)

theorem lexType_squareClose (text : List Char) :
    lexType (']' :: text) =
      symbol .ATYPE_CLOSE ']' :: lexType text :=
  lexType_symbol rfl rfl (by decide)

theorem lexType_comma (text : List Char) :
    lexType (',' :: text) =
      symbol .TYPE_SEP ',' :: lexType text :=
  lexType_symbol rfl rfl (by decide)

theorem lexType_colon (text : List Char) :
    lexType (' ' :: ':' :: ' ' :: text) =
      symbol .TYPE_MSEP ':' :: lexType text := by
  have hColon :
      lexType (':' :: ' ' :: text) =
        symbol .TYPE_MSEP ':' :: lexType (' ' :: text) :=
    lexType_symbol rfl rfl (by decide)
  rw [lexType_space, hColon, lexType_space]

theorem lexType_bang
    {text : List Char}
    (hText : Boundary text) :
    lexType ('!' :: text) =
      symbol .TYPE_OPT '!' :: lexType text := by
  apply lexType_symbol rfl _ (by decide)
  cases text with
  | nil => rfl
  | cons c rest =>
      have hMem := hText c rfl
      simp only [List.mem_cons, List.not_mem_nil, or_false]
        at hMem
      rcases hMem with h | h | h | h | h
      all_goals
        subst h
        rfl

def arrow : Token :=
  ⟨.TYPE_ARROW, "->", false⟩

theorem lexType_arrow (text : List Char) :
    lexType (ARROW ++ text) = arrow :: lexType text := by
  have hBlank :
      skipBlank false false ('-' :: '>' :: ' ' :: text) =
        (false, '-' :: '>' :: ' ' :: text) := rfl
  have hNext :
      nextKind ('-' :: '>' :: ' ' :: text) = (.TYPE_ARROW, 2) :=
    rfl
  have hArrow := lexType_cons hBlank hNext (by decide)
  calc
    lexType (ARROW ++ text)
        = lexType ('-' :: '>' :: ' ' :: text) := lexType_space _
    _ = arrow :: lexType (' ' :: text) := hArrow
    _ = arrow :: lexType text := by rw [lexType_space]

----
-- Words
----

/- A name that the lexer reads as one token. -/
structure IsWord (name : List Char) : Prop where
  head : ∃ c rest, name = c :: rest ∧ isNameHead c = true
  chars : ∀ c ∈ name, isNameChar c = true
  kind : nameKind (String.ofList name) ≠ .TYPEOF

def wordToken (name : List Char) : Token :=
  ⟨nameKind (String.ofList name), String.ofList name, false⟩

theorem nameKind_ne_eos (name : String) :
    nameKind name ≠ .EOS := by
  rw [nameKind]
  split_ifs <;> rintro ⟨⟩

theorem skipBlank_word
    {c : Char}
    (rest : List Char)
    (hHead : isNameHead c = true) :
    skipBlank false false (c :: rest) = (false, c :: rest) := by
  have hNot :
      isNewLine c = false ∧ ¬(c = ' ' ∨ c = '\t') ∧ c ≠ '#' := by
    refine ⟨?_, ?_, ?_⟩
    · by_contra hNew
      simp only [isNewLine, Bool.not_eq_false, Bool.or_eq_true,
        beq_iff_eq] at hNew
      rcases hNew with h | h
      all_goals
        subst h
        exact absurd hHead (by decide)
    · rintro (h | h)
      all_goals
        subst h
        exact absurd hHead (by decide)
    · rintro rfl
      exact absurd hHead (by decide)
  rw [skipBlank.eq_def]
  split
  case h_4 hEq =>
    cases hEq
    simp [hNot.1, hNot.2.1, hNot.2.2]
  case h_1 hEq => cases hEq
  all_goals
    rename_i hEq
    cases hEq
    exact absurd hHead (by decide)

theorem nextKind_word
    {c : Char}
    (rest : List Char)
    (hHead : isNameHead c = true) :
    nextKind (c :: rest) =
      (nameKind (String.ofList (c :: rest.takeWhile isNameChar)),
        (c :: rest.takeWhile isNameChar).length) := by
  rw [nextKind.eq_def]
  split
  case h_16 hEq =>
    cases hEq
    rw [if_pos hHead]
  case h_1 hEq => cases hEq
  all_goals
    rename_i hEq
    cases hEq
    exact absurd hHead (by decide)

theorem Boundary.takeWhile
    {text : List Char}
    (hText : Boundary text) :
    text.takeWhile isNameChar = [] := by
  cases text with
  | nil => rfl
  | cons c rest =>
      have hAll :
          [',', ')', ']', '!', ' '].all
              (fun c => !isNameChar c) = true := by
        decide
      have hNot := List.all_eq_true.mp hAll c (hText c rfl)
      rw [List.takeWhile_cons, if_neg (by simpa using hNot)]

theorem lexType_word
    {name rest : List Char}
    (hName : IsWord name)
    (hRest : Boundary rest) :
    lexType (name ++ rest) = wordToken name :: lexType rest := by
  rcases hName.head with ⟨c, tail, hEq, hHead⟩
  have hTail :
      (tail ++ rest).takeWhile isNameChar = tail := by
    rw [List.takeWhile_append_of_pos, hRest.takeWhile,
      List.append_nil]
    intro found hMem
    apply hName.chars
    rw [hEq]
    exact List.mem_cons_of_mem _ hMem
  have hNext := nextKind_word (tail ++ rest) hHead
  rw [hTail] at hNext
  have hLex :=
    lexType_cons (skipBlank_word (tail ++ rest) hHead) hNext
      (nameKind_ne_eos _)
  rw [hEq, List.cons_append, hLex]
  simp [wordToken]

----
-- Texts That Are Put Together
----

/- The text is read as the tokens, whatever stands after it. -/
def Lexes (text : List Char) (tokens : List Token) : Prop :=
  ∀ rest, Boundary rest →
    lexType (text ++ rest) = tokens ++ lexType rest

namespace Lexes

variable {text text' : List Char}
variable {tokens tokens' : List Token}

theorem of_word (hName : IsWord text) :
    Lexes text [wordToken text] :=
  fun _ hRest => lexType_word hName hRest

theorem nil : Lexes [] [] :=
  fun _ _ => rfl

/- Elements in square brackets. -/
theorem array (hText : Lexes text tokens) :
    Lexes ('[' :: (text ++ [']']))
      (symbol .ATYPE_OPEN '[' ::
        (tokens ++ [symbol .ATYPE_CLOSE ']'])) := by
  intro rest _
  have hBoundary : Boundary (']' :: rest) :=
    .cons rest (by decide)
  have hLex := hText _ hBoundary
  simp only [List.cons_append, List.append_assoc,
    List.nil_append, lexType_squareOpen, hLex,
    lexType_squareClose]

theorem map
    (hText : Lexes text tokens)
    (hText' : Lexes text' tokens') :
    Lexes
      ('[' :: (text ++ ' ' :: ':' :: ' ' :: (text' ++ [']'])))
      (symbol .ATYPE_OPEN '[' ::
        (tokens ++ symbol .TYPE_MSEP ':' ::
          (tokens' ++ [symbol .ATYPE_CLOSE ']']))) := by
  intro rest _
  have hClose : Boundary (']' :: rest) :=
    .cons rest (by decide)
  have hColon :
      Boundary (' ' :: ':' :: ' ' :: (text' ++ ']' :: rest)) :=
    .cons _ (by decide)
  have hLex := hText _ hColon
  have hLex' := hText' _ hClose
  simp only [List.cons_append, List.append_assoc,
    List.nil_append, lexType_squareOpen, hLex, lexType_colon,
    hLex', lexType_squareClose]

/- Elements between parentheses. -/
theorem parens (hText : Lexes text tokens) :
    Lexes ('(' :: (text ++ [')']))
      (symbol .PTYPE_OPEN '(' ::
        (tokens ++ [symbol .PTYPE_CLOSE ')'])) := by
  intro rest _
  have hBoundary : Boundary (')' :: rest) :=
    .cons rest (by decide)
  have hLex := hText _ hBoundary
  simp only [List.cons_append, List.append_assoc,
    List.nil_append, lexType_open, hLex, lexType_close]

theorem comma (hText : Lexes text tokens) :
    Lexes (text ++ [',']) (tokens ++ [symbol .TYPE_SEP ',']) := by
  intro rest _
  have hBoundary : Boundary (',' :: rest) :=
    .cons rest (by decide)
  have hLex := hText _ hBoundary
  simp only [List.append_assoc, List.cons_append,
    List.nil_append, hLex, lexType_comma]

/- The second text stands after a comma and a space. -/
theorem more
    (hText : Lexes text tokens)
    (hText' : Lexes text' tokens') :
    Lexes (text ++ (COMMA ++ text'))
      (tokens ++ symbol .TYPE_SEP ',' :: tokens') := by
  intro rest hRest
  have hBoundary :
      Boundary (',' :: ' ' :: (text' ++ rest)) :=
    .cons _ (by decide)
  have hLex := hText _ hBoundary
  have hLex' := hText' _ hRest
  simp only [List.append_assoc, List.cons_append,
    List.nil_append, hLex, lexType_comma, lexType_space, hLex']

theorem function
    (hText : Lexes text tokens)
    (hText' : Lexes text' tokens') :
    Lexes ('(' :: (text ++ ')' :: (ARROW ++ text')))
      (symbol .PTYPE_OPEN '(' ::
        (tokens ++ symbol .PTYPE_CLOSE ')' ::
          arrow :: tokens')) := by
  intro rest hRest
  have hBoundary :
      Boundary (')' :: (ARROW ++ (text' ++ rest))) :=
    .cons _ (by decide)
  have hLex := hText _ hBoundary
  have hLex' := hText' _ hRest
  have hArrow := lexType_arrow (text' ++ rest)
  simp only [List.cons_append, List.append_assoc,
    List.nil_append] at hLex hArrow ⊢
  simp only [lexType_open, hLex, lexType_close, hArrow, hLex']

theorem bang (hText : Lexes text tokens) :
    Lexes (text ++ ['!']) (tokens ++ [symbol .TYPE_OPT '!']) := by
  intro rest hRest
  have hBoundary : Boundary ('!' :: rest) :=
    .cons rest (by decide)
  have hLex := hText _ hBoundary
  simp only [List.append_assoc, List.cons_append,
    List.nil_append, hLex, lexType_bang hRest]

end Lexes

end Pool

end Ydsh
