import Mathlib.Data.List.Forall2
import Ydsh.Type.Lexing
import Ydsh.Type.Usable

/-
  Type names are read back.

  The lexer splits the name of a type into the tokens of its
  parts, the parser puts them together in the same way, and
  the pool finds each type under the name it was made with.

  Main declarations:
    * `Nameable`
    * `Reads`
    * `Nameable.reads`
-/

----
-- Where a Name Ends
----

namespace Ydsh

namespace Pool

open Library

/- The parser for a name with arguments, one call deeper. -/
def basicAt
    (parser : TypeParser) : Nat → String → TypeNameParser
  | 0 => fun _ => tooDeep
  | remaining + 1 =>
      parse_basicOrReifiedType parser
        (parse_typeName parser remaining)

/- Nothing but `!` that belongs to a name stands here. -/
def EndsBasic (tokens : List Token) : Prop :=
  curKind tokens ∉ [.TYPE_OPEN, .TYPE_DOT, .TYPE_ARROW]

/- Nothing that belongs to a name stands here. -/
def EndsName (tokens : List Token) : Prop :=
  curKind tokens ∉
    [.TYPE_OPEN, .TYPE_DOT, .TYPE_ARROW, .TYPE_OPT]

variable {parser : TypeParser}
variable {parse parse' : TypeNameParser}
variable {tokens rest : List Token}

theorem EndsName.basic (hRest : EndsName rest) :
    EndsBasic rest := by
  intro hMem
  apply hRest
  exact List.mem_append_left [.TYPE_OPT] hMem

theorem EndsBasic.ne
    {kind : TokenKind}
    (hRest : EndsBasic rest)
    (hKind : kind ∈ [.TYPE_OPEN, .TYPE_DOT, .TYPE_ARROW]) :
    curKind rest ≠ kind := by
  rintro rfl
  exact hRest hKind

theorem EndsName.ne_opt (hRest : EndsName rest) :
    curKind rest ≠ .TYPE_OPT := by
  intro hEq
  apply hRest
  rw [hEq]
  decide

theorem parse_typeName_succ (remaining : Nat) :
    parse_typeName parser (remaining + 1) =
      parseWithOptions parser (parse_typeName parser remaining)
        (basicAt parser remaining) := by
  cases remaining with
  | zero => rfl
  | succ remaining => rfl

theorem parseQualified_end
    (limit : Nat)
    (type : TypeNode)
    (hRest : EndsBasic rest) :
    parseQualified parser limit type rest =
      .ok (type, rest) := by
  cases limit with
  | zero => rfl
  | succ limit =>
      have hDot : curKind rest ≠ .TYPE_DOT :=
        hRest.ne (by decide)
      rw [parseQualified, if_neg]
      simp [hDot]

theorem parse_basicOrReifiedType_end
    (name : String)
    (hRest : EndsBasic rest) :
    parse_basicOrReifiedType parser parse name rest =
      .ok (.base name, rest) := by
  have hOpen : curKind rest ≠ .TYPE_OPEN :=
    hRest.ne (by decide)
  rw [parse_basicOrReifiedType, if_neg hOpen,
    parseQualified_end _ _ hRest, ite_self]

theorem parseFuncType_end
    (name : String)
    (hRest : EndsBasic rest) :
    parseFuncType parser parse name rest =
      .ok (.base name, rest) := by
  have hOpen : curKind rest ≠ .TYPE_OPEN :=
    hRest.ne (by decide)
  rw [parseFuncType, if_neg]
  simp [hOpen]

theorem parseOptions_end
    (limit : Nat)
    (type : TypeNode)
    (hRest : EndsName rest) :
    parseOptions parser limit type rest = .ok (type, rest) := by
  cases limit with
  | zero => rfl
  | succ limit =>
      rw [parseOptions, if_neg]
      simp [hRest.ne_opt]

abbrev bang : Token := symbol .TYPE_OPT '!'

theorem endsBasic_bang : EndsBasic (bang :: rest) := by
  change TokenKind.TYPE_OPT ∉ _
  decide

/- A `!` makes an option type of what stands before it. -/
theorem parseOptions_bang
    (type : TypeNode)
    (hRest : EndsName rest) :
    parseOptions parser (bang :: rest).length type
        (bang :: rest) =
      .ok (.reified "Option" [type], rest) := by
  rw [List.length_cons, parseOptions, if_pos]
  · exact parseOptions_end _ _ hRest
  · rfl

----
-- One Type
----

theorem parseWithOptions_end
    {parseBasic : String → TypeNameParser}
    {node : TypeNode}
    (hRest : EndsName rest)
    (hParse :
      parse_typeNameImpl parser parse parseBasic tokens =
        .ok (node, rest)) :
    parseWithOptions parser parse parseBasic tokens =
      .ok (node, rest) := by
  rw [parseWithOptions, hParse]
  exact parseOptions_end _ _ hRest

theorem parseWithOptions_bang
    {parseBasic : String → TypeNameParser}
    {node : TypeNode}
    (hRest : EndsName rest)
    (hParse :
      parse_typeNameImpl parser parse parseBasic tokens =
        .ok (node, bang :: rest)) :
    parseWithOptions parser parse parseBasic tokens =
      .ok (.reified "Option" [node], rest) := by
  rw [parseWithOptions, hParse]
  exact parseOptions_bang _ hRest

theorem parse_typeNameImpl_word
    {name : List Char}
    (hName : IsWord name)
    (hRest : EndsBasic rest) :
    parse_typeNameImpl parser parse
        (parse_basicOrReifiedType parser parse')
        (wordToken name :: rest) =
      .ok (.base (String.ofList name), rest) := by
  have hKind :
      nameKind (String.ofList name) = .FUNC ∨
        nameKind (String.ofList name) = .IDENTIFIER := by
    have hNot := hName.kind
    rw [nameKind] at hNot ⊢
    split_ifs at hNot ⊢
    · exact .inl rfl
    · exact absurd rfl hNot
    · exact .inr rfl
  rw [parse_typeNameImpl, wordToken]
  rcases hKind with hKind | hKind
  · simp only [hKind]
    exact parseFuncType_end _ hRest
  · simp only [hKind]
    exact parse_basicOrReifiedType_end _ hRest

/- The parser reads the tokens as the tree, up to an end. -/
def ParsesAs
    (parse : TypeNameParser)
    (tokens : List Token)
    (node : TypeNode) : Prop :=
  ∀ rest, EndsName rest →
    parse (tokens ++ rest) = .ok (node, rest)

abbrev comma : Token := symbol .TYPE_SEP ','
abbrev colon : Token := symbol .TYPE_MSEP ':'
abbrev parenOpen : Token := symbol .PTYPE_OPEN '('
abbrev parenClose : Token := symbol .PTYPE_CLOSE ')'
abbrev squareOpen : Token := symbol .ATYPE_OPEN '['
abbrev squareClose : Token := symbol .ATYPE_CLOSE ']'

theorem endsName_of_kind
    {token : Token}
    (hKind :
      token.kind ∉
        [.TYPE_OPEN, .TYPE_DOT, .TYPE_ARROW, .TYPE_OPT]) :
    EndsName (token :: rest) :=
  hKind

theorem parseBracketType_array
    {node : TypeNode}
    (hParse : ParsesAs parse tokens node) :
    parseBracketType parse (tokens ++ squareClose :: rest) =
      .ok (.reified "Array" [node], rest) := by
  have hElement :=
    hParse (squareClose :: rest) (endsName_of_kind (by decide))
  simp only [parseBracketType, hElement]
  rfl

theorem parseBracketType_map
    {tokens' : List Token}
    {node node' : TypeNode}
    (hParse : ParsesAs parse tokens node)
    (hParse' : ParsesAs parse tokens' node') :
    parseBracketType parse
        (tokens ++ colon :: (tokens' ++ squareClose :: rest)) =
      .ok (.reified "Map" [node, node'], rest) := by
  have hKey :=
    hParse (colon :: (tokens' ++ squareClose :: rest))
      (endsName_of_kind (by decide))
  have hValue :=
    hParse' (squareClose :: rest) (endsName_of_kind (by decide))
  have hColon :
      curKind (colon :: (tokens' ++ squareClose :: rest)) =
        .TYPE_MSEP := rfl
  simp only [parseBracketType, hKey, if_pos hColon,
    List.tail_cons, hValue]
  rfl

----
-- Types in Parentheses
----

/- The tokens of a type and the tree they are read as. -/
structure Reading where
  node : TypeNode
  tokens : List Token

/- A reading of one type of a list. -/
structure Reading.Fits
    (parse : TypeNameParser)
    (reading : Reading) : Prop where
  parses : ParsesAs parse reading.tokens reading.node
  ne_nil : reading.tokens ≠ []
  head : curKind reading.tokens ≠ .PTYPE_CLOSE

abbrev joinTokens (readings : List Reading) : List Token :=
  [comma].intercalate (readings.map Reading.tokens)

namespace Reading.Fits

variable {reading : Reading}

theorem curKind_append
    (hFits : reading.Fits parse)
    (rest : List Token) :
    curKind (reading.tokens ++ rest) ≠ .PTYPE_CLOSE := by
  have hHead := hFits.head
  cases hTokens : reading.tokens with
  | nil => exact absurd hTokens hFits.ne_nil
  | cons token tokens =>
      rw [hTokens] at hHead
      exact hHead

/- One type, and a comma after it. -/
theorem parseParens_comma
    (hFits : reading.Fits parse)
    (limit : Nat)
    (types : List TypeNode)
    (count : Nat)
    (rest : List Token) :
    parseParens parse (limit + 1) types count
        (reading.tokens ++ comma :: rest) =
      parseParens parse limit (types ++ [reading.node])
        (count + 1) rest := by
  have hParse :=
    hFits.parses (comma :: rest) (endsName_of_kind (by decide))
  have hComma : curKind (comma :: rest) = .TYPE_SEP := rfl
  rw [parseParens, if_neg (hFits.curKind_append _), hParse]
  simp only [if_pos hComma, List.tail_cons]

/- The last type. -/
theorem parseParens_last
    (hFits : reading.Fits parse)
    (limit : Nat)
    (types : List TypeNode)
    (count : Nat)
    (rest : List Token) :
    parseParens parse (limit + 2) types count
        (reading.tokens ++ parenClose :: rest) =
      .ok ((types ++ [reading.node], count),
        parenClose :: rest) := by
  have hParse :=
    hFits.parses (parenClose :: rest)
      (endsName_of_kind (by decide))
  have hComma :
      curKind (parenClose :: rest) ≠ .TYPE_SEP := by
    change TokenKind.PTYPE_CLOSE ≠ .TYPE_SEP
    decide
  have hClose :
      curKind (parenClose :: rest) = .PTYPE_CLOSE := rfl
  rw [parseParens, if_neg (hFits.curKind_append _), hParse]
  simp only [if_neg hComma, if_pos hClose]
  rw [parseParens, if_pos hClose]

end Reading.Fits

theorem parseParens_close
    (limit : Nat)
    (types : List TypeNode)
    (count : Nat)
    (rest : List Token) :
    parseParens parse limit types count (parenClose :: rest) =
      .ok ((types, count), parenClose :: rest) := by
  cases limit with
  | zero => rfl
  | succ limit =>
      have hClose :
          curKind (parenClose :: rest) = .PTYPE_CLOSE := rfl
      rw [parseParens, if_pos hClose]

theorem parseParens_all
    {readings : List Reading}
    {limit : Nat}
    (types : List TypeNode)
    (count : Nat)
    (rest : List Token)
    (hFits : ∀ reading ∈ readings, reading.Fits parse)
    (hLimit : readings.length < limit) :
    parseParens parse limit types count
        (joinTokens readings ++ parenClose :: rest) =
      .ok
        ((types ++ readings.map Reading.node,
            count + (readings.length - 1)),
          parenClose :: rest) := by
  induction readings generalizing limit types count with
  | nil =>
      rw [List.map_nil, List.append_nil]
      exact parseParens_close _ _ _ _
  | cons reading readings ih =>
      have hFirst := hFits reading List.mem_cons_self
      have hRest :
          ∀ found ∈ readings, found.Fits parse :=
        fun found hMem =>
          hFits found (List.mem_cons_of_mem _ hMem)
      rw [List.length_cons] at hLimit
      cases readings with
      | nil =>
          rw [joinTokens, List.map_singleton,
            List.intercalate_singleton]
          rcases Nat.exists_eq_add_of_lt hLimit with ⟨more, hEq⟩
          have hLimitEq : limit = more + 2 := by
            simp only [List.length_nil] at hEq
            omega
          rw [hLimitEq]
          exact hFirst.parseParens_last more types count rest
      | cons next readings =>
          rcases Nat.exists_eq_add_of_lt hLimit with ⟨more, hEq⟩
          have hLimitEq :
              limit = (next :: readings).length + more + 1 + 1 := by
            rw [hEq]
            omega
          have hJoin :
              joinTokens (reading :: next :: readings) =
                reading.tokens ++
                  comma :: joinTokens (next :: readings) := by
            simp only [joinTokens, List.map_cons,
              List.intercalate_cons_cons]
            rw [List.append_assoc, List.singleton_append]
          rw [hJoin, List.append_assoc, List.cons_append,
            hLimitEq, hFirst.parseParens_comma,
            ih (types ++ [reading.node]) (count + 1) hRest
              (by omega)]
          simp only [List.map_cons, List.append_assoc,
            List.singleton_append, List.length_cons]
          congr 3
          omega

theorem length_le_joinTokens
    {readings : List Reading}
    (hFits : ∀ reading ∈ readings, reading.Fits parse) :
    readings.length ≤ (joinTokens readings).length := by
  induction readings with
  | nil => exact Nat.zero_le _
  | cons reading readings ih =>
      have hPos :=
        List.length_pos_iff.mpr
          (hFits reading List.mem_cons_self).ne_nil
      have hRest :=
        ih (fun found hMem =>
          hFits found (List.mem_cons_of_mem _ hMem))
      cases readings with
      | nil =>
          rw [joinTokens, List.map_singleton,
            List.intercalate_singleton]
          exact hPos
      | cons next readings =>
          simp only [joinTokens, List.map_cons,
            List.intercalate_cons_cons, List.length_append,
            List.length_cons] at hRest ⊢
          omega

/- The types in parentheses, with room for all of them. -/
theorem parseParens_joinTokens
    {readings : List Reading}
    (rest : List Token)
    (hFits : ∀ reading ∈ readings, reading.Fits parse) :
    parseParens parse
        ((joinTokens readings ++ parenClose :: rest).length + 1)
        [] 0 (joinTokens readings ++ parenClose :: rest) =
      .ok
        ((readings.map Reading.node, readings.length - 1),
          parenClose :: rest) := by
  have hLength := length_le_joinTokens hFits
  rw [parseParens_all [] 0 rest hFits, List.nil_append,
    Nat.zero_add]
  rw [List.length_append]
  omega

theorem parseParenType_tuple
    {readings : List Reading}
    (hRest : EndsBasic rest)
    (hTwo : 2 ≤ readings.length)
    (hFits : ∀ reading ∈ readings, reading.Fits parse) :
    parseParenType parse
        (joinTokens readings ++ parenClose :: rest) =
      .ok
        (.reified "Tuple" (readings.map Reading.node), rest) := by
  have hArrow : curKind rest ≠ .TYPE_ARROW :=
    hRest.ne (by decide)
  have hExpect :
      expect .PTYPE_CLOSE (parenClose :: rest) = .ok rest := rfl
  have hSome :
      (readings.map Reading.node).isEmpty = false := by
    cases readings with
    | nil => simp at hTwo
    | cons reading readings => rfl
  have hCount : readings.length - 1 ≠ 0 := by omega
  rw [parseParenType, parseParens_joinTokens rest hFits]
  simp only [hExpect, hSome, Bool.false_or, decide_eq_true_eq,
    if_neg hArrow, createTupleOrBasicType, if_neg hCount]

theorem parseParenType_single
    {reading : Reading}
    (hRest : EndsBasic rest)
    (hFits : reading.Fits parse) :
    parseParenType parse
        (reading.tokens ++ comma :: parenClose :: rest) =
      .ok (.reified "Tuple" [reading.node], rest) := by
  have hArrow : curKind rest ≠ .TYPE_ARROW :=
    hRest.ne (by decide)
  have hExpect :
      expect .PTYPE_CLOSE (parenClose :: rest) = .ok rest := rfl
  rw [parseParenType, hFits.parseParens_comma,
    parseParens_close]
  simp only [hExpect, List.nil_append, List.isEmpty_cons,
    Bool.false_or, decide_eq_true_eq, if_neg hArrow]
  rfl

/- Parentheses that only group. -/
theorem parseParenType_group
    {reading : Reading}
    (hRest : EndsBasic rest)
    (hFits : reading.Fits parse) :
    parseParenType parse
        (reading.tokens ++ parenClose :: rest) =
      .ok (reading.node, rest) := by
  have hArrow : curKind rest ≠ .TYPE_ARROW :=
    hRest.ne (by decide)
  have hExpect :
      expect .PTYPE_CLOSE (parenClose :: rest) = .ok rest := rfl
  have hLast :=
    parseParens_joinTokens rest
      (by simpa using hFits :
        ∀ found ∈ [reading], found.Fits parse)
  rw [joinTokens, List.map_singleton,
    List.intercalate_singleton] at hLast
  rw [parseParenType, hLast]
  simp only [hExpect, List.map_singleton, List.isEmpty_cons,
    Bool.false_or, decide_eq_true_eq, if_neg hArrow]
  rfl

theorem parseParenType_function
    {readings : List Reading}
    {tokens' : List Token}
    {node : TypeNode}
    (hRest : EndsName rest)
    (hFits : ∀ reading ∈ readings, reading.Fits parse)
    (hParse : ParsesAs parse tokens' node) :
    parseParenType parse
        (joinTokens readings ++
          parenClose :: arrow :: (tokens' ++ rest)) =
      .ok (.func node (readings.map Reading.node), rest) := by
  have hClose :
      expect .PTYPE_CLOSE
          (parenClose :: arrow :: (tokens' ++ rest)) =
        .ok (arrow :: (tokens' ++ rest)) := rfl
  have hArrow :
      curKind (arrow :: (tokens' ++ rest)) = .TYPE_ARROW := rfl
  have hExpect :
      expect .TYPE_ARROW (arrow :: (tokens' ++ rest)) =
        .ok (tokens' ++ rest) := rfl
  rw [parseParenType, parseParens_joinTokens _ hFits]
  simp only [hClose, hArrow, decide_true, Bool.or_true, if_true,
    hExpect, hParse rest hRest]

----
-- Names of Made Types
----

namespace TypePool

namespace Usable

variable {pool : TypePool}
variable {id : TypeId}
variable (hPool : pool.Usable)

include hPool

theorem word_eq
    {shape : TypeShape}
    (hMade : IsMade shape)
    (hShape : (pool.get id).shape = shape) :
    pool.word id = (pool.shapeName shape).toList := by
  have hLt : id < pool.size := by
    apply lt_of_shape
    rw [hShape]
    rintro rfl
    exact hMade
  have hMade' : IsMade (pool.get id).shape := by
    rw [hShape]
    exact hMade
  have hName :=
    hPool.interned.named id _ (getElem?_of_lt hLt) hMade'
  rw [word, getName, hName, hShape]

theorem word_array
    {element : TypeId}
    (hShape : (pool.get id).shape = .reified .array [element]) :
    pool.word id = '[' :: (pool.word element ++ [']']) := by
  have hMade : IsMade (.reified .array [element]) := trivial
  rw [hPool.word_eq hMade hShape]
  simp [shapeName, toReifiedTypeName, word]

theorem word_map
    {key value : TypeId}
    (hShape : (pool.get id).shape = .reified .map [key, value]) :
    pool.word id =
      '[' :: (pool.word key ++
        ' ' :: ':' :: ' ' :: (pool.word value ++ [']'])) := by
  have hMade : IsMade (.reified .map [key, value]) := trivial
  rw [hPool.word_eq hMade hShape]
  simp [shapeName, toReifiedTypeName, word]

theorem word_single
    {element : TypeId}
    (hShape : (pool.get id).shape = .reified .tuple [element]) :
    pool.word id = '(' :: (pool.word element ++ [',', ')']) := by
  have hMade : IsMade (.reified .tuple [element]) := trivial
  rw [hPool.word_eq hMade hShape]
  simp [shapeName, toTupleTypeName, joinNames, word]

theorem word_tuple
    {elements : List TypeId}
    (hTwo : 2 ≤ elements.length)
    (hShape : (pool.get id).shape = .reified .tuple elements) :
    pool.word id =
      '(' :: (COMMA.intercalate (elements.map pool.word) ++
        [')']) := by
  have hMade : IsMade (.reified .tuple elements) := trivial
  have hOne : elements.length ≠ 1 := by omega
  rw [hPool.word_eq hMade hShape, shapeName, toTupleTypeName,
    String.toList_append, String.toList_append,
    String.toList_append, joinNames_toList, map_getName_toList,
    if_neg hOne]
  simp

theorem word_function
    {ret : TypeId}
    {params : List TypeId}
    (hShape : (pool.get id).shape = .function ret params) :
    pool.word id =
      '(' :: (COMMA.intercalate (params.map pool.word) ++
        ')' :: (ARROW ++ pool.word ret)) := by
  have hMade : IsMade (.function ret params) := trivial
  rw [hPool.word_eq hMade hShape, shapeName,
    toFunctionTypeName, String.toList_append,
    String.toList_append, String.toList_append,
    joinNames_toList, map_getName_toList]
  simp [word]

theorem word_option
    {element : TypeId}
    (hFunc : (pool.get element).isFuncType = false)
    (hShape : (pool.get id).shape = .reified .option [element]) :
    pool.word id = pool.word element ++ ['!'] := by
  have hMade : IsMade (.reified .option [element]) := trivial
  rw [hPool.word_eq hMade hShape]
  simp [shapeName, toReifiedTypeName, word, hFunc]

theorem word_optionFunc
    {element : TypeId}
    (hFunc : (pool.get element).isFuncType = true)
    (hShape : (pool.get id).shape = .reified .option [element]) :
    pool.word id = '(' :: (pool.word element ++ [')', '!']) := by
  have hMade : IsMade (.reified .option [element]) := trivial
  rw [hPool.word_eq hMade hShape]
  simp [shapeName, toReifiedTypeName, word, hFunc]

end Usable

end TypePool

----
-- Nameable Types
----

/-
  Types built from predefined types that are named by a word.
  The number bounds how deep the calls of the parser that read
  the name are nested.
-/
inductive Nameable (pool : TypePool) : Nat → TypeId → Prop where
  | builtin {depth : Nat} {id : TypeId} :
      (pool.get id).shape = .builtin →
      IsWord (pool.word id) →
      Nameable pool (depth + 2) id
  | array {depth : Nat} {id element : TypeId} :
      (pool.get id).shape = .reified .array [element] →
      Nameable pool depth element →
      Nameable pool (depth + 1) id
  | map {depth : Nat} {id key value : TypeId} :
      (pool.get id).shape = .reified .map [key, value] →
      Nameable pool depth key →
      Nameable pool depth value →
      Nameable pool (depth + 1) id
  | tuple {depth : Nat} {id : TypeId} {elements : List TypeId} :
      (pool.get id).shape = .reified .tuple elements →
      (∀ element ∈ elements, Nameable pool depth element) →
      Nameable pool (depth + 1) id
  | function
      {depth : Nat} {id ret : TypeId} {params : List TypeId} :
      (pool.get id).shape = .function ret params →
      Nameable pool depth ret →
      (∀ param ∈ params, Nameable pool depth param) →
      Nameable pool (depth + 1) id
  | option {depth : Nat} {id element : TypeId} :
      (pool.get id).shape = .reified .option [element] →
      (pool.get element).isFuncType = false →
      Nameable pool depth element →
      Nameable pool depth id
  | optionFunc {depth : Nat} {id element : TypeId} :
      (pool.get id).shape = .reified .option [element] →
      (pool.get element).isFuncType = true →
      Nameable pool depth element →
      Nameable pool (depth + 1) id

/- The name of the type is read as the tree, and it means it. -/
structure Reads
    (scope : TypeScope)
    (table : NativeTable)
    (parser : TypeParser)
    (pool : TypePool)
    (depth : Nat)
    (id : TypeId)
    (reading : Reading) : Prop where
  lexes : Lexes (pool.word id) reading.tokens
  ne_nil : reading.tokens ≠ []
  head : curKind reading.tokens ≠ .PTYPE_CLOSE
  resolves :
    toType scope table pool reading.node = (pool, .ok id)
  parses :
    ∀ remaining, depth ≤ remaining →
      ParsesAs (parse_typeName parser remaining) reading.tokens
        reading.node
  basic :
    (pool.get id).isOptionType = false →
    (pool.get id).isFuncType = false →
    ∀ remaining rest, depth ≤ remaining + 1 → EndsBasic rest →
      parse_typeNameImpl parser (parse_typeName parser remaining)
          (basicAt parser remaining) (reading.tokens ++ rest) =
        .ok (reading.node, rest)

section

variable {scope : TypeScope}
variable {table : NativeTable}
variable {pool : TypePool}
variable {depth : Nat}
variable {id : TypeId}

namespace Reads

variable {reading : Reading}

theorem fits
    {remaining : Nat}
    (hReads :
      Reads scope table parser pool depth id reading)
    (hDepth : depth ≤ remaining) :
    reading.Fits (parse_typeName parser remaining) :=
  ⟨hReads.parses remaining hDepth, hReads.ne_nil, hReads.head⟩

/- A name that does not depend on a `!` after it. -/
theorem of_basic
    (hLexes : Lexes (pool.word id) reading.tokens)
    (hNe : reading.tokens ≠ [])
    (hHead : curKind reading.tokens ≠ .PTYPE_CLOSE)
    (hResolves :
      toType scope table pool reading.node = (pool, .ok id))
    (hBasic :
      ∀ remaining rest, depth ≤ remaining → EndsBasic rest →
        parse_typeNameImpl parser
            (parse_typeName parser remaining)
            (basicAt parser remaining) (reading.tokens ++ rest) =
          .ok (reading.node, rest)) :
    Reads scope table parser pool (depth + 1) id reading := by
  constructor
  · exact hLexes
  · exact hNe
  · exact hHead
  · exact hResolves
  · intro remaining hDepth rest hRest
    cases remaining with
    | zero => exact absurd hDepth (Nat.not_succ_le_zero _)
    | succ remaining =>
        rw [parse_typeName_succ]
        apply parseWithOptions_end hRest
        exact
          hBasic remaining rest (Nat.le_of_succ_le_succ hDepth)
            hRest.basic
  · intro _ _ remaining rest hDepth
    exact hBasic remaining rest (Nat.le_of_succ_le_succ hDepth)

theorem of_builtin
    (hWord : IsWord (pool.word id))
    (hLt : id < pool.size)
    (hPool : pool.Usable)
    (hAlias :
      scope.lookup
          (Scope.toTypeAliasFullName (pool.getName id)) =
        none) :
    Reads scope table parser pool (depth + 2) id
      ⟨.base (pool.getName id), [wordToken (pool.word id)]⟩ := by
  have hName :
      String.ofList (pool.word id) = pool.getName id :=
    String.ofList_toList
  apply of_basic
  · exact .of_word hWord
  · exact List.cons_ne_nil _ _
  · change nameKind _ ≠ _
    rw [nameKind]
    split_ifs <;> rintro ⟨⟩
  · have hFind := hPool.interned.find_getName hLt
    simp only [toType, toBaseType, hAlias, TypePool.getType,
      hFind]
  · intro remaining rest hDepth hRest
    cases remaining with
    | zero => exact absurd hDepth (Nat.not_succ_le_zero _)
    | succ remaining =>
        have hParse :
            parse_typeNameImpl parser
                (parse_typeName parser (remaining + 1))
                (parse_basicOrReifiedType parser
                  (parse_typeName parser remaining))
                (wordToken (pool.word id) :: rest) =
              .ok (.base (String.ofList (pool.word id)), rest) :=
          parse_typeNameImpl_word hWord hRest
        rw [hName] at hParse
        exact hParse

theorem array
    {element : TypeId}
    (hPool : pool.Usable)
    (hShape : (pool.get id).shape = .reified .array [element])
    (hElement :
      Reads scope table parser pool depth element reading) :
    Reads scope table parser pool (depth + 1) id
      ⟨.reified "Array" [reading.node],
        squareOpen :: (reading.tokens ++ [squareClose])⟩ := by
  apply of_basic
  · rw [hPool.word_array hShape]
    exact hElement.lexes.array
  · exact List.cons_ne_nil _ _
  · change TokenKind.ATYPE_OPEN ≠ _
    decide
  · have hTemplate :
        TypePool.getTypeTemplate "Array" = .ok .array := rfl
    have hSelf :
        pool.createReifiedType table .array [element] =
          .ok (pool, id) :=
      hPool.createReifiedType_self hShape
    simp only [toType, hTemplate, toTypes, hElement.resolves,
      hSelf, lookupError]
  · intro remaining rest hDepth _
    simp only [List.cons_append, List.append_assoc,
      List.nil_append]
    exact
      parseBracketType_array (hElement.parses remaining hDepth)

theorem map
    {key value : TypeId}
    {reading' : Reading}
    (hPool : pool.Usable)
    (hShape : (pool.get id).shape = .reified .map [key, value])
    (hKey : Reads scope table parser pool depth key reading)
    (hValue :
      Reads scope table parser pool depth value reading') :
    Reads scope table parser pool (depth + 1) id
      ⟨.reified "Map" [reading.node, reading'.node],
        squareOpen :: (reading.tokens ++
          colon :: (reading'.tokens ++ [squareClose]))⟩ := by
  apply of_basic
  · rw [hPool.word_map hShape]
    exact hKey.lexes.map hValue.lexes
  · exact List.cons_ne_nil _ _
  · change TokenKind.ATYPE_OPEN ≠ _
    decide
  · have hTemplate :
        TypePool.getTypeTemplate "Map" = .ok .map := rfl
    have hSelf :
        pool.createReifiedType table .map [key, value] =
          .ok (pool, id) :=
      hPool.createReifiedType_self hShape
    simp only [toType, hTemplate, toTypes, hKey.resolves,
      hValue.resolves, hSelf, lookupError]
  · intro remaining rest hDepth _
    simp only [List.cons_append, List.append_assoc,
      List.nil_append]
    exact
      parseBracketType_map (hKey.parses remaining hDepth)
        (hValue.parses remaining hDepth)

theorem option
    {element : TypeId}
    (hPool : pool.Usable)
    (hShape : (pool.get id).shape = .reified .option [element])
    (hFunc : (pool.get element).isFuncType = false)
    (hDepth : 0 < depth)
    (hElement :
      Reads scope table parser pool depth element reading) :
    Reads scope table parser pool depth id
      ⟨.reified "Option" [reading.node],
        reading.tokens ++ [bang]⟩ := by
  have hOption : (pool.get element).isOptionType = false := by
    rcases (hPool.of_shape hShape trivial).2.1 with
      ⟨inner, hEq, hNot⟩
    cases hEq
    exact hNot
  constructor
  · rw [hPool.word_option hFunc hShape]
    exact hElement.lexes.bang
  · exact List.append_ne_nil_of_left_ne_nil hElement.ne_nil _
  · have hHead := hElement.head
    cases hTokens : reading.tokens with
    | nil => exact absurd hTokens hElement.ne_nil
    | cons token tokens =>
        rw [hTokens] at hHead
        exact hHead
  · have hTemplate :
        TypePool.getTypeTemplate "Option" = .ok .option := rfl
    have hSelf :
        pool.createReifiedType table .option [element] =
          .ok (pool, id) :=
      hPool.createReifiedType_self hShape
    simp only [toType, hTemplate, toTypes, hElement.resolves,
      hSelf, lookupError]
  · intro remaining hLe rest hRest
    cases remaining with
    | zero => exact absurd hLe (Nat.not_le_of_gt hDepth)
    | succ remaining =>
        have hParse :=
          hElement.basic hOption hFunc remaining (bang :: rest)
            hLe endsBasic_bang
        rw [parse_typeName_succ, List.append_assoc]
        exact parseWithOptions_bang hRest hParse
  · intro hNot
    rw [PoolType.isOptionType, hShape] at hNot
    cases hNot

theorem optionFunc
    {element : TypeId}
    (hPool : pool.Usable)
    (hShape : (pool.get id).shape = .reified .option [element])
    (hFunc : (pool.get element).isFuncType = true)
    (hElement :
      Reads scope table parser pool depth element reading) :
    Reads scope table parser pool (depth + 1) id
      ⟨.reified "Option" [reading.node],
        parenOpen :: (reading.tokens ++ [parenClose, bang])⟩ := by
  constructor
  · have hParens := hElement.lexes.parens.bang
    simp only [List.cons_append, List.append_assoc,
      List.nil_append] at hParens
    rw [hPool.word_optionFunc hFunc hShape]
    exact hParens
  · exact List.cons_ne_nil _ _
  · change TokenKind.PTYPE_OPEN ≠ _
    decide
  · have hTemplate :
        TypePool.getTypeTemplate "Option" = .ok .option := rfl
    have hSelf :
        pool.createReifiedType table .option [element] =
          .ok (pool, id) :=
      hPool.createReifiedType_self hShape
    simp only [toType, hTemplate, toTypes, hElement.resolves,
      hSelf, lookupError]
  · intro remaining hLe rest hRest
    cases remaining with
    | zero => exact absurd hLe (Nat.not_succ_le_zero _)
    | succ remaining =>
        have hFits :=
          hElement.fits (Nat.le_of_succ_le_succ hLe)
        have hParse :
            parseParenType (parse_typeName parser remaining)
                (reading.tokens ++ parenClose :: bang :: rest) =
              .ok (reading.node, bang :: rest) :=
          parseParenType_group endsBasic_bang hFits
        rw [parse_typeName_succ]
        simp only [List.cons_append, List.append_assoc,
          List.nil_append]
        exact parseWithOptions_bang hRest hParse
  · intro hNot
    rw [PoolType.isOptionType, hShape] at hNot
    cases hNot

end Reads

----
-- Lists of Types
----

/- Each type of a list is read, one after the other. -/
abbrev ReadsAll
    (scope : TypeScope)
    (table : NativeTable)
    (parser : TypeParser)
    (pool : TypePool)
    (depth : Nat)
    (ids : List TypeId)
    (readings : List Reading) : Prop :=
  List.Forall₂ (Reads scope table parser pool depth) ids readings

namespace ReadsAll

variable {ids : List TypeId}
variable {readings : List Reading}

theorem of_each
    (hEach :
      ∀ id ∈ ids,
        ∃ reading, Reads scope table parser pool depth id reading) :
    ∃ readings,
      ReadsAll scope table parser pool depth ids readings := by
  induction ids with
  | nil => exact ⟨[], .nil⟩
  | cons id ids ih =>
      rcases hEach id List.mem_cons_self with ⟨reading, hFirst⟩
      rcases ih (fun found hMem =>
          hEach found (List.mem_cons_of_mem _ hMem)) with
        ⟨readings, hRest⟩
      exact ⟨reading :: readings, .cons hFirst hRest⟩

theorem fits
    {remaining : Nat}
    (hReads :
      ReadsAll scope table parser pool depth ids readings)
    (hDepth : depth ≤ remaining) :
    ∀ reading ∈ readings,
      reading.Fits (parse_typeName parser remaining) := by
  induction hReads with
  | nil =>
      intro reading hMem
      cases hMem
  | cons hFirst _ ih =>
      intro reading hMem
      rcases List.mem_cons.mp hMem with hEq | hIn
      · rw [hEq]
        exact hFirst.fits hDepth
      · exact ih reading hIn

theorem resolves
    (hReads :
      ReadsAll scope table parser pool depth ids readings) :
    toTypes scope table pool (readings.map Reading.node) =
      (pool, .ok ids) := by
  induction hReads with
  | nil => rfl
  | cons hFirst _ ih =>
      simp only [List.map_cons, toTypes, hFirst.resolves, ih]

theorem lexes
    (hReads :
      ReadsAll scope table parser pool depth ids readings) :
    Lexes (COMMA.intercalate (ids.map pool.word))
      (joinTokens readings) := by
  induction hReads with
  | nil => exact .nil
  | cons hFirst hRest ih =>
      cases hRest with
      | nil =>
          rw [joinTokens, List.map_singleton,
            List.map_singleton, List.intercalate_singleton,
            List.intercalate_singleton]
          exact hFirst.lexes
      | cons hSecond hRest =>
          have hMore := hFirst.lexes.more ih
          simp only [joinTokens, List.map_cons,
            List.intercalate_cons_cons] at hMore ⊢
          simp only [List.append_assoc, List.singleton_append]
            at hMore ⊢
          exact hMore

end ReadsAll

namespace Reads

variable {readings : List Reading}

theorem tuple
    {elements : List TypeId}
    (hPool : pool.Usable)
    (hShape : (pool.get id).shape = .reified .tuple elements)
    (hElements :
      ReadsAll scope table parser pool depth elements readings) :
    ∃ tokens,
      Reads scope table parser pool (depth + 1) id
        ⟨.reified "Tuple" (readings.map Reading.node),
          tokens⟩ := by
  have hResolves :
      toType scope table pool
          (.reified "Tuple" (readings.map Reading.node)) =
        (pool, .ok id) := by
    have hTemplate :
        TypePool.getTypeTemplate "Tuple" = .ok .tuple := rfl
    have hSelf :
        pool.createReifiedType table .tuple elements =
          .ok (pool, id) :=
      hPool.createReifiedType_self hShape
    simp only [toType, hTemplate, hElements.resolves, hSelf,
      lookupError]
  by_cases hTwo : 2 ≤ elements.length
  · refine
      ⟨parenOpen :: (joinTokens readings ++ [parenClose]), ?_⟩
    apply of_basic _ _ _ hResolves
    · intro remaining rest hDepth hRest
      have hLength := hElements.length_eq
      have hParse :
          parseParenType (parse_typeName parser remaining)
              (joinTokens readings ++ parenClose :: rest) =
            .ok (.reified "Tuple" (readings.map Reading.node),
              rest) :=
        parseParenType_tuple hRest (hLength ▸ hTwo)
          (hElements.fits hDepth)
      simp only [List.cons_append, List.append_assoc,
        List.nil_append]
      exact hParse
    · rw [hPool.word_tuple hTwo hShape]
      exact hElements.lexes.parens
    · exact List.cons_ne_nil _ _
    · change TokenKind.PTYPE_OPEN ≠ _
      decide
  · have hProper : elements ≠ [] :=
      (hPool.of_shape hShape trivial).2.1
    cases hElements with
    | nil => exact absurd rfl hProper
    | @cons element reading elements readings hFirst hRest =>
        cases hRest with
        | cons _ _ =>
            simp only [List.length_cons] at hTwo
            omega
        | nil =>
            refine
              ⟨parenOpen ::
                (reading.tokens ++ [comma, parenClose]), ?_⟩
            apply of_basic _ _ _ hResolves
            · intro remaining rest hDepth hRest
              have hParse :
                  parseParenType
                      (parse_typeName parser remaining)
                      (reading.tokens ++
                        comma :: parenClose :: rest) =
                    .ok (.reified "Tuple" [reading.node], rest) :=
                parseParenType_single hRest
                  (hFirst.fits hDepth)
              simp only [List.cons_append, List.append_assoc,
                List.nil_append]
              exact hParse
            · have hLexes := hFirst.lexes.comma.parens
              simp only [List.append_assoc, List.cons_append,
                List.nil_append] at hLexes
              rw [hPool.word_single hShape]
              exact hLexes
            · exact List.cons_ne_nil _ _
            · change TokenKind.PTYPE_OPEN ≠ _
              decide

theorem function
    {ret : TypeId}
    {params : List TypeId}
    {reading : Reading}
    (hPool : pool.Usable)
    (hShape : (pool.get id).shape = .function ret params)
    (hRet : Reads scope table parser pool depth ret reading)
    (hParams :
      ReadsAll scope table parser pool depth params readings) :
    Reads scope table parser pool (depth + 1) id
      ⟨.func reading.node (readings.map Reading.node),
        parenOpen :: (joinTokens readings ++
          parenClose :: arrow :: reading.tokens)⟩ := by
  constructor
  · rw [hPool.word_function hShape]
    exact hParams.lexes.function hRet.lexes
  · exact List.cons_ne_nil _ _
  · change TokenKind.PTYPE_OPEN ≠ _
    decide
  · have hSelf :
        pool.createFuncType table ret params = .ok (pool, id) :=
      hPool.createFuncType_self hShape
    simp only [toType, hRet.resolves, hParams.resolves, hSelf,
      lookupError]
  · intro remaining hLe rest hRest
    cases remaining with
    | zero => exact absurd hLe (Nat.not_succ_le_zero _)
    | succ remaining =>
        have hDepth := Nat.le_of_succ_le_succ hLe
        have hParse :
            parseParenType (parse_typeName parser remaining)
                (joinTokens readings ++
                  parenClose :: arrow ::
                    (reading.tokens ++ rest)) =
              .ok
                (.func reading.node (readings.map Reading.node),
                  rest) :=
          parseParenType_function hRest (hParams.fits hDepth)
            (hRet.parses remaining hDepth)
        rw [parse_typeName_succ]
        simp only [List.cons_append, List.append_assoc]
        exact parseWithOptions_end hRest hParse
  · intro _ hNot
    rw [PoolType.isFuncType, hShape] at hNot
    cases hNot

end Reads

----
-- Names Are Read Back
----

theorem Nameable.pos (hName : Nameable pool depth id) :
    0 < depth := by
  induction hName with
  | option _ _ _ ih => exact ih
  | _ => exact Nat.succ_pos _

theorem Nameable.lt (hName : Nameable pool depth id) :
    id < pool.size := by
  cases hName with
  | builtin hShape hWord =>
      by_contra hNot
      rcases hWord.head with ⟨c, rest, hEq, _⟩
      rw [TypePool.word, TypePool.getName, TypePool.get,
        List.getD_eq_getElem?_getD,
        List.getElem?_eq_none (Nat.not_lt.mp hNot)] at hEq
      cases hEq
  | _ =>
      apply TypePool.Usable.lt_of_shape
      rename_i hShape
      simp [hShape]

/- A type that has been named keeps its name. -/
theorem Nameable.kept
    {pool' : TypePool}
    (hKept : pool.KeptIn pool')
    (hName : Nameable pool depth id) :
    Nameable pool' depth id := by
  have hShape :
      ∀ {depth : Nat} {id : TypeId} {shape : TypeShape},
        Nameable pool depth id →
        (pool.get id).shape = shape →
        (pool'.get id).shape = shape := by
    intro depth id shape hName hEq
    rw [hKept id hName.lt]
    exact hEq
  have hFuncType :
      ∀ {depth : Nat} {id : TypeId} {isFunc : Bool},
        Nameable pool depth id →
        (pool.get id).isFuncType = isFunc →
        (pool'.get id).isFuncType = isFunc := by
    intro depth id isFunc hName hEq
    rw [hKept id hName.lt]
    exact hEq
  induction hName with
  | @builtin depth id hEq hWord =>
      have hOld : Nameable pool (depth + 2) id :=
        .builtin hEq hWord
      apply Nameable.builtin (hShape hOld hEq)
      rw [TypePool.word, TypePool.getName, hKept id hOld.lt]
      exact hWord
  | array hEq hElement ih =>
      exact .array (hShape (.array hEq hElement) hEq) ih
  | map hEq hKey hValue ih ih' =>
      exact .map (hShape (.map hEq hKey hValue) hEq) ih ih'
  | tuple hEq hElements ih =>
      exact .tuple (hShape (.tuple hEq hElements) hEq) ih
  | function hEq hRet hParams ih ih' =>
      exact
        .function (hShape (.function hEq hRet hParams) hEq) ih
          ih'
  | option hEq hFunc hElement ih =>
      exact
        .option (hShape (.option hEq hFunc hElement) hEq)
          (hFuncType hElement hFunc) ih
  | optionFunc hEq hFunc hElement ih =>
      exact
        .optionFunc (hShape (.optionFunc hEq hFunc hElement) hEq)
          (hFuncType hElement hFunc) ih

theorem Nameable.reads
    (hPool : pool.Usable)
    (hAlias :
      ∀ id < pool.size, (pool.get id).shape = .builtin →
        scope.lookup
            (Scope.toTypeAliasFullName (pool.getName id)) =
          none)
    (hName : Nameable pool depth id) :
    ∃ reading, Reads scope table parser pool depth id reading := by
  induction hName with
  | @builtin depth id hShape hWord =>
      have hName : Nameable pool 2 id := .builtin hShape hWord
      have hLt := hName.lt
      exact
        ⟨_, .of_builtin hWord hLt hPool (hAlias id hLt hShape)⟩
  | array hShape _ ih =>
      rcases ih with ⟨reading, hElement⟩
      exact ⟨_, hElement.array hPool hShape⟩
  | map hShape _ _ ih ih' =>
      rcases ih with ⟨reading, hKey⟩
      rcases ih' with ⟨reading', hValue⟩
      exact ⟨_, hKey.map hPool hShape hValue⟩
  | tuple hShape _ ih =>
      rcases ReadsAll.of_each ih with ⟨readings, hElements⟩
      rcases Reads.tuple hPool hShape hElements with
        ⟨tokens, hReads⟩
      exact ⟨_, hReads⟩
  | function hShape _ _ ih ih' =>
      rcases ih with ⟨reading, hRet⟩
      rcases ReadsAll.of_each ih' with ⟨readings, hParams⟩
      exact ⟨_, .function hPool hShape hRet hParams⟩
  | option hShape hFunc hElement ih =>
      rcases ih with ⟨reading, hReads⟩
      exact ⟨_, hReads.option hPool hShape hFunc hElement.pos⟩
  | optionFunc hShape hFunc _ ih =>
      rcases ih with ⟨reading, hReads⟩
      exact ⟨_, hReads.optionFunc hPool hShape hFunc⟩

/- The name of the type, read by itself. -/
theorem Nameable.parseType
    (hPool : pool.Usable)
    (hAlias :
      ∀ id < pool.size, (pool.get id).shape = .builtin →
        scope.lookup
            (Scope.toTypeAliasFullName (pool.getName id)) =
          none)
    (hName : Nameable pool depth id)
    (hDepth : depth < MAX_NESTING_DEPTH) :
    ∃ node,
      Pool.parseType parser (pool.getName id) =
          .ok (node, lexType []) ∧
        toType scope table pool node = (pool, .ok id) := by
  have hReads :
      ∃ reading,
        Reads scope table parser pool depth id reading :=
    hName.reads hPool hAlias
  rcases hReads with ⟨reading, hReads⟩
  refine ⟨reading.node, ?_, hReads.resolves⟩
  have hLex := hReads.lexes [] .nil
  rw [List.append_nil, TypePool.word] at hLex
  rw [Pool.parseType, hLex]
  apply hReads.parses
  · exact Nat.le_sub_one_of_lt hDepth
  · change TokenKind.EOS ∉ _
    decide

end

end Pool

end Ydsh
