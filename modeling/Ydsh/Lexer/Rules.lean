import Ydsh.Library.LongestMatch

/-
  The rules of the lexer.

  A rule holds in some modes.  Of the rules that hold, the one
  with the longest match is taken, and the first one of these.

  Main declarations:
    * `TokenKind`
    * `Rule`
    * `rules`
    * `pick`
-/

----
-- Kinds
----

namespace Ydsh

namespace Lexing

open Library.LongestMatch
open Library.LongestMatch.Pattern

inductive TokenKind where
  | INVALID
  | EOS
  | COMPLETION
  | ALIAS
  | ASSERT
  | BREAK
  | CASE
  | CATCH
  | CLASS
  | CONTINUE
  | COPROC
  | DO
  | ELIF
  | ELSE
  | EXPORT_ENV
  | FINALLY
  | FOR
  | FUNCTION
  | IF
  | IMPORT_ENV
  | INTERFACE
  | LET
  | NEW
  | RETURN
  | SOURCE
  | SOURCE_OPT
  | TRY
  | THROW
  | TYPEDEF
  | VAR
  | WHILE
  | PLUS
  | MINUS
  | NOT
  | INT_LITERAL
  | FLOAT_LITERAL
  | STRING_LITERAL
  | REGEX_LITERAL
  | SIGNAL_LITERAL
  | OPEN_DQUOTE
  | START_SUB_CMD
  | START_IN_SUB
  | START_OUT_SUB
  | AT_PAREN
  | APPLIED_NAME
  | SPECIAL_NAME
  | LP
  | RP
  | LB
  | RB
  | LBC
  | RBC
  | COMMAND
  | ENV_ASSIGN
  | COLON
  | COMMA
  | ADD
  | SUB
  | MUL
  | DIV
  | MOD
  | LT
  | GT
  | LE
  | GE
  | EQ
  | NE
  | AND
  | OR
  | XOR
  | COND_AND
  | COND_OR
  | NULL_COALE
  | MATCH
  | UNMATCH
  | STR_CHECK
  | TERNARY
  | INC
  | DEC
  | UNWRAP
  | ASSIGN
  | ADD_ASSIGN
  | SUB_ASSIGN
  | MUL_ASSIGN
  | DIV_ASSIGN
  | MOD_ASSIGN
  | STR_ASSIGN
  | NULL_ASSIGN
  | CASE_ARM
  | AS
  | FUNC
  | IN
  | IS
  | TYPEOF
  | WITH
  | IDENTIFIER
  | ACCESSOR
  | LINE_END
  | NEW_LINE
  | CLOSE_DQUOTE
  | STR_ELEMENT
  | START_INTERP
  | CMD_ARG_PART
  | APPLIED_NAME_WITH_BRACKET
  | SPECIAL_NAME_WITH_BRACKET
  | APPLIED_NAME_WITH_PAREN
  | APPLIED_NAME_WITH_FIELD
  | GLOB_ANY
  | GLOB_ZERO_OR_MORE
  | PATH_SEP
  | REDIR_IN_2_FILE
  | REDIR_OUT_2_FILE
  | REDIR_OUT_2_FILE_APPEND
  | REDIR_ERR_2_FILE
  | REDIR_ERR_2_FILE_APPEND
  | REDIR_MERGE_ERR_2_OUT_2_FILE
  | REDIR_MERGE_ERR_2_OUT_2_FILE_APPEND
  | REDIR_MERGE_ERR_2_OUT
  | REDIR_MERGE_OUT_2_ERR
  | REDIR_HERE_STR
  | PIPE
  | BACKGROUND
  | DISOWN_BG
  | TYPE_OPEN
  | TYPE_CLOSE
  | TYPE_SEP
  | TYPE_DOT
  | ATYPE_OPEN
  | ATYPE_CLOSE
  | PTYPE_OPEN
  | PTYPE_CLOSE
  | TYPE_MSEP
  | TYPE_OPT
  | TYPE_ARROW
  deriving DecidableEq

inductive LexerCond where
  | STMT
  | EXPR
  | NAME
  | TYPE
  | CMD
  | DSTRING
  deriving DecidableEq

----
-- Patterns
----

abbrev Pat := Pattern UInt8

def bytes (letters : String) : List UInt8 :=
  letters.toList.map fun c => c.toNat.toUInt8

def text (letters : String) : Pat :=
  word (bytes letters)

def anyOf (letters : String) : Pat :=
  among (bytes letters)

def noneOf (letters : String) : Pat :=
  except (bytes letters)

/- All bytes from one to another. -/
def range (first last : UInt8) : Pat :=
  .letter fun b => first ≤ b && b ≤ last

def DIGIT : Pat :=
  range 0x30 0x39

def ALPHA : Pat :=
  oneOf [text "_", range 0x61 0x7A, range 0x41 0x5A]

def NUM : Pat :=
  oneOf [text "0", row [range 0x31 0x39, .star DIGIT]]

def OCTAL : Pat :=
  row [text "0", opt (anyOf "oO"), many (range 0x30 0x37)]

def HEX : Pat :=
  row
    [text "0", anyOf "xX",
      many (oneOf [DIGIT, range 0x61 0x66, range 0x41 0x46])]

def INTEGER : Pat :=
  oneOf [NUM, OCTAL, HEX]

def DIGITS : Pat :=
  many DIGIT

def FLOAT_SUFFIX : Pat :=
  row [anyOf "eE", opt (anyOf "+-"), NUM]

def FLOAT : Pat :=
  row [NUM, text ".", DIGITS, opt FLOAT_SUFFIX]

def SQUOTE_CHAR : Pat :=
  oneOf [text "\\\x27", noneOf "\x27\x00"]

def DQUOTE_CHAR : Pat :=
  oneOf
    [row [text "\\", noneOf "\x00"], noneOf "$\\\x22\x00"]

def VAR_NAME : Pat :=
  row [ALPHA, .star (oneOf [ALPHA, DIGIT])]

def SPECIAL_NAMES : Pat :=
  oneOf [anyOf "@#?$", DIGIT]

def STRING_LITERAL : Pat :=
  row [text "\x27", .star (noneOf "\x27\x00"), text "\x27"]

def ESTRING_LITERAL : Pat :=
  row [text "$", text "\x27", .star SQUOTE_CHAR, text "\x27"]

def APPLIED_NAME : Pat :=
  row [text "$", VAR_NAME]

def SPECIAL_NAME : Pat :=
  row [text "$", SPECIAL_NAMES]

def INNER_NAME : Pat :=
  oneOf [APPLIED_NAME, row [text "$\x7b", VAR_NAME, text "\x7d"]]

def INNER_SPECIAL_NAME : Pat :=
  oneOf
    [SPECIAL_NAME, row [text "$\x7b", SPECIAL_NAMES, text "\x7d"]]

def INNER_FIELD : Pat :=
  row
    [text "$\x7b", VAR_NAME, many (row [text ".", VAR_NAME]),
      text "\x7d"]

def CMD_START_CHAR : Pat :=
  oneOf
    [row [text "\\", noneOf "\r\n\x00"],
      noneOf
        " \t\r\n\\;=\x27\x22\x60|&<>()\x7b\x7d$#[]!+-0123456789\x00"]

def CMD_CHAR : Pat :=
  oneOf
    [row [text "\\", noneOf "\x00"],
      noneOf
        " \t\r\n\\;=\x27\x22\x60|&<>()\x7b\x7d$\x00"]

def CMD : Pat :=
  row [CMD_START_CHAR, .star CMD_CHAR]

def CMD_ARG_START_CHAR : Pat :=
  oneOf
    [row [text "\\", noneOf "\r\n\x00"],
      noneOf " \t\r\n\\;:\x27\x22\x60|&<>()$?*#\x00"]

def CMD_ARG_CHAR : Pat :=
  oneOf
    [row [text "\\", noneOf "\x00"],
      noneOf " \t\r\n\\;:\x27\x22\x60|&<>()$?*\x00"]

def CMD_ARG : Pat :=
  row [CMD_ARG_START_CHAR, .star CMD_ARG_CHAR]

def ENV_ASSIGN : Pat :=
  row [CMD, text "="]

def REGEX_CHAR : Pat :=
  oneOf [text "\\/", noneOf "\r\n\x00/"]

def REGEX : Pat :=
  row
    [text "$/", .star REGEX_CHAR, text "/", opt (anyOf "ims"),
      opt (anyOf "ims"), opt (anyOf "ims")]

def LINE_END : Pat :=
  text ";"

def NEW_LINE : Pat :=
  row [anyOf "\r\n", .star (anyOf " \t\r\n")]

def COMMENT : Pat :=
  row [text "#", .star (noneOf "\r\n\x00")]

----
-- Rules
----

/- `MODE`, `PUSH_MODE` and `POP_MODE`, and what a newline does
in a command. -/
inductive ModeChange where
  | mode (cond : LexerCond)
  | push (cond : LexerCond) (skipNL : Bool)
  | pop
  | endCommand

/- `RET`, `RET_OR_COMP`, `SKIP` and so on; a dollar alone is
only for code completion. -/
inductive Action where
  | ret (kind : TokenKind)
  | retOrComp (kind : TokenKind)
  | dollar
  | skip
  | newLine
  | space
  | reachEOS
  deriving DecidableEq

/-
  A rule may update the table of newlines.  A pattern with a
  trailing context is a fixed text.
-/
structure Rule where
  conds : List LexerCond
  pattern : Pat
  context : Option Pat
  updates : Bool
  changes : List ModeChange
  action : Action

def on
    (conds : List LexerCond)
    (pattern : Pat)
    (changes : List ModeChange)
    (action : Action) : Rule :=
  ⟨conds, pattern, none, false, changes, action⟩

/- With `UPDATE_LN`. -/
def onLine
    (conds : List LexerCond)
    (pattern : Pat)
    (changes : List ModeChange)
    (action : Action) : Rule :=
  ⟨conds, pattern, none, true, changes, action⟩

/- With a trailing context. -/
def before
    (conds : List LexerCond)
    (pattern context : Pat)
    (changes : List ModeChange)
    (action : Action) : Rule :=
  ⟨conds, pattern, some context, false, changes, action⟩

def tokenRules : List Rule :=
  [ on [.STMT] (text "alias") [.mode .NAME]
      (.retOrComp .ALIAS),
    on [.STMT] (text "assert") [] (.retOrComp .ASSERT),
    on [.STMT] (text "break") [] (.retOrComp .BREAK),
    on [.STMT] (text "case") [] (.retOrComp .CASE),
    on [.EXPR] (text "catch") [.mode .STMT] (.ret .CATCH),
    on [.STMT] (text "class") [.mode .NAME] (.ret .CLASS),
    on [.STMT] (text "continue") [] (.retOrComp .CONTINUE),
    on [.STMT] (text "coproc") [] (.retOrComp .COPROC),
    on [.STMT] (text "do") [] (.retOrComp .DO),
    on [.EXPR] (text "elif") [.mode .STMT] (.ret .ELIF),
    on [.STMT, .EXPR] (text "else") [.mode .EXPR] (.ret .ELSE),
    on [.STMT] (text "export-env") [.mode .NAME]
      (.retOrComp .EXPORT_ENV),
    on [.EXPR] (text "finally") [] (.ret .FINALLY),
    on [.STMT] (text "for") [] (.retOrComp .FOR),
    on [.STMT] (text "function") [.mode .NAME]
      (.retOrComp .FUNCTION),
    on [.STMT] (text "if") [] (.retOrComp .IF),
    on [.STMT] (text "import-env") [.mode .NAME]
      (.retOrComp .IMPORT_ENV),
    on [.STMT] (text "interface") [] (.ret .INTERFACE),
    on [.STMT] (text "let") [.mode .NAME] (.retOrComp .LET),
    on [.STMT] (text "new") [.mode .EXPR] (.retOrComp .NEW),
    on [.STMT] (text "return") [] (.retOrComp .RETURN),
    on [.STMT] (text "source") [.mode .CMD]
      (.retOrComp .SOURCE),
    on [.STMT] (text "source!") [.mode .CMD]
      (.retOrComp .SOURCE_OPT),
    on [.STMT] (text "try") [] (.retOrComp .TRY),
    on [.STMT] (text "throw") [] (.retOrComp .THROW),
    on [.STMT] (text "typedef") [.mode .NAME]
      (.retOrComp .TYPEDEF),
    on [.STMT] (text "var") [.mode .NAME] (.retOrComp .VAR),
    on [.STMT, .EXPR] (text "while") [.mode .STMT]
      (.retOrComp .WHILE),
    on [.STMT] (text "+") [] (.ret .PLUS),
    on [.STMT] (text "-") [] (.ret .MINUS),
    on [.STMT] (text "!") [] (.ret .NOT),
    on [.STMT] INTEGER [.mode .EXPR] (.ret .INT_LITERAL),
    on [.STMT] FLOAT [.mode .EXPR] (.ret .FLOAT_LITERAL),
    onLine [.STMT] STRING_LITERAL [.mode .EXPR]
      (.ret .STRING_LITERAL),
    onLine [.STMT] ESTRING_LITERAL [.mode .EXPR]
      (.ret .STRING_LITERAL),
    on [.STMT] REGEX [.mode .EXPR] (.ret .REGEX_LITERAL),
    on [.STMT] (row [text "%\x27", VAR_NAME, text "\x27"])
      [.mode .EXPR] (.ret .SIGNAL_LITERAL),
    on [.STMT] (text "\x22")
      [.mode .EXPR, .push .DSTRING false] (.ret .OPEN_DQUOTE),
    on [.STMT] (text "$(") [.mode .EXPR, .push .STMT true]
      (.ret .START_SUB_CMD),
    on [.STMT] (text ">(") [.mode .EXPR, .push .STMT true]
      (.ret .START_IN_SUB),
    on [.STMT] (text "<(") [.mode .EXPR, .push .STMT true]
      (.ret .START_OUT_SUB),
    on [.STMT] (text "@(") [.mode .EXPR, .push .CMD true]
      (.ret .AT_PAREN),
    on [.STMT] (text "$") [] .dollar,
    on [.STMT] APPLIED_NAME [.mode .EXPR]
      (.retOrComp .APPLIED_NAME),
    on [.STMT] SPECIAL_NAME [.mode .EXPR] (.ret .SPECIAL_NAME),
    on [.STMT, .EXPR, .CMD] (text "(")
      [.mode .EXPR, .push .STMT true] (.ret .LP),
    on [.STMT, .EXPR, .CMD] (text ")") [.pop] (.ret .RP),
    on [.STMT, .EXPR] (text "[")
      [.mode .EXPR, .push .STMT true] (.ret .LB),
    on [.STMT, .EXPR] (text "]") [.pop] (.ret .RB),
    on [.STMT, .EXPR] (text "\x7b")
      [.mode .EXPR, .push .STMT false] (.ret .LBC),
    on [.STMT, .EXPR] (text "\x7d") [.pop] (.ret .RBC),
    onLine [.STMT] CMD [.mode .CMD] (.retOrComp .COMMAND),
    on [.STMT] ENV_ASSIGN [.mode .CMD] (.ret .ENV_ASSIGN),
    on [.EXPR] (text ":") [] (.ret .COLON),
    on [.EXPR] (text ",") [.mode .STMT] (.ret .COMMA),
    on [.EXPR] (text "+") [.mode .STMT] (.ret .ADD),
    on [.EXPR] (text "-") [.mode .STMT] (.ret .SUB),
    on [.EXPR] (text "*") [.mode .STMT] (.ret .MUL),
    on [.EXPR] (text "/") [.mode .STMT] (.ret .DIV),
    on [.EXPR] (text "%") [.mode .STMT] (.ret .MOD),
    on [.EXPR] (text "<") [.mode .STMT] (.ret .LT),
    on [.EXPR] (text ">") [.mode .STMT] (.ret .GT),
    on [.EXPR] (text "<=") [.mode .STMT] (.ret .LE),
    on [.EXPR] (text ">=") [.mode .STMT] (.ret .GE),
    on [.EXPR] (text "==") [.mode .STMT] (.ret .EQ),
    on [.EXPR] (text "!=") [.mode .STMT] (.ret .NE),
    on [.EXPR] (text "and") [.mode .STMT] (.ret .AND),
    on [.EXPR] (text "or") [.mode .STMT] (.ret .OR),
    on [.EXPR] (text "xor") [.mode .STMT] (.ret .XOR),
    on [.EXPR, .CMD] (text "&&") [.mode .STMT]
      (.ret .COND_AND),
    on [.EXPR, .CMD] (text "||") [.mode .STMT] (.ret .COND_OR),
    on [.EXPR] (text "=~") [.mode .STMT] (.ret .MATCH),
    on [.EXPR] (text "!~") [.mode .STMT] (.ret .UNMATCH),
    on [.EXPR] (text ":-") [.mode .STMT] (.ret .STR_CHECK),
    on [.EXPR] (text "?") [.mode .STMT] (.ret .TERNARY),
    on [.EXPR] (text "??") [.mode .STMT] (.ret .NULL_COALE),
    on [.EXPR, .CMD] (text "|") [.mode .STMT] (.ret .PIPE),
    on [.EXPR] (text "++") [] (.ret .INC),
    on [.EXPR] (text "\x2d\x2d") [] (.ret .DEC),
    on [.EXPR] (text "!") [] (.ret .UNWRAP),
    on [.EXPR] (text "=") [.mode .STMT] (.ret .ASSIGN),
    on [.EXPR] (text "+=") [.mode .STMT] (.ret .ADD_ASSIGN),
    on [.EXPR] (text "-=") [.mode .STMT] (.ret .SUB_ASSIGN),
    on [.EXPR] (text "*=") [.mode .STMT] (.ret .MUL_ASSIGN),
    on [.EXPR] (text "/=") [.mode .STMT] (.ret .DIV_ASSIGN),
    on [.EXPR] (text "%=") [.mode .STMT] (.ret .MOD_ASSIGN),
    on [.EXPR] (text ":=") [.mode .STMT] (.ret .STR_ASSIGN),
    on [.EXPR] (text "??=") [.mode .STMT] (.ret .NULL_ASSIGN),
    on [.EXPR] (oneOf [text "=>", text "->"]) [.mode .STMT]
      (.ret .CASE_ARM),
    on [.EXPR] (text "as") [] (.ret .AS),
    on [.EXPR] (text "is") [] (.ret .IS),
    on [.EXPR] (text "in") [.mode .STMT] (.ret .IN),
    on [.EXPR] (text "with") [.mode .CMD] (.ret .WITH),
    on [.EXPR, .CMD] (text "&") [.mode .STMT]
      (.ret .BACKGROUND),
    on [.EXPR, .CMD] (oneOf [text "&!", text "&|"])
      [.mode .STMT] (.ret .DISOWN_BG),
    on [.NAME] VAR_NAME [.mode .EXPR] (.retOrComp .IDENTIFIER),
    on [.EXPR] (text ".") [.mode .NAME] (.ret .ACCESSOR),
    on [.STMT, .EXPR, .CMD] LINE_END [.mode .STMT]
      (.ret .LINE_END),
    onLine [.STMT, .EXPR, .NAME, .TYPE] NEW_LINE [] .newLine,
    on [.STMT, .EXPR, .NAME, .CMD, .TYPE] COMMENT [] .skip,
    on [.STMT, .EXPR, .NAME, .CMD, .TYPE] (many (anyOf " \t"))
      [] .space,
    onLine [.STMT, .EXPR, .NAME, .CMD, .TYPE]
      (row [text "\\", anyOf "\r\n"]) [] .skip,
    on [.DSTRING] (text "\x22") [.pop] (.ret .CLOSE_DQUOTE),
    onLine [.DSTRING] (many DQUOTE_CHAR) []
      (.ret .STR_ELEMENT),
    on [.DSTRING, .CMD] (text "$") [] .dollar,
    on [.DSTRING, .CMD] INNER_NAME []
      (.retOrComp .APPLIED_NAME),
    on [.DSTRING, .CMD] INNER_SPECIAL_NAME []
      (.ret .SPECIAL_NAME),
    on [.DSTRING, .CMD] INNER_FIELD []
      (.ret .APPLIED_NAME_WITH_FIELD),
    on [.DSTRING, .CMD] (text "$\x7b") [.push .STMT true]
      (.ret .START_INTERP),
    on [.DSTRING, .CMD] (text "$(") [.push .STMT true]
      (.ret .START_SUB_CMD),
    onLine [.CMD] CMD_ARG [] (.retOrComp .CMD_ARG_PART),
    on [.CMD] (text "?") [] (.ret .GLOB_ANY),
    on [.CMD] (text "*") [] (.ret .GLOB_ZERO_OR_MORE),
    on [.CMD] (text ":") [] (.ret .PATH_SEP),
    onLine [.CMD] STRING_LITERAL [] (.ret .STRING_LITERAL),
    onLine [.CMD] ESTRING_LITERAL [] (.ret .STRING_LITERAL),
    on [.CMD] (text "\x22") [.push .DSTRING false]
      (.ret .OPEN_DQUOTE),
    on [.CMD] (row [APPLIED_NAME, text "["])
      [.push .STMT true] (.ret .APPLIED_NAME_WITH_BRACKET),
    on [.CMD] (row [SPECIAL_NAME, text "["])
      [.push .STMT true] (.ret .SPECIAL_NAME_WITH_BRACKET),
    on [.CMD] (row [APPLIED_NAME, text "("])
      [.push .STMT true] (.ret .APPLIED_NAME_WITH_PAREN),
    on [.CMD] (text "<") [] (.ret .REDIR_IN_2_FILE),
    on [.CMD] (oneOf [text ">", text "1>"]) []
      (.ret .REDIR_OUT_2_FILE),
    on [.CMD] (oneOf [text "1>>", text ">>"]) []
      (.ret .REDIR_OUT_2_FILE_APPEND),
    on [.CMD] (text "2>") [] (.ret .REDIR_ERR_2_FILE),
    on [.CMD] (text "2>>") [] (.ret .REDIR_ERR_2_FILE_APPEND),
    on [.CMD] (oneOf [text ">&", text "&>"]) []
      (.ret .REDIR_MERGE_ERR_2_OUT_2_FILE),
    on [.CMD] (text "&>>") []
      (.ret .REDIR_MERGE_ERR_2_OUT_2_FILE_APPEND),
    on [.CMD] (text "2>&1") [] (.ret .REDIR_MERGE_ERR_2_OUT),
    on [.CMD] (text "1>&2") [] (.ret .REDIR_MERGE_OUT_2_ERR),
    on [.CMD] (text "<<<") [] (.ret .REDIR_HERE_STR),
    on [.CMD] (text ">(") [.push .STMT true]
      (.ret .START_IN_SUB),
    on [.CMD] (text "<(") [.push .STMT true]
      (.ret .START_OUT_SUB),
    onLine [.CMD] NEW_LINE [.endCommand] .newLine,
    on [.TYPE] (text "Func") [] (.retOrComp .FUNC),
    on [.TYPE] (text "typeof") [] (.retOrComp .TYPEOF),
    on [.TYPE] VAR_NAME [] (.retOrComp .IDENTIFIER),
    on [.TYPE] (text "<") [] (.ret .TYPE_OPEN),
    on [.TYPE] (text ">") [] (.ret .TYPE_CLOSE),
    on [.TYPE] (text ",") [] (.ret .TYPE_SEP),
    on [.TYPE] (text ".") [] (.ret .TYPE_DOT),
    on [.TYPE] (text "[") [] (.ret .ATYPE_OPEN),
    on [.TYPE] (text "]") [] (.ret .ATYPE_CLOSE),
    on [.TYPE] (text "(") [] (.ret .PTYPE_OPEN),
    on [.TYPE] (text ")") [] (.ret .PTYPE_CLOSE),
    on [.TYPE] (text ":") [] (.ret .TYPE_MSEP),
    before [.TYPE] (text "!") (noneOf "=~") []
      (.ret .TYPE_OPT),
    on [.TYPE] (oneOf [text "=>", text "->"]) []
      (.ret .TYPE_ARROW) ]

/- The null byte. -/
def endRule : Rule :=
  on [.STMT, .EXPR, .NAME, .DSTRING, .CMD, .TYPE] (text "\x00")
    [] .reachEOS

/- All rules but that for any other byte. -/
def rules : List Rule :=
  tokenRules ++ [endRule]

/- The length of a token, and of the match with its trailing
context. -/
structure Found where
  rule : Rule
  length : Nat
  total : Nat

def Rule.find
    (rule : Rule)
    (cond : LexerCond)
    (input : List UInt8) : Option Found :=
  if rule.conds.contains cond then
    match longest rule.pattern input with
    | none => none
    | some length =>
        match rule.context with
        | none => some ⟨rule, length, length⟩
        | some context =>
            match longest context (input.drop length) with
            | none => none
            | some more => some ⟨rule, length, length + more⟩
  else none

def pick
    (cond : LexerCond)
    (input : List UInt8) : List Rule → Option Found
  | [] => none
  | rule :: rules =>
      match rule.find cond input, pick cond input rules with
      | none, other => other
      | some found, none => some found
      | some found, some other =>
          if found.total < other.total then some other
          else some found

end Lexing

end Ydsh
