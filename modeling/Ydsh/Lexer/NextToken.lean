import Ydsh.Lexer.Rules

/-
  The lexer.

  A token is what one rule matches, behind what others skip.
  The positions of the newlines that have been passed are kept
  in a table, from which line numbers are looked up.

  Main declarations:
    * `Lexer`
    * `nextToken`
    * `getSrcLine`
    * `getLineToken`
    * `run`
-/

----
-- Line Numbers
----

namespace Ydsh

namespace Lexing

abbrev NEWLINE : UInt8 := 0x0A

structure LineNumTable where
  offset : UInt32
  table : List Nat

namespace LineNumTable

def addNewlinePos
    (lines : LineNumTable)
    (pos : Nat) : LineNumTable :=
  match lines.table.getLast? with
  | none => { lines with table := [pos] }
  | some back =>
      if pos > back then
        { lines with table := lines.table ++ [pos] }
      else lines

def getMaxLineNum (lines : LineNumTable) : UInt32 :=
  UInt32.ofNat lines.table.length + lines.offset

/- `lower_bound` -/
def lookup
    (lines : LineNumTable)
    (pos : Nat) : UInt32 :=
  let iter := lines.table.findIdx fun p => pos ≤ p
  if iter = lines.table.length then lines.getMaxLineNum
  else UInt32.ofNat iter + lines.offset

end LineNumTable

----
-- The State
----

structure LexerMode where
  cond : LexerCond
  skipNL : Bool

structure Token where
  pos : Nat
  size : Nat
  deriving DecidableEq

def Token.endPos (token : Token) : Nat :=
  token.pos + token.size

structure Lexer where
  lineNumTable : LineNumTable
  buf : List UInt8
  cursor : Nat
  modeStack : List LexerMode
  curMode : LexerMode
  prevMode : LexerMode
  prevNewLine : Bool
  prevSpace : Bool
  complete : Bool
  compTokenKind : TokenKind

/- A newline is added at the end, and the null byte. -/
def sourceBuffer (source : List UInt8) : List UInt8 :=
  (if source.getLast? = some NEWLINE then source
    else source ++ [NEWLINE]) ++ [0]

def Lexer.new
    (source : List UInt8)
    (offset : UInt32) : Lexer where
  lineNumTable := ⟨offset, []⟩
  buf := sourceBuffer source
  cursor := 0
  modeStack := []
  curMode := ⟨.STMT, false⟩
  prevMode := ⟨.STMT, false⟩
  prevNewLine := false
  prevSpace := false
  complete := false
  compTokenKind := .INVALID

namespace Lexer

def getUsedSize (lexer : Lexer) : Nat :=
  lexer.buf.length - 1

def isEnd (lexer : Lexer) : Bool :=
  lexer.cursor == lexer.getUsedSize + 1

def inCompletionPoint (lexer : Lexer) : Bool :=
  lexer.complete && lexer.cursor + 1 == lexer.getUsedSize

/- All newlines from a position on to the cursor are added. -/
def updateNewline
    (lexer : Lexer)
    (pos : Nat) : Lexer :=
  { lexer with
    lineNumTable :=
      (List.range' pos (lexer.cursor - pos)).foldl
        (fun lines i =>
          if lexer.buf[i]? = some NEWLINE then
            lines.addNewlinePos i
          else lines)
        lexer.lineNumTable }

def setLexerMode (lexer : Lexer) (mode : LexerMode) : Lexer :=
  { lexer with curMode := mode }

def setLexerCond (lexer : Lexer) (cond : LexerCond) : Lexer :=
  lexer.setLexerMode ⟨cond, lexer.curMode.skipNL⟩

def pushLexerMode (lexer : Lexer) (mode : LexerMode) : Lexer :=
  { lexer with
    modeStack := lexer.modeStack ++ [lexer.curMode]
    curMode := mode }

def popLexerMode (lexer : Lexer) : Lexer :=
  match lexer.modeStack.getLast? with
  | none => lexer
  | some mode =>
      { lexer with
        curMode := mode
        modeStack := lexer.modeStack.dropLast }

def change (lexer : Lexer) : ModeChange → Lexer
  | .mode cond => lexer.setLexerCond cond
  | .push cond skipNL => lexer.pushLexerMode ⟨cond, skipNL⟩
  | .pop => lexer.popLexerMode
  | .endCommand =>
      if lexer.curMode.skipNL then lexer
      else lexer.setLexerCond .STMT

----
-- Tokens
----

structure Result where
  kind : TokenKind
  token : Token
  lexer : Lexer

/- `END` -/
def endToken
    (lexer : Lexer)
    (kind : TokenKind)
    (startPos : Nat)
    (mode : LexerMode)
    (foundNewLine foundSpace : Bool) : Result where
  kind := kind
  token := ⟨startPos, lexer.cursor - startPos⟩
  lexer :=
    { lexer with
      prevMode := mode
      prevNewLine := foundNewLine
      prevSpace := foundSpace }

/- `EOS` -/
def endOfSource
    (lexer : Lexer)
    (foundSpace : Bool) : Result where
  kind := if lexer.complete then .COMPLETION else .EOS
  token := ⟨lexer.getUsedSize, 0⟩
  lexer :=
    { lexer with
      cursor := lexer.cursor - 1
      compTokenKind :=
        if lexer.complete then .EOS else lexer.compTokenKind
      prevNewLine := !lexer.complete
      prevSpace := foundSpace }

/- `RET_OR_COMP` -/
def endOrComp
    (lexer : Lexer)
    (kind : TokenKind)
    (startPos : Nat)
    (mode : LexerMode)
    (foundNewLine foundSpace : Bool) : Result :=
  if lexer.inCompletionPoint then
    endToken { lexer with compTokenKind := kind } .COMPLETION
      startPos mode foundNewLine foundSpace
  else
    endToken lexer kind startPos mode foundNewLine foundSpace

/- The cursor behind a match, and what the rule does before
its action. -/
def advance
    (lexer : Lexer)
    (found : Found) : Lexer :=
  let startPos := lexer.cursor
  let moved := { lexer with cursor := startPos + found.length }
  let updated :=
    if found.rule.updates then moved.updateNewline startPos
    else moved
  found.rule.changes.foldl change updated

/- From `INIT` on.  A rule that skips goes back there. -/
def nextTokenFrom :
    Nat → Lexer → Bool → Bool → Option Result
  | 0, _, _, _ => none
  | fuel + 1, lexer, foundNewLine, foundSpace =>
      let startPos := lexer.cursor
      let mode := lexer.curMode
      match pick mode.cond (lexer.buf.drop startPos) rules with
      | none =>
          some
            (endToken { lexer with cursor := startPos + 1 }
              .INVALID startPos mode foundNewLine foundSpace)
      | some found =>
          let next := lexer.advance found
          match found.rule.action with
          | .ret kind =>
              some
                (endToken next kind startPos mode foundNewLine
                  foundSpace)
          | .retOrComp kind =>
              some
                (endOrComp next kind startPos mode foundNewLine
                  foundSpace)
          | .dollar =>
              if next.inCompletionPoint then
                some
                  (endOrComp next .APPLIED_NAME startPos mode
                    foundNewLine foundSpace)
              else
                some
                  (endToken next .INVALID startPos mode
                    foundNewLine foundSpace)
          | .skip =>
              nextTokenFrom fuel next foundNewLine foundSpace
          | .newLine => nextTokenFrom fuel next true foundSpace
          | .space => nextTokenFrom fuel next foundNewLine true
          | .reachEOS =>
              if next.isEnd then
                some (endOfSource next foundSpace)
              else
                some
                  (endToken next .INVALID startPos mode
                    foundNewLine foundSpace)

def nextToken (lexer : Lexer) : Option Result :=
  nextTokenFrom (lexer.buf.length - lexer.cursor) lexer false
    false

def shiftEOS (lexer : Lexer) (token : Token) : Token :=
  if token.endPos ≥ lexer.getUsedSize then
    ⟨lexer.getUsedSize - 1, 0⟩
  else token

/- `getSrcPos`, of which the line number. -/
def getSrcLine (lexer : Lexer) (token : Token) : UInt32 :=
  lexer.lineNumTable.lookup (lexer.shiftEOS token).pos

/- Back from a position to the newline before it. -/
def startIndex (buf : List UInt8) (pos : Nat) : Nat → Nat
  | 0 => 0
  | i + 1 =>
      if buf[i]? = some NEWLINE ∧ i ≠ pos then i + 1
      else startIndex buf pos i

/- Behind the next newline, of so many bytes at most. -/
def stopIndex (buf : List UInt8) : Nat → Nat → Nat
  | 0, stop => stop
  | count + 1, stop =>
      if buf[stop]? = some NEWLINE then stop + 1
      else stopIndex buf count (stop + 1)

def getLineToken (lexer : Lexer) (token : Token) : Token :=
  let shifted := lexer.shiftEOS token
  let start := startIndex lexer.buf shifted.pos (shifted.pos + 1)
  let stop :=
    if shifted.size > 0 then
      stopIndex lexer.buf
        (lexer.getUsedSize - (shifted.endPos - 1))
        (shifted.endPos - 1)
    else shifted.endPos + 1
  ⟨start, stop - start⟩

end Lexer

/- What a parser does with its lexer; the position is only set
back. -/
inductive Op where
  | nextToken
  | setPos (pos : Nat)
  | setLexerMode (mode : LexerMode)
  | setLexerCond (cond : LexerCond)
  | pushLexerMode (mode : LexerMode)
  | popLexerMode
  | setComplete (allow : Bool)

/- The tokens that have been returned. -/
abbrev Tokens := List (TokenKind × Token)

def step (lexer : Lexer) : Op → Option (Lexer × Tokens)
  | .nextToken =>
      match lexer.nextToken with
      | none => none
      | some ret => some (ret.lexer, [(ret.kind, ret.token)])
  | .setPos pos =>
      some ({ lexer with cursor := min pos lexer.cursor }, [])
  | .setLexerMode mode => some (lexer.setLexerMode mode, [])
  | .setLexerCond cond => some (lexer.setLexerCond cond, [])
  | .pushLexerMode mode => some (lexer.pushLexerMode mode, [])
  | .popLexerMode => some (lexer.popLexerMode, [])
  | .setComplete allow =>
      some ({ lexer with complete := allow }, [])

def run (lexer : Lexer) : List Op → Option (Lexer × Tokens)
  | [] => some (lexer, [])
  | op :: ops =>
      match step lexer op with
      | none => none
      | some (next, tokens) =>
          match run next ops with
          | none => none
          | some (last, more) => some (last, tokens ++ more)

end Lexing

end Ydsh
