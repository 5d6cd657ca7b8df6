import Ydsh.Json.Value

/-
  The tokens of JSON text.

  The bytes from the cursor on end with the null byte that
  terminates the lexer's buffer.  The generated lexer takes the
  longest match, and one byte when no rule matches.

  Main declarations:
    * `scanString`
    * `nextToken`
-/

----
-- Token Kinds
----

namespace Ydsh

namespace Json

inductive JSONTokenKind where
  | INVALID
  | EOS
  | NUMBER
  | TRUE
  | FALSE
  | NIL
  | STRING
  | ARRAY_OPEN
  | ARRAY_CLOSE
  | OBJECT_OPEN
  | OBJECT_CLOSE
  | COLON
  | COMMA
deriving DecidableEq, Repr

def JSONTokenKind.toString : JSONTokenKind → String
  | .INVALID => "<invalid>"
  | .EOS => "<EOS>"
  | .NUMBER => "<Number>"
  | .TRUE => "true"
  | .FALSE => "false"
  | .NIL => "null"
  | .STRING => "<String>"
  | .ARRAY_OPEN => "["
  | .ARRAY_CLOSE => "]"
  | .OBJECT_OPEN => "\x7b"
  | .OBJECT_CLOSE => "\x7d"
  | .COLON => ":"
  | .COMMA => ","

/-
  What a fetch leaves in the parser: the kind and the text of
  the current token, and the bytes from the cursor on.
-/
structure Fetched where
  curKind : JSONTokenKind
  curToken : List UInt8
  rest : List UInt8
deriving DecidableEq

----
-- Strings
----

/- Where the lexer stands inside of a string. -/
inductive CharState where
  | char
  | escape
  -- a digit of `HEX{4}`, with `more` after it
  | hex (more : Nat)
  -- a later byte of a character, with `more` after it
  | tail (low high more : Nat)
deriving DecidableEq

def isHex (b : UInt8) : Bool :=
  (0x30 ≤ b.toNat && b.toNat ≤ 0x39) ||
    (0x61 ≤ b.toNat && b.toNat ≤ 0x66) ||
    (0x41 ≤ b.toNat && b.toNat ≤ 0x46)

/- The first byte of a character above `\x7F`. -/
def headStep (b : UInt8) : Option CharState :=
  if 0xC2 ≤ b.toNat ∧ b.toNat ≤ 0xDF then
    some (.tail 0x80 0xBF 0)
  else if b.toNat = 0xE0 then
    some (.tail 0xA0 0xBF 1)
  else if 0xE1 ≤ b.toNat ∧ b.toNat ≤ 0xEF then
    some (.tail 0x80 0xBF 1)
  else if b.toNat = 0xF0 then
    some (.tail 0x90 0xBF 2)
  else if 0xF1 ≤ b.toNat ∧ b.toNat ≤ 0xF3 then
    some (.tail 0x80 0xBF 2)
  else if b.toNat = 0xF4 then
    some (.tail 0x80 0x8F 2)
  else
    none

/- One byte of `CHAR`; a quote between characters is not one. -/
def charStep : CharState → UInt8 → Option CharState
  | .char, b =>
      if b = BACKSLASH then
        some .escape
      else if 0x20 ≤ b.toNat ∧ b.toNat ≤ 0x7F then
        some .char
      else
        headStep b
  | .escape, b =>
      if b = 0x75 then
        some (.hex 3)
      else if
          b ∈ ascii ['"', '\\', '/', 'b', 'f', 'n', 'r', 't']
        then
        some .char
      else
        none
  | .hex more, b =>
      if isHex b then
        match more with
        | 0 => some .char
        | more + 1 => some (.hex more)
      else
        none
  | .tail low high more, b =>
      if low ≤ b.toNat ∧ b.toNat ≤ high then
        match more with
        | 0 => some .char
        | more + 1 => some (.tail 0x80 0xBF more)
      else
        none

/- `CHAR* ["]`: the text matched and the bytes after it. -/
def scanString :
    CharState → List UInt8 → Option (List UInt8 × List UInt8)
  | _, [] => none
  | state, b :: rest =>
      if state = .char ∧ b = QUOTE then
        some ([b], rest)
      else
        match charStep state b with
        | none => none
        | some next =>
            (scanString next rest).map
              (fun found => (b :: found.1, found.2))

----
-- Numbers
----

def isDigit (b : UInt8) : Bool :=
  0x30 ≤ b.toNat && b.toNat ≤ 0x39

/- `INT` -/
def scanInt :
    List UInt8 → Option (List UInt8 × List UInt8)
  | [] => none
  | b :: rest =>
      if b = 0x30 then
        some ([b], rest)
      else if isDigit b then
        some (b :: rest.takeWhile isDigit, rest.dropWhile isDigit)
      else
        none

/- `FRAC?` -/
def scanFrac :
    List UInt8 → List UInt8 × List UInt8
  | b :: rest =>
      if b = 0x2E ∧ rest.takeWhile isDigit ≠ [] then
        (b :: rest.takeWhile isDigit, rest.dropWhile isDigit)
      else
        ([], b :: rest)
  | [] => ([], [])

/- `EXP?` -/
def scanExp :
    List UInt8 → List UInt8 × List UInt8
  | b :: sign :: rest =>
      if (b = 0x65 ∨ b = 0x45) ∧ (sign = 0x2B ∨ sign = 0x2D) ∧
          rest.takeWhile isDigit ≠ [] then
        (b :: sign :: rest.takeWhile isDigit,
          rest.dropWhile isDigit)
      else
        ([], b :: sign :: rest)
  | bytes => ([], bytes)

/- `INT FRAC? EXP?` -/
def scanUnsigned
    (bytes : List UInt8) :
    Option (List UInt8 × List UInt8) :=
  (scanInt bytes).map
    (fun int =>
      let frac := scanFrac int.2
      let exp := scanExp frac.2
      (int.1 ++ frac.1 ++ exp.1, exp.2))

def scanNumber :
    List UInt8 → Option (List UInt8 × List UInt8)
  | [] => none
  | b :: rest =>
      if b = 0x2D then
        (scanUnsigned rest).map
          (fun found => (b :: found.1, found.2))
      else
        scanUnsigned (b :: rest)

----
-- Tokens
----

def isSpace (b : UInt8) : Bool :=
  b = 0x20 || b = 0x09 || b = 0x0D || b = 0x0A

/- The kind of a token that is one byte. -/
def punctuation (b : UInt8) : JSONTokenKind :=
  if b = 0x5B then
    .ARRAY_OPEN
  else if b = 0x5D then
    .ARRAY_CLOSE
  else if b = 0x7B then
    .OBJECT_OPEN
  else if b = 0x7D then
    .OBJECT_CLOSE
  else if b = 0x2C then
    .COMMA
  else if b = 0x3A then
    .COLON
  else
    .INVALID


/- The token that starts with the byte `b`. -/
def matchToken
    (b : UInt8)
    (rest : List UInt8) : Fetched :=
  if (ascii ['t', 'r', 'u', 'e']).isPrefixOf (b :: rest) then
    ⟨.TRUE, (b :: rest).take 4, (b :: rest).drop 4⟩
  else if
      (ascii ['f', 'a', 'l', 's', 'e']).isPrefixOf (b :: rest)
    then
    ⟨.FALSE, (b :: rest).take 5, (b :: rest).drop 5⟩
  else if
      (ascii ['n', 'u', 'l', 'l']).isPrefixOf (b :: rest)
    then
    ⟨.NIL, (b :: rest).take 4, (b :: rest).drop 4⟩
  else if b = QUOTE then
    match scanString .char rest with
    | some found => ⟨.STRING, b :: found.1, found.2⟩
    | none => ⟨.INVALID, [b], rest⟩
  else
    match scanNumber (b :: rest) with
    | some found => ⟨.NUMBER, found.1, found.2⟩
    | none => ⟨punctuation b, [b], rest⟩

/-
  The terminator is not passed: the cursor steps back onto it.
  A null byte before the end matches no other rule.
-/
def nextToken (bytes : List UInt8) : Fetched :=
  match bytes.dropWhile isSpace with
  | [] => ⟨.EOS, [], []⟩
  | b :: rest =>
      if b = 0 ∧ rest = [] then
        ⟨.EOS, [], [b]⟩
      else
        matchToken b rest

end Json

end Ydsh
