import Ydsh.Json.Unescape

/-
  The parser of JSON text.

  Arrays and objects are one loop over comma separated items.
  The result is `none` when a loop passes the bound on its
  rounds, which is the size of the text.

  Main declarations:
    * `parseValue`
    * `parseText`
-/

----
-- Errors
----

namespace Ydsh

namespace Json

inductive ErrorKind where
  | TOKEN_MISMATCHED
  | NO_VIABLE_ALTER
  | INVALID_TOKEN
  | TOKEN_FORMAT
  | DEEP_NESTING
deriving DecidableEq

structure ParseError where
  kind : JSONTokenKind
  errorToken : List UInt8
  errorKind : ErrorKind
  expectedTokens : List JSONTokenKind
  message : String
deriving DecidableEq

/- The token kinds of a message, separated by commas. -/
def alternatives (alters : List JSONTokenKind) : String :=
  ", ".intercalate
    (alters.map (fun kind => "`" ++ kind.toString ++ "'"))

def reportInvalidTokenError
    (p : Fetched)
    (alters : List JSONTokenKind) : ParseError :=
  ⟨p.curKind, p.curToken, .INVALID_TOKEN, alters,
    "invalid token, expected " ++ alternatives alters⟩

/- A message that names the token met, unless it is the end. -/
def mismatchMessage
    (p : Fetched)
    (alters : List JSONTokenKind) : String :=
  (if p.curKind = .EOS then
      ""
    else
      "mismatched token `" ++ p.curKind.toString ++ "', ") ++
    "expected " ++ alternatives alters

def reportTokenMismatchedError
    (p : Fetched)
    (expected : JSONTokenKind) : ParseError :=
  if p.curKind = .INVALID then
    reportInvalidTokenError p [expected]
  else
    ⟨p.curKind, p.curToken, .TOKEN_MISMATCHED, [expected],
      mismatchMessage p [expected]⟩

def reportNoViableAlterError
    (p : Fetched)
    (alters : List JSONTokenKind) : ParseError :=
  if p.curKind = .INVALID then
    reportInvalidTokenError p alters
  else
    ⟨p.curKind, p.curToken, .NO_VIABLE_ALTER, alters,
      mismatchMessage p alters⟩

def reportTokenFormatError
    (kind : JSONTokenKind)
    (token : List UInt8)
    (msg : String) : ParseError :=
  ⟨kind, token, .TOKEN_FORMAT, [],
    msg ++ ": " ++ kind.toString⟩

def reportDeepNestingError (p : Fetched) : ParseError :=
  ⟨p.curKind, p.curToken, .DEEP_NESTING, [],
    "parser recursion depth exceeded"⟩

abbrev Outcome (α : Type) := Option (Except ParseError α)

variable {α β σ δ : Type}

def done (a : α) : Outcome α :=
  some (.ok a)

def fail (e : ParseError) : Outcome α :=
  some (.error e)

/- The first error ends the parse. -/
def TRY : Outcome α → (α → Outcome β) → Outcome β
  | none, _ => none
  | some (.error e), _ => fail e
  | some (.ok a), next => next a

@[simp]
theorem TRY_done
    (a : α)
    (next : α → Outcome β) :
    TRY (done a) next = next a :=
  rfl

@[simp]
theorem TRY_fail
    (e : ParseError)
    (next : α → Outcome β) :
    TRY (fail e) next = fail e :=
  rfl

theorem done_inj
    {a b : α}
    (hEq : done a = done b) :
    a = b := by
  injection hEq with hOk
  injection hOk

def fetchNext (rest : List UInt8) : Fetched :=
  nextToken rest

def consume (p : Fetched) : Fetched :=
  fetchNext p.rest

def expect
    (kind : JSONTokenKind)
    (p : Fetched) : Outcome (List UInt8 × Fetched) :=
  if p.curKind = kind then
    done (p.curToken, consume p)
  else
    fail (reportTokenMismatchedError p kind)

/- `EACH_LA_VALUE` -/
def valueAlters : List JSONTokenKind :=
  [.NIL, .TRUE, .FALSE, .NUMBER, .STRING, .ARRAY_OPEN,
    .OBJECT_OPEN]

def parseNumber
    (doubles : DoubleText δ)
    (p : Fetched) : Outcome (JSON δ × Fetched) :=
  TRY (expect .NUMBER p)
    (fun token =>
      let number :=
        if isFloat token.1 then
          (doubles.convertToDouble token.1).map JSON.double
        else
          (convertToNum token.1).map JSON.long
      match number with
      | some value => done (value, token.2)
      | none =>
          fail
            (reportTokenFormatError .NUMBER token.1
              "out of range"))

/- The token without its quotes, unescaped. -/
def unescapeToken (token : List UInt8) : Outcome (List UInt8) :=
  match unescapeStr token.tail.dropLast with
  | some str => done str
  | none =>
      fail
        (reportTokenFormatError .STRING token
          "illegal string format")

def parseString (p : Fetched) : Outcome (JSON δ × Fetched) :=
  TRY (expect .STRING p)
    (fun token =>
      TRY (unescapeToken token.1)
        (fun str => done (.string str, token.2)))

----
-- Items
----

/-
  The loop of `parseArray` and of `parseObject`: what closes
  it, what starts an item, how an item is read and where it
  goes.
-/
def parseItems
    (closing : JSONTokenKind)
    (alters : List JSONTokenKind)
    (item : Fetched → Outcome (α × Fetched))
    (insert : σ → α → σ) :
    Nat → Nat → σ → Fetched → Outcome (σ × Fetched)
  | 0, _, _, _ => none
  | bound + 1, count, value, p =>
      if p.curKind = closing then
        done (value, p)
      else if count > 0 ∧ p.curKind ≠ .COMMA then
        fail (reportNoViableAlterError p [.COMMA, closing])
      else
        let q := if count > 0 then consume p else p
        if q.curKind ∈ alters then
          TRY (item q)
            (fun found =>
              parseItems closing alters item insert bound
                (count + 1) (insert value found.1) found.2)
        else
          fail (reportNoViableAlterError q (alters ++ [closing]))

/- `std::map::insert`: a key already there stays. -/
def insertMember :
    List (List UInt8 × JSON δ) → List UInt8 × JSON δ →
      List (List UInt8 × JSON δ)
  | [], member => [member]
  | found :: value, member =>
      if member.1 < found.1 then
        member :: found :: value
      else if found.1 < member.1 then
        found :: insertMember value member
      else
        found :: value

/- `parseArray` and `parseObject`: the items in brackets. -/
def parseBlock
    (opening closing : JSONTokenKind)
    (alters : List JSONTokenKind)
    (item : Fetched → Outcome (α × Fetched))
    (insert : σ → α → σ)
    (empty : σ)
    (wrap : σ → β)
    (limit : Nat)
    (p : Fetched) : Outcome (β × Fetched) :=
  TRY (expect opening p)
    (fun opened =>
      TRY
        (parseItems closing alters item insert limit 0 empty
          opened.2)
        (fun found =>
          TRY (expect closing found.2)
            (fun closed => done (wrap found.1, closed.2))))

def parseArray
    (limit : Nat)
    (element : Fetched → Outcome (JSON δ × Fetched)) :
    Fetched → Outcome (JSON δ × Fetched) :=
  parseBlock .ARRAY_OPEN .ARRAY_CLOSE valueAlters element
    (fun value e => value ++ [e]) [] .array limit

def parseMember
    (element : Fetched → Outcome (JSON δ × Fetched))
    (p : Fetched) :
    Outcome ((List UInt8 × JSON δ) × Fetched) :=
  TRY (expect .STRING p)
    (fun token =>
      TRY (expect .COLON token.2)
        (fun colon =>
          TRY (element colon.2)
            (fun value =>
              TRY (unescapeToken token.1)
                (fun key => done ((key, value.1), value.2)))))

def parseObject
    (limit : Nat)
    (element : Fetched → Outcome (JSON δ × Fetched)) :
    Fetched → Outcome (JSON δ × Fetched) :=
  parseBlock .OBJECT_OPEN .OBJECT_CLOSE [.STRING]
    (parseMember element) insertMember [] .object limit

def MAX_NESTING_DEPTH : Nat :=
  8000

/-
  The first argument counts the calls left before `callCount`
  is `MAX_NESTING_DEPTH`.
-/
def parseValue
    (doubles : DoubleText δ)
    (limit : Nat) :
    Nat → Fetched → Outcome (JSON δ × Fetched)
  | 0, p => fail (reportDeepNestingError p)
  | calls + 1, p =>
      match p.curKind with
      | .NIL => done (.null, consume p)
      | .TRUE => done (.bool true, consume p)
      | .FALSE => done (.bool false, consume p)
      | .NUMBER => parseNumber doubles p
      | .STRING => parseString p
      | .ARRAY_OPEN =>
          parseArray limit (parseValue doubles limit calls) p
      | .OBJECT_OPEN =>
          parseObject limit (parseValue doubles limit calls) p
      | _ => fail (reportNoViableAlterError p valueAlters)

/- The lexer's buffer: a last newline and the null byte. -/
def sourceBuffer (text : List UInt8) : List UInt8 :=
  if text.getLast? = some 0x0A then
    text ++ [0]
  else
    text ++ [0x0A, 0]

/- `JSONParser::operator()` -/
def parseText
    (doubles : DoubleText δ)
    (text : List UInt8) : Outcome (JSON δ) :=
  TRY
    (parseValue doubles (sourceBuffer text).length
      (MAX_NESTING_DEPTH - 1) (fetchNext (sourceBuffer text)))
    (fun found =>
      TRY (expect .EOS found.2) (fun _ => done found.1))

end Json

end Ydsh
