import Ydsh.Object.MapObject

/-
  Replacement of the matches of a regular expression.

  The search goes on in what is left of the subject after a
  match, and this rest is searched as a subject of its own.
  Where a regular expression matches is a parameter.

  Main declarations:
    * `Matcher`
    * `replace`
    * `Successive`
    * `Meets`
    * `Forward`
-/

----
-- Strings and Matchers
----

namespace Ydsh

namespace RegexObject

/- `StringObject::MAX_SIZE` -/
abbrev MAX_SIZE : Nat := 0x7FFFFFFF

abbrev Bytes := List UInt8

abbrev Str := { bytes : Bytes // bytes.length ≤ MAX_SIZE }

/- The leftmost match in a subject from a place on.  What
   stands before the place is seen. -/
structure Matcher where
  find : Bytes → Nat → Option (Nat × Nat)
  bounds :
    ∀ subject start span,
      find subject start = some span →
        start ≤ span.1 ∧ span.1 ≤ span.2 ∧
          span.2 ≤ subject.length

/- `false` is an error that was raised. -/
inductive ReplaceResult where
  | replaced (value : Bytes)
  | raised (error : RaisedError)
  deriving DecidableEq, Repr

def raiseSizeLimit : RaisedError :=
  { type := .outOfRangeError
    message := "reach String size limit" }

def appendAsStr (ret value : Bytes) : Option Bytes :=
  if ret.length > MAX_SIZE - value.length then
    none
  else
    some (ret ++ value)

/- An error, or the rest of the work. -/
def afterAppend
    (ret : Option Bytes)
    (next : Bytes → Option ReplaceResult) :
    Option ReplaceResult :=
  ret.elim (some (.raised raiseSizeLimit)) next

/- The loop, for so many rounds.  `ret` is the result so
   far. -/
def replaceLoop
    (re : Matcher)
    (value repl : Bytes) :
    Nat → Nat → Bytes → Bytes → Option ReplaceResult
  | 0, _, _, _ => none
  | rounds + 1, count, target, ret =>
      if target = [] then
        some (.replaced ret)
      else
        (re.find target 0).elim
          (if count = 0 then
            some (.replaced value)
          else
            afterAppend (appendAsStr ret target)
              (fun ret => some (.replaced ret)))
          (fun span =>
            afterAppend (appendAsStr ret (target.take span.1))
              (fun ret =>
                afterAppend (appendAsStr ret repl)
                  (replaceLoop re value repl rounds (count + 1)
                    (target.drop span.2))))

def replace
    (re : Matcher)
    (value repl : Str)
    (rounds : Nat) : Option ReplaceResult :=
  replaceLoop re value.1 repl.1 rounds 0 value.1 []

----
-- Matches in the Whole Subject
----

/- Where the search goes on after a match.  After an empty one
   the next may not begin at its place. -/
def afterSpan (span : Nat × Nat) : Nat :=
  if span.1 < span.2 then span.2 else span.2 + 1

/- The successive matches from a place on that do not
   overlap. -/
inductive Successive
    (re : Matcher)
    (subject : Bytes) : Nat → List (Nat × Nat) → Prop where
  | past
      {start : Nat}
      (hPast : subject.length < start) :
      Successive re subject start []
  | none
      {start : Nat}
      (hStart : start ≤ subject.length)
      (hFind : re.find subject start = .none) :
      Successive re subject start []
  | next
      {start : Nat}
      {span : Nat × Nat}
      {spans : List (Nat × Nat)}
      (hStart : start ≤ subject.length)
      (hFind : re.find subject start = some span)
      (hMore : Successive re subject (afterSpan span) spans) :
      Successive re subject start (span :: spans)

/- What is not in a span, from a place on. -/
def gaps
    (subject : Bytes) : Nat → List (Nat × Nat) → List Bytes
  | start, [] => [subject.drop start]
  | start, span :: spans =>
      (subject.take span.1).drop start ::
        gaps subject span.2 spans

/- The replacement stands between the texts. -/
def joined (repl : Bytes) : List Bytes → Bytes
  | [] => []
  | [text] => text
  | text :: texts => text ++ repl ++ joined repl texts

/- A text, or an error if it is too long for a string. -/
def limited (text : Bytes) : ReplaceResult :=
  if text.length ≤ MAX_SIZE then
    .replaced text
  else
    .raised raiseSizeLimit

/- The loop ends, with every match replaced. -/
def Meets
    (re : Matcher)
    (value repl : Str) : Prop :=
  ∃ spans rounds,
    Successive re value.1 0 spans ∧
      replace re value repl rounds =
        some (limited (joined repl.1 (gaps value.1 0 spans)))

/- The equations that proofs unfold. -/
attribute [local simp] replaceLoop gaps joined

end RegexObject

end Ydsh
