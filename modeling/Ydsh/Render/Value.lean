/-
  Values and the text they stand for.

  Elements of arrays, maps and tuples may be absent, since an
  option holds either a value or nothing.  Objects live in a
  heap and may contain themselves, so a text is only reached
  within some depth of nesting.

  Main declarations:
    * `Value`, `Object`, `Heap`
    * `elemText`, `valueText`
    * `Request`, `Request.Renders`
    * `Reaches`
-/

----
-- Values
----

namespace Ydsh

namespace Render

/-
  A value that is present.  `other` is any value whose text
  `toString` or `createHeader` gives at once.
-/
inductive Value where
  | string (text : String)
  | other (text : String)
  | object (id : Nat)
  deriving DecidableEq

inductive Object where
  | array (values : List (Option Value))
  | map (entries : List (Value × Option Value))
  | tuple (fields : List (Option Value))
  deriving DecidableEq

namespace Object

def elements : Object → List (Option Value)
  | .array values => values
  | .map _ => []
  | .tuple fields => fields

def entries : Object → List (Value × Option Value)
  | .map entries => entries
  | _ => []

def Holds (object : Object) (value : Value) : Prop :=
  some value ∈ object.elements ∨
    ∃ entry ∈ object.entries,
      entry.1 = value ∨ entry.2 = some value

end Object

abbrev Heap :=
  Nat → Object

/- The two methods every value answers to. -/
inductive Op where
  | OP_STR
  | OP_INTERP

/- The mark that tells a tuple of one field from brackets. -/
def tupleEnd (size : Nat) : String :=
  if size = 1 then ",)" else ")"

def entryText
    (elem : Op → Option Value → Option String)
    (entry : Value × Option Value) : Option String :=
  (elem .OP_STR (some entry.1)).bind fun key =>
    (elem .OP_STR entry.2).map fun text => key ++ " : " ++ text

def Object.text
    (elem : Op → Option Value → Option String) :
    Op → Object → Option String
  | .OP_STR, .array values =>
      (values.mapM (elem .OP_STR)).map fun texts =>
        "[" ++ ", ".intercalate texts ++ "]"
  | .OP_INTERP, .array values =>
      (values.mapM (elem .OP_INTERP)).map " ".intercalate
  | _, .map entries =>
      (entries.mapM (entryText elem)).map fun texts =>
        "[" ++ ", ".intercalate texts ++ "]"
  | .OP_STR, .tuple fields =>
      (fields.mapM (elem .OP_STR)).map fun texts =>
        "(" ++ ", ".intercalate texts ++ tupleEnd fields.length
  | .OP_INTERP, .tuple fields =>
      (fields.mapM (elem .OP_INTERP)).map " ".intercalate

def valueText
    (heap : Heap)
    (elem : Op → Option Value → Option String)
    (op : Op) :
    Value → Option String
  | .string text => some text
  | .other text => some text
  | .object id => (heap id).text elem op

/- The text of an element, if it is within reach of `depth`. -/
def elemText
    (heap : Heap) :
    Nat → Op → Option Value → Option String
  | _, _, none => none
  | _, _, some (.string text) => some text
  | 0, _, some _ => none
  | depth + 1, op, some value =>
      valueText heap (elemText heap depth) op value

/- What a program can ask of the string buffer. -/
inductive Request where
  | toStr (value : Value)
  | toInterp (value : Value)
  | join (id : Nat) (delim : String)

/- The text of a present element of a joined array. -/
def joinedText
    (heap : Heap)
    (depth : Nat)
    (value : Option Value) : Option String :=
  value.bind (valueText heap (elemText heap depth) .OP_STR)

def Request.text
    (heap : Heap)
    (depth : Nat) :
    Request → Option String
  | .toStr value =>
      valueText heap (elemText heap depth) .OP_STR value
  | .toInterp value =>
      valueText heap (elemText heap depth) .OP_INTERP value
  | .join id delim =>
      ((heap id).elements.mapM (joinedText heap depth)).map
        delim.intercalate

/- `text` is the recursive rendering of the operand. -/
def Request.Renders
    (heap : Heap)
    (request : Request)
    (text : String) : Prop :=
  ∃ depth, request.text heap depth = some text

----
-- What an Operand Reaches
----

def Request.operand : Request → Value
  | .toStr value => value
  | .toInterp value => value
  | .join id _ => .object id

/- The objects that are read when a value is rendered. -/
inductive Reaches (heap : Heap) (value : Value) : Nat → Prop where
  | operand
      {id : Nat}
      (hOperand : value = .object id) :
      Reaches heap value id
  | part
      {id other : Nat}
      (hReaches : Reaches heap value id)
      (hPart : (heap id).Holds (.object other)) :
      Reaches heap value other

end Render

end Ydsh
