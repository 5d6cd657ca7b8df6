import Ydsh.Serialize.Universe

/-
  Values read from JSON.

  The alternative of a union is found by reading with
  `validOnly`: values are dropped, the elements of an array are
  not read, and neither is what is inside a field of a struct
  or enum type.

  Main declarations:
    * `ValidationError`
    * `validateField`
    * `deserialize`
    * `fromJSON`
-/

----
-- Errors
----

namespace Ydsh

namespace Serialize

open Json (JSON ascii)

variable {δ : Type}

inductive Tag where
  | null
  | bool
  | long
  | double
  | string
  | array
  | object
  | invalid
  deriving DecidableEq, Repr

def getTag : JSON δ → Tag
  | .invalid => .invalid
  | .null => .null
  | .bool _ => .bool
  | .long _ => .long
  | .double _ => .double
  | .string _ => .string
  | .array _ => .array
  | .object _ => .object

def text (str : String) : List UInt8 :=
  ascii str.toList

def getJSONTypeStr : Tag → List UInt8
  | .null => text "null"
  | .bool => text "bool"
  | .long => text "long"
  | .double => text "double"
  | .string => text "string"
  | .object => text "object"
  | .array => text "array"
  | .invalid => text "invalid"

structure ValidationError where
  messages : List (List UInt8) := []
  deriving DecidableEq, Repr

/- The last message, and where it is from. -/
def ValidationError.formatError
    (error : ValidationError) : List UInt8 :=
  match error.messages.reverse with
  | [] => []
  | last :: earlier =>
      last ++
        earlier.flatMap
          (fun message => text "\n    from: " ++ message)

/- ``require `object', but is `long'`` -/
def requireMessage
    (required : Tag)
    (actual : Tag) : List UInt8 :=
  text "require `" ++ getJSONTypeStr required ++
    text "', but is `" ++ getJSONTypeStr actual ++ text "'"

def undefinedMessage (fieldName : FieldName) : List UInt8 :=
  text "undefined field `" ++ fieldName ++ text "'"

def fieldPrefix : Option FieldName → List UInt8
  | some fieldName => text "field `" ++ fieldName ++ text "' "
  | none => []

abbrev Checked := Except ValidationError

def appendError
    {α : Type}
    (message : List UInt8) : Checked α :=
  .error ⟨[message]⟩

/- Nothing: an optional field is not there. -/
def findField
    (value : JSON δ)
    (optional : Bool) :
    Option FieldName → Checked (Option (JSON δ))
  | none => .ok (some value)
  | some fieldName =>
      match value with
      | .object members =>
          match members.lookup fieldName with
          | some json => .ok (some json)
          | none =>
              if optional then
                .ok none
              else
                appendError (undefinedMessage fieldName)
      | _ => appendError (requireMessage .object (getTag value))

/- A field whatever it is. -/
def validateAny
    (value : JSON δ)
    (fieldName : Option FieldName) : Checked (JSON δ) := do
  match ← findField value false fieldName with
  | some json => pure json
  -- a field that must be there
  | none => throw {}

/- A field that is of the kind. -/
def validateField
    (value : JSON δ)
    (fieldName : Option FieldName)
    (tag : Tag) : Checked (JSON δ) := do
  let json ← validateAny value fieldName
  if getTag json = tag then
    pure json
  else
    appendError
      (fieldPrefix fieldName ++ requireMessage tag (getTag json))

----
-- Deserializer
----

def asBool : JSON δ → Bool
  | .bool v => v
  | _ => false

def asLong : JSON δ → Int64
  | .long v => v
  | _ => 0

def asString : JSON δ → List UInt8
  | .string v => v
  | _ => []

def asArray : JSON δ → List (JSON δ)
  | .array v => v
  | _ => []

/- What `validOnly` leaves of a value. -/
def keep
    (validOnly : Bool)
    (value : Val δ) : Val δ :=
  if validOnly then .unset else value

mutual

/- The value is read from a field, or without a name is all. -/
def deserialize
    (validOnly : Bool) :
    Ty → JSON δ → Option FieldName → Checked (Val δ)
  | .null, value, fieldName => do
      let _ ← validateField value fieldName .null
      pure .null
  | .bool, value, fieldName => do
      let json ← validateField value fieldName .bool
      pure (.bool (asBool json))
  | .int type, value, fieldName => do
      let json ← validateField value fieldName .long
      pure (.int (type.cast (asLong json).toInt))
  | .string, value, fieldName => do
      let json ← validateField value fieldName .string
      pure (keep validOnly (.string (asString json)))
  | .json, value, fieldName => do
      let json ← validateAny value fieldName
      pure (keep validOnly (.json json))
  | .enum underlying, value, fieldName => do
      let json ← validateAny value fieldName
      if validOnly && fieldName.isSome then
        pure .unset
      else
        let json ← validateField json none .long
        pure (.int (underlying.cast (asLong json).toInt))
  | .vector element, value, fieldName => do
      let json ← validateField value fieldName .array
      if validOnly then
        pure .unset
      else
        let vs ←
          (asArray json).mapM
            (fun e => deserialize validOnly element e none)
        pure (.vector vs)
  | .union alternatives, value, fieldName => do
      let json ← validateAny value fieldName
      fromJSON validOnly alternatives 0 {} json
  | .optional alternatives, value, fieldName => do
      match ← findField value true fieldName with
      | some json => fromJSON validOnly alternatives 0 {} json
      | none => pure .unset
  | .optionalJSON, value, fieldName => do
      match ← findField value true fieldName with
      | some json => pure (keep validOnly (.json json))
      | none => pure (.json .invalid)
  | .struct parts, value, fieldName => do
      let json ← validateField value fieldName .object
      if validOnly && fieldName.isSome then
        pure .unset
      else
        let vs ← deserializeParts validOnly parts json
        pure (.struct vs)

/- The first alternative that is valid; `error` is the last one. -/
def fromJSON
    (validOnly : Bool) :
    List Ty →
      Nat → ValidationError → JSON δ → Checked (Val δ)
  | [], _, error, _ => .error error
  | alt :: alternatives, tag, _, json =>
      match deserialize true alt json none with
      | .ok _ =>
          if validOnly then
            pure .unset
          else do
            let v ← deserialize validOnly alt json none
            pure (.union tag v)
      | .error error =>
          fromJSON validOnly alternatives (tag + 1) error json

def deserializeParts
    (validOnly : Bool) :
    List (Option FieldName × Ty) →
      JSON δ → Checked (List (Val δ))
  | [], _ => pure []
  | part :: parts, json => do
      let v ← deserializePart validOnly part json
      let vs ← deserializeParts validOnly parts json
      pure (v :: vs)

def deserializePart
    (validOnly : Bool) :
    Option FieldName × Ty → JSON δ → Checked (Val δ)
  | ⟨fieldName, ty⟩, json =>
      deserialize validOnly ty json fieldName

end

def ofJSON
    (ty : Ty)
    (json : JSON δ) : Checked (Val δ) :=
  deserialize false ty json none

/- The equations that proofs unfold. -/
attribute [local simp] findField getTag fromJSON deserialize
  deserializeParts

end Serialize

end Ydsh
