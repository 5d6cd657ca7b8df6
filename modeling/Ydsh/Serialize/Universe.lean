import Mathlib.Data.List.Basic
import Ydsh.Json.Parser

/-
  Types whose values are turned into JSON and back, and how
  they are turned into JSON.

  An optional is a union that may be without a value: `optional`
  has the alternatives of its base type, an optional of raw JSON
  is the JSON itself.  A struct is what its `jsonify` lists: its
  fields and, without a name, its base struct.

  Main declarations:
    * `IntType`
    * `Ty`
    * `Val`
    * `append`
    * `serialize`
    * `toJSON`
-/

----
-- Integers
----

namespace Ydsh

namespace Serialize

open Json (JSON ascii)

inductive IntWidth where
  | w8
  | w16
  | w32
  | w64
  deriving DecidableEq, Repr

structure IntType where
  isSigned : Bool
  width : IntWidth
  deriving DecidableEq, Repr

namespace IntWidth

/- How many values there are. -/
def size : IntWidth → Nat
  | w8 => 0x100
  | w16 => 0x10000
  | w32 => 0x100000000
  | w64 => 0x10000000000000000

end IntWidth

namespace IntType

def min (type : IntType) : Int :=
  if type.isSigned then -((type.width.size / 2 : Nat) : Int) else 0

def max (type : IntType) : Int :=
  if type.isSigned then
    (type.width.size / 2 : Nat) - 1
  else
    type.width.size - 1

def Contains
    (type : IntType)
    (n : Int) : Prop :=
  type.min ≤ n ∧ n ≤ type.max

instance
    (type : IntType)
    (n : Int) :
    Decidable (type.Contains n) :=
  inferInstanceAs (Decidable (_ ∧ _))

/- `static_cast` to the type. -/
def cast
    (type : IntType)
    (n : Int) : Int :=
  if type.isSigned then
    n.bmod type.width.size
  else
    n % type.width.size

/- An integer survives the way through `int64_t`. -/
theorem cast_long
    {type : IntType}
    {n : Int}
    (hIn : type.Contains n) :
    type.cast (Int64.ofInt n).toInt = n := by
  rcases type with ⟨isSigned, width⟩
  rcases hIn with ⟨hMin, hMax⟩
  rw [Int64.toInt_ofInt]
  cases isSigned <;> cases width <;>
    simp only [cast, min, max, IntWidth.size, Int64.size, Int.bmod,
      Bool.false_eq_true, if_false, if_true] at hMin hMax ⊢ <;>
    omega

end IntType

----
-- Types and Values
----

abbrev FieldName := List UInt8

inductive Ty where
  | null
  | bool
  | int (type : IntType)
  | string
  | json
  | enum (underlying : IntType)
  | vector (element : Ty)
  | union (alternatives : List Ty)
  | optional (alternatives : List Ty)
  | optionalJSON
  | struct (parts : List (Option FieldName × Ty))

/-
  `unset` is a union or an optional that holds no value, and
  what is left of a value that is not read.
-/
inductive Val (δ : Type) where
  | unset
  | null
  | bool (value : Bool)
  | int (value : Int)
  | string (value : List UInt8)
  | json (value : JSON δ)
  | vector (elements : List (Val δ))
  | union (tag : Nat) (value : Val δ)
  | struct (parts : List (Val δ))

namespace Ty

/- Types are built from the types they hold. -/
theorem induct
    {motive : Ty → Prop}
    (null : motive .null)
    (bool : motive .bool)
    (int : ∀ type, motive (.int type))
    (string : motive .string)
    (json : motive .json)
    (enum : ∀ underlying, motive (.enum underlying))
    (vector : ∀ element, motive element → motive (.vector element))
    (union :
      ∀ alternatives, (∀ alt ∈ alternatives, motive alt) →
        motive (.union alternatives))
    (optional :
      ∀ alternatives, (∀ alt ∈ alternatives, motive alt) →
        motive (.optional alternatives))
    (optionalJSON : motive .optionalJSON)
    (struct :
      ∀ parts : List (Option FieldName × Ty),
        (∀ part ∈ parts, motive part.2) →
          motive (.struct parts)) :
    ∀ ty, motive ty
  | .null => null
  | .bool => bool
  | .int type => int type
  | .string => string
  | .json => json
  | .enum underlying => enum underlying
  | .vector element =>
      vector element
        (induct null bool int string json enum vector union
          optional optionalJSON struct element)
  | .union alternatives =>
      union alternatives
        (fun alt _ =>
          induct null bool int string json enum vector union
            optional optionalJSON struct alt)
  | .optional alternatives =>
      optional alternatives
        (fun alt _ =>
          induct null bool int string json enum vector union
            optional optionalJSON struct alt)
  | .optionalJSON => optionalJSON
  | .struct parts =>
      struct parts
        (fun part _ =>
          induct null bool int string json enum vector union
            optional optionalJSON struct part.2)
termination_by ty => sizeOf ty
decreasing_by
  · simp_wf
  · have hLt := List.sizeOf_lt_of_mem ‹alt ∈ alternatives›
    simp_wf
    omega
  · have hLt := List.sizeOf_lt_of_mem ‹alt ∈ alternatives›
    simp_wf
    omega
  · have hLt := List.sizeOf_lt_of_mem ‹part ∈ parts›
    have hSize : sizeOf part.2 < sizeOf part := by
      cases part
      simp
    simp_wf
    omega

end Ty

end Serialize

end Ydsh

----
-- Serializer
----

namespace Ydsh

namespace Serialize

open Json (JSON insertMember)

variable {δ : Type}

/- No result: the shell ends, or there is no field name. -/
def append
    (result : JSON δ)
    (fieldName : Option FieldName)
    (json : JSON δ) : Option (JSON δ) :=
  match result with
  | .array elements => some (.array (elements ++ [json]))
  | .object members =>
      fieldName.map
        (fun name => .object (insertMember members (name, json)))
  | .invalid => some json
  | _ => none

mutual

/- What is serialized goes into the result so far. -/
def serialize :
    Ty →
      JSON δ → Option FieldName → Val δ → Option (JSON δ)
  | .null, result, fieldName, .null =>
      append result fieldName .null
  | .bool, result, fieldName, .bool v =>
      append result fieldName (.bool v)
  | .int _, result, fieldName, .int v =>
      append result fieldName (.long (Int64.ofInt v))
  | .string, result, fieldName, .string v =>
      append result fieldName (.string v)
  | .json, result, fieldName, .json v =>
      append result fieldName v
  | .enum _, result, fieldName, .int v =>
      (append .invalid none (.long (Int64.ofInt v))).bind
        (append result fieldName)
  | .vector element, result, fieldName, .vector vs =>
      (vs.foldlM (fun s e => serialize element s none e)
        (.array [])).bind
        (append result fieldName)
  | .union _, result, fieldName, .unset =>
      append result fieldName .invalid
  | .union alternatives, result, fieldName, .union tag v =>
      serializeAlternative alternatives tag result fieldName v
  | .optional _, result, _, .unset => some result
  | .optional alternatives, result, fieldName, .union tag v =>
      serializeAlternative alternatives tag result fieldName v
  | .optionalJSON, result, fieldName, .json v =>
      if v.isInvalid then
        some result
      else
        append result fieldName v
  | .struct parts, result, fieldName, .struct vs =>
      (serializeParts parts vs (.object [])).bind
        (append result fieldName)
  -- a value of another type
  | _, _, _, _ => none

def serializeAlternative :
    List Ty →
      Nat →
        JSON δ → Option FieldName → Val δ → Option (JSON δ)
  | [], _, result, fieldName, _ => append result fieldName .invalid
  | alt :: _, 0, result, fieldName, v =>
      serialize alt result fieldName v
  | _ :: alternatives, tag + 1, result, fieldName, v =>
      serializeAlternative alternatives tag result fieldName v

def serializeParts :
    List (Option FieldName × Ty) →
      List (Val δ) → JSON δ → Option (JSON δ)
  | [], [], result => some result
  | part :: parts, v :: vs, result =>
      (serializePart part v result).bind
        (serializeParts parts vs)
  | _, _, _ => none

def serializePart :
    Option FieldName × Ty →
      Val δ → JSON δ → Option (JSON δ)
  | ⟨fieldName, ty⟩, v, result => serialize ty result fieldName v

end

def toJSON
    (ty : Ty)
    (value : Val δ) : Option (JSON δ) :=
  serialize ty .invalid none value

end Serialize

end Ydsh
