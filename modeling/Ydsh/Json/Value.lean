import Mathlib.Data.Nat.Digits.Defs

/-
  JSON values and the text the serializer gives them.

  A string is its bytes.  An object is a `std::map`: its
  members in the order of their keys.

  Main declarations:
    * `JSON`
    * `JSON.induct`
    * `serializeText`
-/

----
-- Values
----

namespace Ydsh

namespace Json

inductive JSON (δ : Type) where
  | invalid
  | null
  | bool (value : Bool)
  | long (value : Int64)
  | double (value : δ)
  | string (value : List UInt8)
  | array (value : List (JSON δ))
  | object (value : List (List UInt8 × JSON δ))

/- What the library does with a `double`. -/
structure DoubleText (δ : Type) where
  to_string : δ → List UInt8
  convertToDouble : List UInt8 → Option δ

namespace JSON

variable {δ : Type}

def isInvalid : JSON δ → Bool
  | .invalid => true
  | _ => false

/- Values are built from their elements and members. -/
theorem induct
    {motive : JSON δ → Prop}
    (invalid : motive .invalid)
    (null : motive .null)
    (bool : ∀ value, motive (.bool value))
    (long : ∀ value, motive (.long value))
    (double : ∀ value, motive (.double value))
    (string : ∀ value, motive (.string value))
    (array :
      ∀ value, (∀ e ∈ value, motive e) →
        motive (.array value))
    (object :
      ∀ value : List (List UInt8 × JSON δ),
        (∀ e ∈ value, motive e.2) → motive (.object value)) :
    ∀ value, motive value
  | .invalid => invalid
  | .null => null
  | .bool value => bool value
  | .long value => long value
  | .double value => double value
  | .string value => string value
  | .array value =>
      array value
        (fun e _ =>
          induct invalid null bool long double string array
            object e)
  | .object value =>
      object value
        (fun e _ =>
          induct invalid null bool long double string array
            object e.2)
termination_by value => sizeOf value
decreasing_by
  · have hLt := List.sizeOf_lt_of_mem ‹e ∈ value›
    simp only [JSON.array.sizeOf_spec]
    omega
  · have hLt := List.sizeOf_lt_of_mem ‹e ∈ value›
    have hSize : sizeOf e.2 < sizeOf e := by
      cases e
      simp
    simp only [JSON.object.sizeOf_spec]
    omega

end JSON

def ascii (text : List Char) : List UInt8 :=
  text.map Char.toUInt8

def QUOTE : UInt8 := 0x22

def BACKSLASH : UInt8 := 0x5C

/- `%x` of one digit. -/
def hexDigit (value : Nat) : UInt8 :=
  if value < 10 then
    UInt8.ofNat (0x30 + value)
  else
    UInt8.ofNat (0x61 + (value - 10))

/- `%04x` -/
def hex4 (value : Nat) : List UInt8 :=
  [hexDigit (value / 4096 % 16), hexDigit (value / 256 % 16),
    hexDigit (value / 16 % 16), hexDigit (value % 16)]

def decimal (value : Nat) : List UInt8 :=
  if value = 0 then
    ascii ['0']
  else
    (Nat.digits 10 value).reverse.map
      (fun digit => UInt8.ofNat (0x30 + digit))

/- `std::to_string(int64_t)` -/
def to_string (value : Int64) : List UInt8 :=
  if value.toInt < 0 then
    ascii ['-'] ++ decimal value.toInt.natAbs
  else
    decimal value.toInt.natAbs

----
-- Serializer
----

def escapeByte (ch : UInt8) : List UInt8 :=
  if ch.toNat < 0x1F then
    [BACKSLASH, 0x75] ++ hex4 ch.toNat
  else if ch = BACKSLASH ∨ ch = QUOTE then
    [BACKSLASH, ch]
  else
    [ch]

def serializeString (value : List UInt8) : List UInt8 :=
  [QUOTE] ++ value.flatMap escapeByte ++ [QUOTE]

/- A line break is written only when there are tabs. -/
def newline (tab : Nat) : List UInt8 :=
  if tab > 0 then ascii ['\n'] else []

def indent
    (tab level : Nat) : List UInt8 :=
  List.replicate (level * tab) 0x20

def enter
    (tab : Nat)
    (ch : UInt8) : List UInt8 :=
  [ch] ++ newline tab

def leave
    (tab level : Nat)
    (ch : UInt8) : List UInt8 :=
  newline tab ++ indent tab level ++ [ch]

def separator (tab : Nat) : List UInt8 :=
  ascii [','] ++ newline tab

/- The loop over the valid elements, given their texts;
   `actualSize` is how many there are. -/
def serializeItems
    (tab level : Nat) :
    Nat → List (List UInt8) → List UInt8
  | _, [] => []
  | count, text :: texts =>
      (if count > 0 then separator tab else []) ++
        (indent tab level ++
          (text ++ serializeItems tab level (count + 1) texts))

/- An array or an object between its brackets. -/
def serializeBlock
    (tab level : Nat)
    (opening closing : UInt8)
    (texts : List (List UInt8)) : List UInt8 :=
  if texts.length = 0 then
    [opening, closing]
  else
    enter tab opening ++
      serializeItems tab (level + 1) 0 texts ++
      leave tab level closing

def serializeKey
    (tab : Nat)
    (key : List UInt8) : List UInt8 :=
  serializeString key ++ ascii [':'] ++
    (if tab > 0 then ascii [' '] else [])

variable {δ : Type}

mutual

def serialize
    (doubles : DoubleText δ)
    (tab level : Nat) : JSON δ → List UInt8
  -- never reached: `fatal`
  | .invalid => []
  | .null => ascii ['n', 'u', 'l', 'l']
  | .bool value =>
      if value then
        ascii ['t', 'r', 'u', 'e']
      else
        ascii ['f', 'a', 'l', 's', 'e']
  | .long value => to_string value
  | .double value => doubles.to_string value
  | .string value => serializeString value
  | .array value =>
      serializeBlock tab level 0x5B 0x5D
        (elementTexts doubles tab (level + 1) value)
  | .object value =>
      serializeBlock tab level 0x7B 0x7D
        (memberTexts doubles tab (level + 1) value)

/- Invalid elements are left out. -/
def elementTexts
    (doubles : DoubleText δ)
    (tab level : Nat) :
    List (JSON δ) → List (List UInt8)
  | [] => []
  | e :: value =>
      if e.isInvalid then
        elementTexts doubles tab level value
      else
        serialize doubles tab level e ::
          elementTexts doubles tab level value

def memberTexts
    (doubles : DoubleText δ)
    (tab level : Nat) :
    List (List UInt8 × JSON δ) → List (List UInt8)
  | [] => []
  | (key, e) :: value =>
      if e.isInvalid then
        memberTexts doubles tab level value
      else
        (serializeKey tab key ++
          serialize doubles tab level e) ::
            memberTexts doubles tab level value

end

/- `JSON::serialize` -/
def serializeText
    (doubles : DoubleText δ)
    (tab : Nat)
    (value : JSON δ) : List UInt8 :=
  if value.isInvalid then
    []
  else
    serialize doubles tab 0 value ++ newline tab

end Json

end Ydsh
