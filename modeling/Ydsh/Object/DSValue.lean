import Ydsh.Object.RegexReplace

/-
  Values that may be keys of a map and that may be sorted.

  A string of up to 14 bytes stands in the value itself, a
  longer one is an object.  The hashes of the other values are
  those of the standard library.

  Main declarations:
    * `Double`
    * `SmallStr`
    * `DSValue`
    * `DSValue.equals`
    * `DSValue.hash`
    * `DSValue.compare`
-/

----
-- Numbers
----

namespace Ydsh

namespace Object

open RegexObject (Bytes MAX_SIZE raiseSizeLimit)

/- The bits of an IEEE 754 number of double precision. -/
structure Double where
  bits : UInt64
  deriving DecidableEq, Repr

namespace Double

def negative (x : Double) : Bool :=
  0x8000000000000000 ≤ x.bits.toNat

/- Exponent and fraction.  All exponent bits are set in the
   numbers from `0x7ff0000000000000` on. -/
def magnitude (x : Double) : Nat :=
  x.bits.toNat % 0x8000000000000000

def isNaN (x : Double) : Bool :=
  0x7ff0000000000000 < x.magnitude

/- Where a number stands in the order.  Both zeros stand at the
   same place. -/
def position (x : Double) : Int :=
  if x.negative then -x.magnitude else x.magnitude

/- A number that is not a number is not equal to anything. -/
def eq (x y : Double) : Bool :=
  !x.isNaN && !y.isNaN && x.position == y.position

def lt (x y : Double) : Bool :=
  !x.isNaN && !y.isNaN && x.position < y.position

end Double

/- `std::hash`, of which is known that equal numbers have equal
   hashes. -/
structure StdHash where
  bool : Bool → UInt64
  int64 : Int64 → UInt64
  double : Double → UInt64
  double_eq :
    ∀ x y, Double.eq x y = true → double x = double y

----
-- Strings
----

namespace StringRef

/- The difference of the first bytes that are not the same. -/
def memcmp : Nat → Bytes → Bytes → Int
  | size + 1, x :: left, y :: right =>
      if x = y then
        memcmp size left right
      else
        x.toNat - y.toNat
  | _, _, _ => 0

def eq (left right : Bytes) : Bool :=
  left.length == right.length &&
    memcmp left.length left right == 0

def compare (left right : Bytes) : Int :=
  let size := min left.length right.length
  let ret := memcmp size left right
  if ret ≠ 0 then
    ret
  else if left.length < right.length then
    -1
  else if left.length = right.length then
    0
  else
    1

def lt (left right : Bytes) : Bool :=
  compare left right < 0

/- The equations that proofs unfold. -/
attribute [local simp] memcmp

end StringRef

namespace FNVHash

def offset_basis : UInt64 := 0xcbf29ce484222325

def prime : UInt64 := 0x100000001b3

def update (hash : UInt64) (value : UInt8) : UInt64 :=
  (hash * prime) ^^^ value.toUInt64

def compute (text : Bytes) : UInt64 :=
  text.foldl update offset_basis

end FNVHash

/-
  A string within a value.  The bytes after the terminator are
  those that happened to be there.
-/
structure SmallStr where
  size : Nat
  value : Bytes
  size_le : size ≤ 14
  length_eq : value.length = 15
  terminated : value[size]? = some 0
  deriving DecidableEq, Repr

----
-- Values
----

inductive DSValue where
  | bool (value : Bool)
  | sig (value : Int64)
  | int (value : Int64)
  | float (value : Double)
  | sstr (str : SmallStr)
  | string (value : Bytes)
  deriving DecidableEq, Repr

namespace DSValue

def getType : DSValue → BuiltinType
  | bool _ => .boolean
  | sig _ => .signal
  | int _ => .int
  | float _ => .float
  | sstr _ => .string
  | string _ => .string

/- The size of a string object has 32 bits. -/
def stringSize (value : Bytes) : Nat :=
  value.length % 0x100000000

/- The bytes of a value that is a string. -/
def asStrRef : DSValue → Option Bytes
  | sstr str => some (str.value.take str.size)
  | string value => some (value.take (stringSize value))
  | _ => none

/- A signal number is an `int`. -/
def asSig (value : Int64) : Int32 :=
  value.toInt32

def equals (left right : DSValue) : Bool :=
  match left.asStrRef, right.asStrRef with
  | some left, some right => StringRef.eq left right
  | _, _ =>
      match left, right with
      | bool left, bool right => left == right
      | sig left, sig right => asSig left == asSig right
      | int left, int right => left == right
      | float left, float right => Double.eq left right
      | _, _ => false

def hash (std : StdHash) (value : DSValue) : UInt64 :=
  match value with
  | bool value => std.bool value
  | sig value => std.int64 (asSig value).toInt64
  | int value => std.int64 value
  | float value => std.double value
  | _ => FNVHash.compute (value.asStrRef.getD [])

/- No value: the kinds differ, and an assertion fails. -/
def compare (left right : DSValue) : Option Bool :=
  match left.asStrRef, right.asStrRef with
  | some left, some right => some (StringRef.lt left right)
  | _, _ =>
      match left, right with
      | bool left, bool right =>
          some (decide (left.toNat < right.toNat))
      | sig left, sig right =>
          some (decide (asSig left < asSig right))
      | int left, int right => some (decide (left < right))
      | float left, float right => some (Double.lt left right)
      | _, _ => none

/- The equations that proofs unfold. -/
attribute [local simp] equals compare

end DSValue

end Object

end Ydsh
