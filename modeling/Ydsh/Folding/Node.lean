import Ydsh.Builtin.IntMethods
import Ydsh.Object.RegexReplace
import Ydsh.Scope.NameScope

/-
  Constant expressions, as the type checker folds them.

  The folder knows the predefined variables by their names,
  whereas a variable is the one that its name is resolved to.
  Expressions that are never folded have no structure here.

  Main declarations:
    * `Node`
    * `Shell`
    * `Place`
    * `WellTyped`
    * `applyConstFolding`
-/

----
-- Values
----

namespace Ydsh

namespace Folding

open RegexObject (Bytes MAX_SIZE Str)

open Scope (FieldHandle ScopeStore ScopeRef)

structure RegexFlags where
  caseless : Bool := false
  multiline : Bool := false
  dotall : Bool := false
  deriving DecidableEq, Repr

/- A number that is no integer is left as it is. -/
inductive Value where
  | string (value : Bytes)
  | int (value : Int64)
  | number (typeId : Nat) (bits : UInt64)
  | regex (str : Bytes) (flags : RegexFlags)
  deriving DecidableEq, Repr

/- Where a variable is. -/
inductive Storage where
  | env (isGlobal : Bool) (index : Nat)
  | random
  | seconds
  | const (index : Nat)
  | global (index : Nat)
  | local (index : Nat)
  deriving DecidableEq, Repr

def storage (handle : FieldHandle) : Storage :=
  if handle.attr.env then
    .env handle.attr.isGlobal handle.index
  else if handle.attr.random then
    .random
  else if handle.attr.seconds then
    .seconds
  else if handle.attr.modConst then
    .const handle.index
  else if handle.attr.isGlobal then
    .global handle.index
  else
    .local handle.index

----
-- Predefined Variables
----

def CVAR_SCRIPT_NAME : String := "SCRIPT_NAME"
def CVAR_SCRIPT_DIR : String := "SCRIPT_DIR"
def CVAR_VERSION : String := "YDSH_VERSION"
def CVAR_DATA_DIR : String := "DATA_DIR"
def CVAR_MODULE_DIR : String := "MODULE_DIR"
def CVAR_OSTYPE : String := "OSTYPE"
def CVAR_MACHTYPE : String := "MACHTYPE"

/- The constants of a shell, and the regular expressions that
   `pcre2_compile` accepts. -/
structure Shell where
  sourceName : Str
  scriptDir : Str
  version : Str
  dataDir : Str
  moduleDir : Str
  osType : Str
  machType : Str
  pcre2_compile : Bytes → RegexFlags → Bool

namespace Shell

def constMap (shell : Shell) : List (String × Str) :=
  [(CVAR_VERSION, shell.version),
    (CVAR_DATA_DIR, shell.dataDir),
    (CVAR_MODULE_DIR, shell.moduleDir),
    (CVAR_OSTYPE, shell.osType),
    (CVAR_MACHTYPE, shell.machType)]

/- Those that differ from script to script. -/
def scriptMap (shell : Shell) : List (String × Str) :=
  [(CVAR_SCRIPT_NAME, shell.sourceName),
    (CVAR_SCRIPT_DIR, shell.scriptDir)]

/- What the predefined variable of this name holds. -/
def predefined
    (shell : Shell)
    (name : String) : Option Str :=
  (shell.scriptMap ++ shell.constMap).lookup name

theorem predefined_of_scriptMap
    {shell : Shell}
    {name : String}
    {value : Str}
    (hLookup : shell.scriptMap.lookup name = some value) :
    shell.predefined name = some value := by
  unfold predefined
  rw [List.lookup_append, hLookup]
  rfl

theorem predefined_of_constMap
    {shell : Shell}
    {name : String}
    {value : Str}
    (hLookup : shell.constMap.lookup name = some value) :
    shell.predefined name = some value := by
  have hNone : shell.scriptMap.lookup name = none := by
    unfold scriptMap
    by_cases hName : name = CVAR_SCRIPT_NAME
    · rw [hName] at hLookup
      cases hLookup
    by_cases hDir : name = CVAR_SCRIPT_DIR
    · rw [hDir] at hLookup
      cases hLookup
    simp only [List.lookup_cons, List.lookup_nil,
      beq_false_of_ne hName, beq_false_of_ne hDir]
  unfold predefined
  rw [List.lookup_append, hNone]
  exact hLookup

end Shell

def predefinedNames : List String :=
  [CVAR_SCRIPT_NAME, CVAR_SCRIPT_DIR, CVAR_VERSION,
    CVAR_DATA_DIR, CVAR_MODULE_DIR, CVAR_OSTYPE, CVAR_MACHTYPE]

def intId : Nat := 6
def stringId : Nat := 9
def regexId : Nat := 10

/-
  A place in a program: the scope that names are looked up in.
  The predefined variables are bound once and for all in the
  scope of the builtin module, each is a string, and no other
  name leads to it.
-/
structure Place where
  scopes : ScopeStore
  scope : ScopeRef
  builtin : ScopeRef
  own :
    ∀ name handle other bound,
      scopes.lookup scope name = some handle →
        other ∈ predefinedNames →
          (scopes.scope builtin).find other = some bound →
            storage bound = storage handle → other = name
  distinct :
    ∀ name other handle bound,
      name ∈ predefinedNames →
        other ∈ predefinedNames →
          (scopes.scope builtin).find name = some handle →
            (scopes.scope builtin).find other = some bound →
              storage handle = storage bound → name = other
  typed :
    ∀ name handle bound,
      scopes.lookup scope name = some handle →
        name ∈ predefinedNames →
          (scopes.scope builtin).find name = some bound →
            storage bound = storage handle →
              handle.typeId = stringId

namespace Place

variable {place : Place}
variable {name other : String}
variable {handle : FieldHandle}

/- Where the predefined variable of this name is. -/
def predefined
    (place : Place)
    (name : String) : Option Storage :=
  if predefinedNames.contains name then
    ((place.scopes.scope place.builtin).find name).map storage
  else
    none

theorem predefined_eq_some
    {found : Storage}
    (hPredefined : place.predefined name = some found) :
    name ∈ predefinedNames ∧
      ∃ bound,
        (place.scopes.scope place.builtin).find name =
            some bound ∧
          storage bound = found := by
  unfold predefined at hPredefined
  by_cases hName : predefinedNames.contains name = true
  · rw [if_pos hName] at hPredefined
    rcases Option.map_eq_some_iff.mp hPredefined with
      ⟨bound, hFind, hStorage⟩
    exact ⟨List.contains_iff_mem.mp hName, bound, hFind, hStorage⟩
  · rw [if_neg hName] at hPredefined
    cases hPredefined

theorem eq_of_predefined
    {found : Storage}
    (hName : place.predefined name = some found)
    (hOther : place.predefined other = some found) :
    name = other := by
  rcases predefined_eq_some hName with
    ⟨hMem, handle, hFind, hStorage⟩
  rcases predefined_eq_some hOther with
    ⟨hMem', bound, hFind', hStorage'⟩
  exact
    place.distinct name other handle bound hMem hMem' hFind
      hFind' (hStorage.trans hStorage'.symm)

/- A name that leads to a predefined variable is its own. -/
theorem eq_of_lookup
    (hLookup :
      place.scopes.lookup place.scope name = some handle)
    (hOther : place.predefined other = some (storage handle)) :
    other = name := by
  rcases predefined_eq_some hOther with
    ⟨hMem, bound, hFind, hStorage⟩
  exact
    place.own name handle other bound hLookup hMem hFind hStorage

theorem typeId_of_predefined
    (hLookup :
      place.scopes.lookup place.scope name = some handle)
    (hName : place.predefined name = some (storage handle)) :
    handle.typeId = stringId := by
  rcases predefined_eq_some hName with
    ⟨hMem, bound, hFind, hStorage⟩
  exact place.typed name handle bound hLookup hMem hFind hStorage

end Place

inductive UnaryOp where
  | plus
  | minus
  | not
  | unwrap
  deriving DecidableEq, Repr

/-
  An expression with the types that have been checked.  A method
  call stands in an embedded expression that is no string.
-/
mutual

inductive Node where
  | string (value : Str)
  | int (value : Int64)
  | number (typeId : Nat) (bits : UInt64)
  | regex (reStr reFlag : Str)
  | unaryOp (op : UnaryOp) (type : Nat) (recv : Node)
  | stringExpr (exprs : Nodes)
  | embed (handle : Option Nat) (expr : Node)
  | var (varName : String) (handle : FieldHandle)
  | newRegex (str flag : Node)
  | other (type id : Nat)

inductive Nodes where
  | nil
  | cons (node : Node) (rest : Nodes)

end

namespace Node

def getType : Node → Nat
  | string _ => stringId
  | int _ => intId
  | number typeId _ => typeId
  | regex _ _ => regexId
  | unaryOp _ type _ => type
  | stringExpr _ => stringId
  | embed none expr => expr.getType
  | embed (some _) _ => stringId
  | var _ handle => handle.typeId
  | newRegex _ _ => regexId
  | other type _ => type

end Node

def toRegexFlag
    (ch : UInt8)
    (flags : RegexFlags) : Option RegexFlags :=
  if ch = 0x69 then
    some { flags with caseless := true }
  else if ch = 0x6d then
    some { flags with multiline := true }
  else if ch = 0x73 then
    some { flags with dotall := true }
  else
    none

def regexFlags : Bytes → RegexFlags → Option RegexFlags
  | [], flags => some flags
  | ch :: rest, flags =>
      (toRegexFlag ch flags).bind (regexFlags rest)

/- The flags of the compiled expression, if it compiles. -/
def compileRegex
    (shell : Shell)
    (pattern flag : Bytes) : Option RegexFlags :=
  if pattern.contains 0 then
    none
  else
    (regexFlags flag {}).bind
      (fun flags =>
        if shell.pcre2_compile pattern flags then
          some flags
        else
          none)

/- An operator that is a method of integers. -/
def isIntOp (op : UnaryOp) (type : Nat) : Bool :=
  op != .unwrap && type == intId

mutual

/- What the type checker has checked when it folds. -/
def WellTyped
    (shell : Shell)
    (place : Place) : Node → Prop
  | .string _ => True
  | .int _ => True
  | .number typeId _ => typeId ≠ intId ∧ typeId ≠ stringId
  | .regex reStr reFlag =>
      (compileRegex shell reStr.1 reFlag.1).isSome = true
  | .unaryOp op type recv =>
      WellTyped shell place recv ∧
        (isIntOp op type = true → recv.getType = intId)
  | .stringExpr exprs => WellTypedParts shell place exprs
  | .embed _ expr => WellTyped shell place expr
  | .var varName handle =>
      place.scopes.lookup place.scope varName = some handle
  | .newRegex str flag =>
      WellTyped shell place str ∧
        WellTyped shell place flag ∧
          str.getType = stringId ∧ flag.getType = stringId
  | .other _ _ => True

/- The parts of a string are strings. -/
def WellTypedParts
    (shell : Shell)
    (place : Place) : Nodes → Prop
  | .nil => True
  | .cons node rest =>
      WellTyped shell place node ∧
        node.getType = stringId ∧
          WellTypedParts shell place rest

end

----
-- Folding
----

/-
  The constant that stands for the expression, or an error.  It
  is undefined what happens after an overflow or if an assertion
  does not hold.
-/
inductive Folded where
  | constant (value : Value)
  | refused
  | undefined
  deriving DecidableEq, Repr

namespace Folded

/- The rest of the work, which asserts that there is a number or
   a string. -/
def expectInt
    (folded : Folded)
    (next : Int64 → Folded) : Folded :=
  match folded with
  | constant (.int value) => next value
  | constant _ => undefined
  | refused => refused
  | undefined => undefined

def expectString
    (folded : Folded)
    (next : Bytes → Folded) : Folded :=
  match folded with
  | constant (.string value) => next value
  | constant _ => undefined
  | refused => refused
  | undefined => undefined

end Folded

/- The folder negates as C++ does. -/
def foldInt : UnaryOp → Int64 → Folded
  | .minus, value =>
      match Builtin.negate value with
      | .returned value => .constant (.int value)
      | _ => .undefined
  | .not, value => .constant (.int (~~~value))
  | _, value => .constant (.int value)

/- What the folder knows about a name. -/
def constValue
    (shell : Shell)
    (varName : String)
    (handle : FieldHandle) : Option Str :=
  if handle.attr.modConst then
    shell.scriptMap.lookup varName
  else
    shell.constMap.lookup varName

def foldVar
    (shell : Shell)
    (varName : String)
    (handle : FieldHandle) : Folded :=
  match constValue shell varName handle with
  | none => .refused
  | some value =>
      if handle.typeId = stringId then
        .constant (.string value.1)
      else
        .undefined

def foldRegex (shell : Shell) (reStr reFlag : Bytes) : Folded :=
  match compileRegex shell reStr reFlag with
  | some flags => .constant (.regex reStr flags)
  | none => .refused

mutual

def applyConstFolding (shell : Shell) : Node → Folded
  | .string value => .constant (.string value.1)
  | .int value => .constant (.int value)
  | .number typeId bits => .constant (.number typeId bits)
  | .regex reStr reFlag => foldRegex shell reStr.1 reFlag.1
  | .unaryOp op type recv =>
      if isIntOp op type then
        (applyConstFolding shell recv).expectInt (foldInt op)
      else
        .refused
  | .stringExpr exprs => foldExprs shell [] exprs
  | .embed none expr => applyConstFolding shell expr
  | .embed (some _) _ => .refused
  | .var varName handle => foldVar shell varName handle
  | .newRegex str flag =>
      (applyConstFolding shell str).expectString
        (fun reStr =>
          (applyConstFolding shell flag).expectString
            (foldRegex shell reStr))
  | .other _ _ => .refused

/- The loop over the parts of a string. -/
def foldExprs (shell : Shell) (value : Bytes) : Nodes → Folded
  | .nil => .constant (.string value)
  | .cons node rest =>
      (applyConstFolding shell node).expectString
        (fun part => foldExprs shell (value ++ part) rest)

end

end Folding

end Ydsh
