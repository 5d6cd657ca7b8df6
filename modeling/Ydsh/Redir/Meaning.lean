import Ydsh.Redir.RedirObject

/-
  What a list of redirections means.

  Each operation makes a standard descriptor refer to a file,
  to a pipe or to what another descriptor refers to at that
  time.  A failed operation has no meaning; it may still leave
  the standard input changed.

  Main declarations:
    * `means`
    * `meansAll`
    * `leftBy`
    * `Transactional`
-/

----
-- The Meaning of Operations
----

namespace Ydsh

namespace Redir

open Library.Descriptor

variable {α : Type}

/- What each descriptor refers to. -/
abbrev View (α : Type) := Nat → Option α

/- The description a file operation asks for. -/
def fileMeans
    (view : View α)
    (pair : Redirection α)
    (isAppend : Bool) : Option α :=
  match pair.arg with
  | .string value =>
      if hasNullChar value then
        none
      else
        pair.answers.opened.toOption
  | .unixFD fd =>
      if isAppend && pair.answers.lseek.isSome then
        none
      else
        fd.bind view
  | .none => none

/- The value of a here string cannot be passed on. -/
def hereFails (pair : Redirection α) : Bool :=
  if (argString pair.arg).utf8ByteSize + 1 ≤ PIPE_BUF then
    pair.answers.write.isSome ||
      pair.answers.writeNewline.isSome
  else
    pair.answers.fork.isSome

def hereMeans (pair : Redirection α) : Option α :=
  if hereFails pair then
    none
  else
    pair.answers.pipe.map Prod.fst

def setStd
    (view : View α)
    (fd : Nat)
    (description : Option α) : Option (View α) :=
  description.map
    (fun found => Function.update view fd (some found))

def setBoth
    (view : View α)
    (description : Option α) : Option (View α) :=
  description.map
    (fun found =>
      Function.update
        (Function.update view STDOUT_FILENO (some found))
        STDERR_FILENO (some found))

def means
    (view : View α)
    (pair : Redirection α) : Option (View α) :=
  let file := fileMeans view pair
  match pair.op with
  | .IN_2_FILE => setStd view STDIN_FILENO (file false)
  | .OUT_2_FILE => setStd view STDOUT_FILENO (file false)
  | .OUT_2_FILE_APPEND => setStd view STDOUT_FILENO (file true)
  | .ERR_2_FILE => setStd view STDERR_FILENO (file false)
  | .ERR_2_FILE_APPEND => setStd view STDERR_FILENO (file true)
  | .MERGE_ERR_2_OUT_2_FILE => setBoth view (file false)
  | .MERGE_ERR_2_OUT_2_FILE_APPEND => setBoth view (file true)
  | .MERGE_ERR_2_OUT =>
      setStd view STDERR_FILENO (view STDOUT_FILENO)
  | .MERGE_OUT_2_ERR =>
      setStd view STDOUT_FILENO (view STDERR_FILENO)
  | .HERE_STR => setStd view STDIN_FILENO (hereMeans pair)
  | .NOP => some view

def meansAll
    (view : View α) :
    List (Redirection α) → Option (View α)
  | [] => some view
  | pair :: ops =>
      match means view pair with
      | some view => meansAll view ops
      | none => none

/-
  A here string that fails has moved the pipe to the standard
  input already.
-/
def leaves
    (view : View α)
    (pair : Redirection α) : View α :=
  match pair.op, pair.answers.pipe with
  | .HERE_STR, some (readEnd, _) =>
      Function.update view STDIN_FILENO (some readEnd)
  | _, _ => view

/- What is in force at the end, or at the first failure. -/
def leftBy
    (view : View α) :
    List (Redirection α) → View α
  | [] => view
  | pair :: ops =>
      match means view pair with
      | some view => leftBy view ops
      | none => leaves view pair

/- A descriptor that one of the operations sets. -/
def isChanged
    (ops : List (Redirection α))
    (fd : Nat) : Bool :=
  ops.any (fun pair => (getChangedFD pair.op).testBit fd)

/- How many descriptors below `count` are set. -/
def backups
    (isSet : Nat → Bool)
    (count : Nat) : Nat :=
  (List.range count).countP isSet

----
-- Transactions
----

/- The descriptors and the error after a part of the list. -/
def afterOps
    (openMax : OpenMax)
    (table : Table α)
    (ops : List (Redirection α))
    (count : Nat) : Option (Table α × Option RedirObject.SystemError) :=
  let saved := (RedirObject.ofOps ops).backupFDs openMax table
  RedirObject.redirectOps saved.1.backupFDset saved.2
    (ops.take count)

/-
  A list of redirections is a transaction.  It is in force from
  the time the descriptors are saved: after each operation the
  standard descriptors are what the operations so far mean, or
  one of them has failed and is reported.
-/
structure Transactional
    (openMax : OpenMax)
    (table : Table α)
    (ops : List (Redirection α)) : Prop where
  returns :
    ((RedirObject.ofOps ops).redirect openMax table).isSome =
      true
  reports :
    ∀ count table' error,
      afterOps openMax table ops count = some (table', error) →
      (error.isSome = true ↔
        meansAll table.get (ops.take count) = none)
  inForce :
    ∀ count table' view,
      afterOps openMax table ops count = some (table', none) →
      meansAll table.get (ops.take count) = some view →
      ∀ fd < 3, table'.get fd = view fd
  restores :
    ∀ object table' error,
      (RedirObject.ofOps ops).redirect openMax table =
        some (object, table', error) →
      ∀ fd < 3, (object.destroy table').get fd = table.get fd
  closesBackups :
    ∀ object table' error,
      (RedirObject.ofOps ops).redirect openMax table =
        some (object, table', error) →
      ∀ fd old, object.oldFds fd = some old →
        (object.destroy table').get old = none
  keepsOthers :
    ∀ object table' error,
      (RedirObject.ofOps ops).redirect openMax table =
        some (object, table', error) →
      ∀ fd, 3 ≤ fd → table.get fd ≠ none →
        (object.destroy table').get fd = table.get fd

/- A file object holds an open or a standard descriptor. -/
def OwnsDescriptors
    (table : Table α)
    (ops : List (Redirection α)) : Prop :=
  ∀ pair ∈ ops, ∀ fd,
    pair.arg = .unixFD (some fd) →
      fd < 3 ∨ table.get fd ≠ none

/- A here string asks for a pipe and there is none. -/
def lacksPipe (pair : Redirection α) : Bool :=
  pair.op == .HERE_STR && pair.answers.pipe.isNone

/- An operation of the list is reached that lacks a pipe. -/
def reachesNoPipe
    (view : View α) :
    List (Redirection α) → Bool
  | [] => false
  | pair :: ops =>
      lacksPipe pair ||
        match means view pair with
        | some view => reachesNoPipe view ops
        | none => false

/- The operation fails and leaves no descriptor open. -/
def refused
    (view : View α)
    (pair : Redirection α) : Bool :=
  (means view pair).isNone && !lacksPipe pair &&
    !(pair.op == .HERE_STR && pair.answers.fork.isSome &&
      PIPE_BUF < (argString pair.arg).utf8ByteSize + 1)

/- The first operation that sets a descriptor is refused. -/
def firstRefused
    (view : View α)
    (ops : List (Redirection α)) : Bool :=
  match ops.find? (fun pair => pair.op != .NOP) with
  | some pair => refused view pair
  | none => true

/-
  Each descriptor that is set finds room for its copy, or the
  list leaves it with what it refers to.
-/
def HasBackups
    (openMax : OpenMax)
    (table : Table α)
    (ops : List (Redirection α)) : Prop :=
  ∀ fd < 3, isChanged ops fd = true →
    backups (isChanged ops) (fd + 1) ≤ table.room openMax ∨
      leftBy table.get ops fd = table.get fd

/-
  Nothing that is set is open, and nothing gets set; or all
  standard descriptors are open, there is a pipe for each here
  string and nothing is lost for want of a backup.
-/
def Restorable
    (openMax : OpenMax)
    (table : Table α)
    (ops : List (Redirection α)) : Prop :=
  ((∀ fd < 3, isChanged ops fd = true → table.get fd = none) ∧
      firstRefused table.get ops = true) ∨
    ((∀ fd < 3, table.get fd ≠ none) ∧
      reachesNoPipe table.get ops = false ∧
      HasBackups openMax table ops)

end Redir

end Ydsh
