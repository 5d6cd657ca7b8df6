import Ydsh.Library.Descriptor

/-
  Redirections of the standard descriptors.

  The operations of a redirection object are applied from left
  to right.  What they change is saved in new descriptors
  before, and put back when the object is destroyed.

  Main declarations:
    * `RedirOP`
    * `redirectImpl`
    * `RedirObject.redirect`
    * `RedirObject.destroy`
-/

----
-- Operations
----

namespace Ydsh

namespace Redir

open Library.Descriptor

abbrev STDIN_FILENO : Nat := 0
abbrev STDOUT_FILENO : Nat := 1
abbrev STDERR_FILENO : Nat := 2

abbrev FD_BIT_0 : Nat := 1 <<< 0
abbrev FD_BIT_1 : Nat := 1 <<< 1
abbrev FD_BIT_2 : Nat := 1 <<< 2

abbrev PIPE_BUF : Nat := 4096

abbrev REDIR_ERROR : String := "io redirection error"

inductive RedirOP where
  | IN_2_FILE
  | OUT_2_FILE
  | OUT_2_FILE_APPEND
  | ERR_2_FILE
  | ERR_2_FILE_APPEND
  | MERGE_ERR_2_OUT_2_FILE
  | MERGE_ERR_2_OUT_2_FILE_APPEND
  | MERGE_ERR_2_OUT
  | MERGE_OUT_2_ERR
  | HERE_STR
  | NOP
  deriving DecidableEq, Repr

def getChangedFD : RedirOP → Nat
  | .IN_2_FILE => FD_BIT_0
  | .OUT_2_FILE => FD_BIT_1
  | .OUT_2_FILE_APPEND => FD_BIT_1
  | .ERR_2_FILE => FD_BIT_2
  | .ERR_2_FILE_APPEND => FD_BIT_2
  | .MERGE_ERR_2_OUT_2_FILE => FD_BIT_2 ||| FD_BIT_1
  | .MERGE_ERR_2_OUT_2_FILE_APPEND => FD_BIT_2 ||| FD_BIT_1
  | .MERGE_ERR_2_OUT => FD_BIT_2
  | .MERGE_OUT_2_ERR => FD_BIT_1
  | .HERE_STR => FD_BIT_0
  | .NOP => 0

/- An error number is not zero. -/
abbrev Errno := { value : Nat // value ≠ 0 }

abbrev EBADF : Errno := ⟨9, by decide⟩
abbrev EINVAL : Errno := ⟨22, by decide⟩

/- The value of an operation; `-1` stands for no descriptor. -/
inductive RedirArg where
  | none
  | string (value : String)
  | unixFD (fd : Option Nat)
  deriving DecidableEq, Repr

/-
  How many descriptors a process may have.  A process may
  always have the standard ones.
-/
abbrev OpenMax := { value : Nat // 3 ≤ value }

/-
  What the system answers to the calls of one operation: the
  description that `open` gives, the two ends of a pipe, and
  the errors of the calls that can fail.  The shell exits when
  there is no pipe.
-/
structure Answers (α : Type) where
  opened : Except Errno α
  lseek : Option Errno
  pipe : Option (α × α)
  write : Option Errno
  writeNewline : Option Errno
  fork : Option Errno

structure Redirection (α : Type) where
  op : RedirOP
  arg : RedirArg
  answers : Answers α

inductive RedirOpenFlag where
  | READ
  | WRITE
  | APPEND
  deriving DecidableEq, Repr

variable {α : Type}

/- The open descriptors and the error of an operation. -/
abbrev OpResult (α : Type) := Table α × Option Errno

def dup2
    (table : Table α)
    (source : Option Nat)
    (target : Nat) : OpResult α :=
  match source.bind (fun fd => table.dup2 fd target) with
  | some table => (table, none)
  | none => (table, some EBADF)

def hasNullChar (value : String) : Bool :=
  value.toList.contains '\x00'

/- A file operation always has a value. -/
def redirectToFile
    (table : Table α)
    (fileName : RedirArg)
    (answers : Answers α)
    (openFlag : RedirOpenFlag)
    (targetFD : Nat) : OpResult α :=
  match fileName with
  | .string value =>
      if hasNullChar value then
        (table, some EINVAL)
      else
        match answers.opened with
        | .error e => (table, some e)
        | .ok description =>
            let opened := table.allocate description
            let result := dup2 opened.1 (some opened.2) targetFD
            (result.1.close opened.2, result.2)
  | .unixFD fd =>
      if openFlag = .APPEND ∧ (fd.bind table.get).isNone then
        (table, some EBADF)
      else if openFlag = .APPEND ∧ answers.lseek.isSome then
        (table, answers.lseek)
      else
        dup2 table fd targetFD
  | .none => (table, some EBADF)

/- The value and a new line are written into a new pipe. -/
def doIOHere
    (table : Table α)
    (value : String)
    (answers : Answers α) : Option (OpResult α) :=
  match answers.pipe with
  | none => none
  | some (readEnd, writeEnd) =>
      let read := table.allocate readEnd
      let write := read.1.allocate writeEnd
      let table := (dup2 write.1 (some read.2) STDIN_FILENO).1
      if value.utf8ByteSize + 1 ≤ PIPE_BUF then
        some
          ((table.close read.2).close write.2,
            answers.write.or answers.writeNewline)
      else if answers.fork.isSome then
        some (table, answers.fork)
      else
        some ((table.close read.2).close write.2, none)

def argString : RedirArg → String
  | .string value => value
  | _ => ""

def redirectToBoth
    (table : Table α)
    (pair : Redirection α)
    (openFlag : RedirOpenFlag) : OpResult α :=
  let result :=
    redirectToFile table pair.arg pair.answers openFlag
      STDOUT_FILENO
  if result.2.isSome then
    result
  else
    dup2 result.1 (some STDOUT_FILENO) STDERR_FILENO

def redirectImpl
    (table : Table α)
    (pair : Redirection α) : Option (OpResult α) :=
  let toFile :=
    redirectToFile table pair.arg pair.answers
  match pair.op with
  | .IN_2_FILE => some (toFile .READ STDIN_FILENO)
  | .OUT_2_FILE => some (toFile .WRITE STDOUT_FILENO)
  | .OUT_2_FILE_APPEND => some (toFile .APPEND STDOUT_FILENO)
  | .ERR_2_FILE => some (toFile .WRITE STDERR_FILENO)
  | .ERR_2_FILE_APPEND => some (toFile .APPEND STDERR_FILENO)
  | .MERGE_ERR_2_OUT_2_FILE =>
      some (redirectToBoth table pair .WRITE)
  | .MERGE_ERR_2_OUT_2_FILE_APPEND =>
      some (redirectToBoth table pair .APPEND)
  | .MERGE_ERR_2_OUT =>
      some (dup2 table (some STDOUT_FILENO) STDERR_FILENO)
  | .MERGE_OUT_2_ERR =>
      some (dup2 table (some STDERR_FILENO) STDOUT_FILENO)
  | .HERE_STR =>
      doIOHere table (argString pair.arg) pair.answers
  | .NOP => some (table, none)

----
-- Redirection Objects
----

structure RedirObject (α : Type) where
  backupFDset : Nat
  ops : List (Redirection α)
  oldFds : Nat → Option Nat

namespace RedirObject

def empty : RedirObject α := ⟨0, [], fun _ => none⟩

def addRedirOp
    (object : RedirObject α)
    (pair : Redirection α) : RedirObject α :=
  { object with
    ops := object.ops ++ [pair]
    backupFDset := object.backupFDset ||| getChangedFD pair.op }

def ofOps (ops : List (Redirection α)) : RedirObject α :=
  ops.foldl addRedirOp empty

/- The standard descriptors that are saved. -/
def isBackup
    (object : RedirObject α)
    (fd : Nat) : Bool :=
  object.backupFDset.testBit fd

/-
  `fcntl` with `F_DUPFD_CLOEXEC` and no lower limit.  It is
  refused for a closed descriptor, and when the process has all
  descriptors it may have.
-/
def backupFD
    (openMax : OpenMax)
    (state : RedirObject α × Table α)
    (fd : Nat) : RedirObject α × Table α :=
  if state.1.isBackup fd then
    match state.2.dup openMax fd with
    | some (table, newFD) =>
        ({ state.1 with
            oldFds :=
              Function.update state.1.oldFds fd (some newFD) },
          table)
    | none =>
        ({ state.1 with
            oldFds := Function.update state.1.oldFds fd none },
          state.2)
  else
    state

def backupFDs
    (openMax : OpenMax)
    (object : RedirObject α)
    (table : Table α) : RedirObject α × Table α :=
  [0, 1, 2].foldl (backupFD openMax) (object, table)

def restoreFD
    (object : RedirObject α)
    (table : Table α)
    (fd : Nat) : Table α :=
  if object.isBackup fd then
    (dup2 table (object.oldFds fd) fd).1
  else
    table

def restoreFDs
    (object : RedirObject α)
    (table : Table α) : Table α :=
  [0, 1, 2].foldl object.restoreFD table

def closeOldFD
    (object : RedirObject α)
    (table : Table α)
    (fd : Nat) : Table α :=
  match object.oldFds fd with
  | some old => table.close old
  | none => table

/- The destructor. -/
def destroy
    (object : RedirObject α)
    (table : Table α) : Table α :=
  [0, 1, 2].foldl object.closeOldFD (object.restoreFDs table)

/- The error that is raised when an operation fails. -/
structure SystemError where
  errno : Errno
  message : String
  deriving DecidableEq, Repr

def errorMessage : RedirArg → String
  | .string value =>
      if value.isEmpty then
        REDIR_ERROR
      else
        REDIR_ERROR ++ ": " ++ value
  | .unixFD (some fd) => REDIR_ERROR ++ ": " ++ toString fd
  | .unixFD none => REDIR_ERROR ++ ": -1"
  | .none => REDIR_ERROR

/- An object without backups does not look at errors. -/
def redirectOps
    (backupFDset : Nat)
    (table : Table α) :
    List (Redirection α) →
      Option (Table α × Option SystemError)
  | [] => some (table, none)
  | pair :: ops =>
      match redirectImpl table pair with
      | none => none
      | some (table, error) =>
          match error with
          | none => redirectOps backupFDset table ops
          | some e =>
              if 0 < backupFDset then
                some (table, some ⟨e, errorMessage pair.arg⟩)
              else
                redirectOps backupFDset table ops

/- There is no result when the shell exits. -/
def redirect
    (openMax : OpenMax)
    (object : RedirObject α)
    (table : Table α) :
    Option (RedirObject α × Table α × Option SystemError) :=
  let saved := object.backupFDs openMax table
  (redirectOps saved.1.backupFDset saved.2 saved.1.ops).map
    (fun result => (saved.1, result))

end RedirObject

end Redir

end Ydsh
