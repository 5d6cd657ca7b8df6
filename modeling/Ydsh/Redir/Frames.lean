import Ydsh.Redir.Meaning

/-
  What a redirection leaves alone.

  An operation sets the descriptors it names and closes what it
  opens itself, so every other open descriptor stays as it is.

  Main declarations:
    * `redirectImpl_of_means`
    * `Agree.means`
-/

----
-- Objects of a List
----

namespace Ydsh

namespace Redir

open Library.Descriptor

variable {α : Type}

namespace RedirObject

theorem foldl_addRedirOp
    (object : RedirObject α)
    (ops : List (Redirection α)) :
    (ops.foldl addRedirOp object).ops = object.ops ++ ops ∧
      (ops.foldl addRedirOp object).oldFds = object.oldFds ∧
      object.backupFDset ≤
        (ops.foldl addRedirOp object).backupFDset ∧
      ∀ fd,
        (ops.foldl addRedirOp object).isBackup fd =
          (object.isBackup fd || isChanged ops fd) := by
  induction ops generalizing object with
  | nil => simp [isChanged]
  | cons pair ops ih =>
      rcases ih (object.addRedirOp pair) with
        ⟨hOps, hOld, hLe, hBackup⟩
      rw [List.foldl_cons]
      refine ⟨?_, hOld, ?_, ?_⟩
      · rw [hOps, addRedirOp, List.append_assoc,
          List.singleton_append]
      · exact Nat.le_trans Nat.left_le_or hLe
      · intro fd
        rw [hBackup]
        simp [isBackup, addRedirOp, isChanged, Bool.or_assoc]

theorem ofOps_ops (ops : List (Redirection α)) :
    (ofOps ops).ops = ops :=
  (foldl_addRedirOp empty ops).1

theorem ofOps_oldFds (ops : List (Redirection α)) :
    (ofOps ops).oldFds = fun _ => none :=
  (foldl_addRedirOp empty ops).2.1

theorem ofOps_isBackup
    (ops : List (Redirection α))
    (fd : Nat) :
    (ofOps ops).isBackup fd = isChanged ops fd := by
  rw [ofOps, (foldl_addRedirOp empty ops).2.2.2 fd]
  simp [isBackup, empty]

theorem getChangedFD_pos
    {op : RedirOP}
    (hOp : op ≠ .NOP) :
    0 < getChangedFD op := by
  revert hOp
  cases op <;> decide

/- An object that can fail has something to put back. -/
theorem ofOps_backupFDset_pos
    {ops : List (Redirection α)}
    {pair : Redirection α}
    (hMem : pair ∈ ops)
    (hOp : pair.op ≠ .NOP) :
    0 < (ofOps ops).backupFDset := by
  rcases List.append_of_mem hMem with ⟨before, after, hEq⟩
  have hLe :=
    (foldl_addRedirOp
      ((before.foldl addRedirOp empty).addRedirOp pair)
      after).2.2.1
  rw [ofOps, hEq, List.foldl_append, List.foldl_cons]
  apply Nat.lt_of_lt_of_le _ hLe
  exact Nat.lt_of_lt_of_le (getChangedFD_pos hOp) Nat.right_le_or

end RedirObject

----
-- Kinds of Operations
----

/- The operations up to the descriptors they are about. -/
inductive RedirKind where
  | toFile (flag : RedirOpenFlag) (target : Nat)
  | toBoth (flag : RedirOpenFlag)
  | merge (source target : Nat)
  | here
  | nop

def kindOf : RedirOP → RedirKind
  | .IN_2_FILE => .toFile .READ STDIN_FILENO
  | .OUT_2_FILE => .toFile .WRITE STDOUT_FILENO
  | .OUT_2_FILE_APPEND => .toFile .APPEND STDOUT_FILENO
  | .ERR_2_FILE => .toFile .WRITE STDERR_FILENO
  | .ERR_2_FILE_APPEND => .toFile .APPEND STDERR_FILENO
  | .MERGE_ERR_2_OUT_2_FILE => .toBoth .WRITE
  | .MERGE_ERR_2_OUT_2_FILE_APPEND => .toBoth .APPEND
  | .MERGE_ERR_2_OUT => .merge STDOUT_FILENO STDERR_FILENO
  | .MERGE_OUT_2_ERR => .merge STDERR_FILENO STDOUT_FILENO
  | .HERE_STR => .here
  | .NOP => .nop

namespace RedirKind

def isTarget (fd : Nat) : RedirKind → Bool
  | .toFile _ target => fd == target
  | .toBoth _ => fd == STDERR_FILENO || fd == STDOUT_FILENO
  | .merge _ target => fd == target
  | .here => fd == STDIN_FILENO
  | .nop => false

def run
    (table : Table α)
    (pair : Redirection α) :
    RedirKind → Option (OpResult α)
  | .toFile flag target =>
      some
        (redirectToFile table pair.arg pair.answers flag target)
  | .toBoth flag => some (redirectToBoth table pair flag)
  | .merge source target =>
      some (dup2 table (some source) target)
  | .here => doIOHere table (argString pair.arg) pair.answers
  | .nop => some (table, none)

def means
    (view : View α)
    (pair : Redirection α) : RedirKind → Option (View α)
  | .toFile flag target =>
      setStd view target
        (fileMeans view pair (decide (flag = .APPEND)))
  | .toBoth flag =>
      setBoth view
        (fileMeans view pair (decide (flag = .APPEND)))
  | .merge source target => setStd view target (view source)
  | .here => setStd view STDIN_FILENO (hereMeans pair)
  | .nop => some view

end RedirKind

theorem redirectImpl_eq
    (table : Table α)
    (pair : Redirection α) :
    redirectImpl table pair =
      (kindOf pair.op).run table pair := by
  rw [redirectImpl]
  cases pair.op <;> rfl

theorem means_eq
    (view : View α)
    (pair : Redirection α) :
    means view pair = (kindOf pair.op).means view pair := by
  rw [means]
  cases pair.op <;> rfl

theorem isTarget_eq
    (op : RedirOP)
    (fd : Nat) :
    (getChangedFD op).testBit fd = (kindOf op).isTarget fd := by
  have hBit :
      ∀ target, (1 <<< target).testBit fd = (fd == target) := by
    intro target
    rw [Nat.one_shiftLeft, Nat.testBit_two_pow, beq_eq_decide]
    simp only [eq_comm]
  cases op with
  | MERGE_ERR_2_OUT_2_FILE | MERGE_ERR_2_OUT_2_FILE_APPEND =>
      rw [getChangedFD, Nat.testBit_or, hBit, hBit]
      rfl
  | NOP => exact Nat.zero_testBit fd
  | _ => exact hBit _

----
-- Frames
----

section

variable {table table' : Table α}
variable {pair : Redirection α}
variable {answers : Answers α}
variable {arg : RedirArg}
variable {flag : RedirOpenFlag}
variable {fd target : Nat}

/- An open descriptor stays open, and the same if it is not set. -/
def Keeps
    (table table' : Table α)
    (fd : Nat)
    (isSet : Bool) : Prop :=
  table'.get fd ≠ none ∧
    (isSet = false → table'.get fd = table.get fd)

theorem Keeps.refl
    {isSet : Bool}
    (hOpen : table.get fd ≠ none) :
    Keeps table table fd isSet :=
  ⟨hOpen, fun _ => rfl⟩

theorem Keeps.trans
    {table'' : Table α}
    {isSet : Bool}
    (hFirst : Keeps table table' fd isSet)
    (hSecond : Keeps table' table'' fd isSet) :
    Keeps table table'' fd isSet := by
  refine ⟨hSecond.1, ?_⟩
  intro hNot
  rw [hSecond.2 hNot, hFirst.2 hNot]

theorem Keeps.mono
    {isSet isSet' : Bool}
    (hKeeps : Keeps table table' fd isSet)
    (hLe : isSet' = false → isSet = false) :
    Keeps table table' fd isSet' :=
  ⟨hKeeps.1, fun hNot => hKeeps.2 (hLe hNot)⟩

theorem keeps_put
    (description : α)
    (hOpen : table.get fd ≠ none) :
    Keeps table (table.put target description) fd
      (fd == target) := by
  by_cases hEq : fd = target
  · subst hEq
    constructor
    · simp
    · simp
  · rw [Keeps, Table.get_put_of_ne hEq]
    exact ⟨hOpen, fun _ => rfl⟩

theorem keeps_dup2
    (source : Option Nat)
    (hOpen : table.get fd ≠ none) :
    Keeps table (dup2 table source target).1 fd
      (fd == target) := by
  rw [dup2]
  cases hDup :
      source.bind (fun fd => table.dup2 fd target) with
  | none => exact .refl hOpen
  | some table' =>
      rcases Option.bind_eq_some_iff.mp hDup with
        ⟨found, _, hSome⟩
      rcases Table.dup2_eq_some.mp hSome with
        ⟨description, _, hEq⟩
      subst hEq
      exact keeps_put description hOpen

/- A new descriptor is none that is open. -/
theorem keeps_close
    {isSet : Bool}
    {closed : Nat}
    (hKeeps : Keeps table table' fd isSet)
    (hNe : fd ≠ closed) :
    Keeps table (table'.close closed) fd isSet := by
  rw [Keeps, Table.get_close_of_ne hNe]
  exact hKeeps

theorem keeps_allocate
    {isSet : Bool}
    (description : α)
    (hOpen : table.get fd ≠ none) :
    Keeps table (table.allocate description).1 fd isSet := by
  apply (keeps_put description hOpen).mono
  intro _
  simpa using Table.ne_lowest hOpen

theorem redirectToFile_keeps
    (hOpen : table.get fd ≠ none) :
    Keeps table
      (redirectToFile table arg answers flag target).1 fd
      (fd == target) := by
  cases arg with
  | none => exact .refl hOpen
  | string value =>
      rw [redirectToFile]
      split_ifs
      · exact .refl hOpen
      · cases answers.opened with
        | error e => exact .refl hOpen
        | ok description =>
            have hAllocate :
                Keeps table (table.allocate description).1 fd
                  (fd == target) :=
              keeps_allocate description hOpen
            apply keeps_close _ (Table.ne_lowest hOpen)
            exact hAllocate.trans (keeps_dup2 _ hAllocate.1)
  | unixFD source =>
      rw [redirectToFile]
      split_ifs
      · exact .refl hOpen
      · exact .refl hOpen
      · exact keeps_dup2 _ hOpen

theorem redirectToBoth_keeps
    (hOpen : table.get fd ≠ none) :
    Keeps table (redirectToBoth table pair flag).1 fd
      (fd == STDERR_FILENO || fd == STDOUT_FILENO) := by
  have hFile :
      Keeps table
        (redirectToFile table pair.arg pair.answers flag
          STDOUT_FILENO).1 fd
        (fd == STDERR_FILENO || fd == STDOUT_FILENO) := by
    apply (redirectToFile_keeps hOpen).mono
    intro hNot
    exact (Bool.or_eq_false_iff.mp hNot).2
  rw [redirectToBoth]
  split_ifs
  · exact hFile
  · apply hFile.trans
    apply (keeps_dup2 _ hFile.1).mono
    intro hNot
    exact (Bool.or_eq_false_iff.mp hNot).1

theorem doIOHere_keeps
    {value : String}
    {error : Option Errno}
    (hOpen : table.get fd ≠ none)
    (hHere :
      doIOHere table value answers = some (table', error)) :
    Keeps table table' fd (fd == STDIN_FILENO) := by
  rw [doIOHere] at hHere
  cases hPipe : answers.pipe with
  | none =>
      rw [hPipe] at hHere
      cases hHere
  | some ends =>
      rcases ends with ⟨readEnd, writeEnd⟩
      rw [hPipe] at hHere
      have hRead :
          Keeps table (table.allocate readEnd).1 fd
            (fd == STDIN_FILENO) :=
        keeps_allocate readEnd hOpen
      have hWrite :
          Keeps table
            ((table.allocate readEnd).1.allocate writeEnd).1 fd
            (fd == STDIN_FILENO) :=
        hRead.trans (keeps_allocate writeEnd hRead.1)
      have hDup :
          Keeps table
            (dup2
              ((table.allocate readEnd).1.allocate writeEnd).1
              (some (table.allocate readEnd).2) STDIN_FILENO).1
            fd (fd == STDIN_FILENO) :=
        hWrite.trans (keeps_dup2 _ hWrite.1)
      have hClose :=
        keeps_close (keeps_close hDup (Table.ne_lowest hOpen))
          (Table.ne_lowest hRead.1)
      simp only at hHere
      split_ifs at hHere
      · cases hHere
        exact hClose
      · cases hHere
        exact hDup
      · cases hHere
        exact hClose

/- An operation sets only the descriptors that it names. -/
theorem redirectImpl_keeps
    {error : Option Errno}
    (hOpen : table.get fd ≠ none)
    (hImpl : redirectImpl table pair = some (table', error)) :
    Keeps table table' fd
      ((getChangedFD pair.op).testBit fd) := by
  rw [redirectImpl_eq] at hImpl
  rw [isTarget_eq]
  cases hKind : kindOf pair.op with
  | toFile flag target =>
      have hKeeps :
          Keeps table
            (redirectToFile table pair.arg pair.answers flag
              target).1 fd (fd == target) :=
        redirectToFile_keeps hOpen
      rw [hKind] at hImpl
      rw [Option.some.inj hImpl] at hKeeps
      exact hKeeps
  | toBoth flag =>
      have hKeeps :
          Keeps table (redirectToBoth table pair flag).1 fd
            (fd == STDERR_FILENO || fd == STDOUT_FILENO) :=
        redirectToBoth_keeps hOpen
      rw [hKind] at hImpl
      rw [Option.some.inj hImpl] at hKeeps
      exact hKeeps
  | merge source target =>
      have hKeeps :
          Keeps table (dup2 table (some source) target).1 fd
            (fd == target) :=
        keeps_dup2 _ hOpen
      rw [hKind] at hImpl
      rw [Option.some.inj hImpl] at hKeeps
      exact hKeeps
  | here =>
      rw [hKind] at hImpl
      exact doIOHere_keeps hOpen hImpl
  | nop =>
      rw [hKind] at hImpl
      cases hImpl
      exact .refl hOpen

theorem RedirObject.redirectOps_keeps
    {backupFDset : Nat}
    {ops : List (Redirection α)}
    {error : Option RedirObject.SystemError}
    (hOpen : table.get fd ≠ none)
    (hRun :
      RedirObject.redirectOps backupFDset table ops =
        some (table', error)) :
    Keeps table table' fd (isChanged ops fd) := by
  induction ops generalizing table with
  | nil =>
      cases hRun
      exact .refl hOpen
  | cons pair ops ih =>
      rw [RedirObject.redirectOps] at hRun
      cases hImpl : redirectImpl table pair with
      | none =>
          rw [hImpl] at hRun
          cases hRun
      | some result =>
          rcases result with ⟨next, failure⟩
          rw [hImpl] at hRun
          have hKeeps :
              Keeps table next fd (isChanged (pair :: ops) fd) := by
            apply (redirectImpl_keeps hOpen hImpl).mono
            intro hNot
            rw [isChanged, List.any_cons] at hNot
            exact (Bool.or_eq_false_iff.mp hNot).1
          have hRest :
              RedirObject.redirectOps backupFDset next ops =
                  some (table', error) →
                Keeps table table' fd
                  (isChanged (pair :: ops) fd) := by
            intro hRest
            apply hKeeps.trans
            apply (ih hKeeps.1 hRest).mono
            intro hNot
            rw [isChanged, List.any_cons] at hNot
            exact (Bool.or_eq_false_iff.mp hNot).2
          cases failure with
          | none => exact hRest hRun
          | some e =>
              simp only at hRun
              split_ifs at hRun
              · cases hRun
                exact hKeeps
              · exact hRest hRun

end

----
-- Operations Do What They Mean
----

section

variable {table table' : Table α}
variable {pair : Redirection α}
variable {view view' : View α}

/- All standard descriptors are open. -/
def StdOpen (view : View α) : Prop :=
  ∀ fd < 3, view fd ≠ none

theorem dup2_eq
    {description : α}
    {source : Nat}
    (target : Nat)
    (hGet : table.get source = some description) :
    dup2 table (some source) target =
      (table.put target description, none) := by
  rw [dup2, Option.bind_some, Table.dup2_of_get target hGet]

theorem redirectToFile_of_means
    {flag : RedirOpenFlag}
    {target : Nat}
    {description : α}
    (hOpen : table.get target ≠ none)
    (hMeans :
      fileMeans table.get pair (decide (flag = .APPEND)) =
        some description) :
    ∃ table',
      redirectToFile table pair.arg pair.answers flag target =
          (table', none) ∧
        table'.get =
          Function.update table.get target (some description) := by
  rw [fileMeans] at hMeans
  rw [redirectToFile.eq_def]
  cases hArg : pair.arg with
  | none =>
      rw [hArg] at hMeans
      cases hMeans
  | string value =>
      rw [hArg] at hMeans
      simp only at hMeans ⊢
      split_ifs at hMeans ⊢
      cases hOpened : pair.answers.opened with
      | error e =>
          rw [hOpened] at hMeans
          cases hMeans
      | ok found =>
          rw [hOpened] at hMeans
          cases hMeans
          have hGet :
              (table.put table.lowest description).get
                  table.lowest =
                some description :=
            Table.get_put_self
          refine
            ⟨((table.put table.lowest description).put target
                description).close table.lowest, ?_, ?_⟩
          · simp only [Table.allocate, dup2_eq target hGet]
          · have hNe := Table.ne_lowest hOpen
            funext fd
            by_cases hTarget : fd = target
            · rw [hTarget, Table.get_close_of_ne hNe,
                Table.get_put_self, Function.update_self]
            · rw [Function.update_of_ne hTarget]
              by_cases hLowest : fd = table.lowest
              · rw [hLowest, Table.get_close_self,
                  Table.get_lowest]
              · rw [Table.get_close_of_ne hLowest,
                  Table.get_put_of_ne hTarget,
                  Table.get_put_of_ne hLowest]
  | unixFD fd =>
      rw [hArg] at hMeans
      simp only at hMeans ⊢
      split_ifs at hMeans with hSeek
      rcases Option.bind_eq_some_iff.mp hMeans with
        ⟨source, hSource, hGet⟩
      subst hSource
      have hSome :
          ((some source).bind table.get).isNone = false := by
        rw [Option.bind_some, hGet]
        rfl
      have hNotSeek :
          ¬(flag = .APPEND ∧
            pair.answers.lseek.isSome = true) := by
        simpa using hSeek
      rw [hSome, if_neg (by simp), if_neg hNotSeek,
        dup2_eq target hGet]
      exact ⟨_, rfl, rfl⟩

theorem redirectToFile_of_fails
    {flag : RedirOpenFlag}
    (target : Nat)
    (hMeans :
      fileMeans table.get pair (decide (flag = .APPEND)) =
        none) :
    ∃ e,
      redirectToFile table pair.arg pair.answers flag target =
        (table, some e) := by
  rw [fileMeans] at hMeans
  rw [redirectToFile.eq_def]
  cases hArg : pair.arg with
  | none => exact ⟨_, rfl⟩
  | string value =>
      rw [hArg] at hMeans
      simp only at hMeans ⊢
      split_ifs at hMeans ⊢
      · exact ⟨_, rfl⟩
      · cases hOpened : pair.answers.opened with
        | error e => exact ⟨e, rfl⟩
        | ok found =>
            rw [hOpened] at hMeans
            cases hMeans
  | unixFD fd =>
      rw [hArg] at hMeans
      simp only at hMeans ⊢
      by_cases hClosed :
          flag = .APPEND ∧ (fd.bind table.get).isNone = true
      · rw [if_pos hClosed]
        exact ⟨_, rfl⟩
      · rw [if_neg hClosed]
        by_cases hSeek :
            flag = .APPEND ∧ pair.answers.lseek.isSome = true
        · rw [if_pos hSeek]
          rcases Option.isSome_iff_exists.mp hSeek.2 with
            ⟨e, hEq⟩
          rw [hEq]
          exact ⟨e, rfl⟩
        · rw [if_neg hSeek]
          rw [if_neg (by simpa using hSeek)] at hMeans
          refine ⟨EBADF, ?_⟩
          rw [dup2]
          cases fd with
          | none => rfl
          | some source =>
              have hGet : table.get source = none := hMeans
              rw [Option.bind_some,
                Table.dup2_of_closed target hGet]

theorem setStd_eq_some
    {fd : Nat}
    {description : Option α} :
    setStd view fd description = some view' ↔
      ∃ found,
        description = some found ∧
          Function.update view fd (some found) = view' :=
  Option.map_eq_some_iff

theorem setStd_eq_none
    {fd : Nat}
    {description : Option α} :
    setStd view fd description = none ↔ description = none :=
  Option.map_eq_none_iff

theorem setBoth_eq_some
    {description : Option α} :
    setBoth view description = some view' ↔
      ∃ found,
        description = some found ∧
          Function.update
              (Function.update view STDOUT_FILENO (some found))
              STDERR_FILENO (some found) =
            view' :=
  Option.map_eq_some_iff

theorem setBoth_eq_none
    {description : Option α} :
    setBoth view description = none ↔ description = none :=
  Option.map_eq_none_iff

theorem hereMeans_eq_some
    {description : α} :
    hereMeans pair = some description ↔
      hereFails pair = false ∧
        ∃ writeEnd,
          pair.answers.pipe = some (description, writeEnd) := by
  rw [hereMeans]
  cases hereFails pair with
  | true => simp
  | false => simp

/- The two ends of a pipe, on the lowest free descriptors. -/
theorem readEnd_ne
    {readEnd writeEnd : α} :
    (table.allocate readEnd).2 ≠
      ((table.allocate readEnd).1.allocate writeEnd).2 := by
  apply Table.ne_allocated
  rw [Table.get_allocate_self]
  rintro ⟨⟩

theorem get_readEnd
    {readEnd writeEnd : α} :
    ((table.allocate readEnd).1.allocate writeEnd).1.get
        (table.allocate readEnd).2 =
      some readEnd := by
  rw [Table.get_allocate_of_ne readEnd_ne,
    Table.get_allocate_self]

theorem get_writeEnd
    {readEnd writeEnd : α} :
    table.get
        ((table.allocate readEnd).1.allocate writeEnd).2 =
      none := by
  rw [← Table.get_allocate_of_ne readEnd_ne.symm]
  exact Table.get_allocated

/- A pipe is opened, moved to the standard input and closed. -/
theorem get_of_pipe
    {readEnd writeEnd : α}
    (hOpen : table.get STDIN_FILENO ≠ none) :
    ((((dup2 ((table.allocate readEnd).1.allocate writeEnd).1
        (some (table.allocate readEnd).2) STDIN_FILENO).1).close
          (table.allocate readEnd).2).close
            ((table.allocate readEnd).1.allocate
              writeEnd).2).get =
      Function.update table.get STDIN_FILENO (some readEnd) := by
  have hStdin : STDIN_FILENO ≠ (table.allocate readEnd).2 :=
    Table.ne_allocated hOpen
  have hStdinWrite :
      STDIN_FILENO ≠
        ((table.allocate readEnd).1.allocate writeEnd).2 := by
    apply Table.ne_allocated
    rw [Table.get_allocate_of_ne hStdin]
    exact hOpen
  rw [dup2_eq STDIN_FILENO get_readEnd]
  funext fd
  by_cases hWrite :
      fd = ((table.allocate readEnd).1.allocate writeEnd).2
  · rw [hWrite, Table.get_close_self,
      Function.update_of_ne hStdinWrite.symm, get_writeEnd]
  · rw [Table.get_close_of_ne hWrite]
    by_cases hReadFd : fd = (table.allocate readEnd).2
    · rw [hReadFd, Table.get_close_self,
        Function.update_of_ne hStdin.symm, Table.get_allocated]
    · rw [Table.get_close_of_ne hReadFd]
      by_cases hZero : fd = STDIN_FILENO
      · rw [hZero, Table.get_put_self, Function.update_self]
      · rw [Table.get_put_of_ne hZero,
          Function.update_of_ne hZero,
          Table.get_allocate_of_ne hWrite,
          Table.get_allocate_of_ne hReadFd]

theorem doIOHere_of_means
    {description : α}
    (hOpen : table.get STDIN_FILENO ≠ none)
    (hMeans : hereMeans pair = some description) :
    ∃ table',
      doIOHere table (argString pair.arg) pair.answers =
          some (table', none) ∧
        table'.get =
          Function.update table.get STDIN_FILENO
            (some description) := by
  rcases hereMeans_eq_some.mp hMeans with
    ⟨hFails, writeEnd, hPipe⟩
  rw [hereFails] at hFails
  simp only [doIOHere, hPipe]
  split_ifs at hFails ⊢ with hSize hFork
  · have hNone :
        pair.answers.write.or pair.answers.writeNewline =
          none := by
      simpa using hFails
    rw [hNone]
    exact ⟨_, rfl, get_of_pipe hOpen⟩
  · rw [hFails] at hFork
    cases hFork
  · exact ⟨_, rfl, get_of_pipe hOpen⟩

/- With all standard descriptors open, an operation is exact. -/
theorem redirectImpl_of_means
    (hOpen : StdOpen table.get)
    (hMeans : means table.get pair = some view) :
    ∃ table',
      redirectImpl table pair = some (table', none) ∧
        table'.get = view := by
  rw [means_eq] at hMeans
  rw [redirectImpl_eq]
  have hLt :
      ∀ flag target,
        kindOf pair.op = .toFile flag target → target < 3 := by
    intro flag target hEq
    revert hEq
    cases pair.op <;> rintro ⟨⟩ <;> decide
  cases hKind : kindOf pair.op with
  | toFile flag target =>
      rw [hKind] at hMeans
      rcases setStd_eq_some.mp hMeans with ⟨found, hFile, hEq⟩
      have hFound :=
        redirectToFile_of_means
          (hOpen target (hLt flag target hKind)) hFile
      rcases hFound with ⟨table', hRun, hGet⟩
      refine ⟨table', ?_, hGet.trans hEq⟩
      rw [RedirKind.run, hRun]
  | toBoth flag =>
      rw [hKind] at hMeans
      rcases setBoth_eq_some.mp hMeans with ⟨found, hFile, hEq⟩
      have hFound :=
        redirectToFile_of_means
          (hOpen STDOUT_FILENO (by decide)) hFile
      rcases hFound with ⟨table', hRun, hGet⟩
      have hOut : table'.get STDOUT_FILENO = some found := by
        rw [hGet, Function.update_self]
      refine ⟨table'.put STDERR_FILENO found, ?_, ?_⟩
      · rw [RedirKind.run, redirectToBoth, hRun]
        simp only [Option.isSome_none, Bool.false_eq_true,
          if_false, dup2_eq STDERR_FILENO hOut]
      · rw [← hEq, ← hGet]
        rfl
  | merge source target =>
      rw [hKind] at hMeans
      rcases setStd_eq_some.mp hMeans with ⟨found, hGet, hEq⟩
      refine ⟨table.put target found, ?_, hEq⟩
      rw [RedirKind.run, dup2_eq target hGet]
  | here =>
      rw [hKind] at hMeans
      rcases setStd_eq_some.mp hMeans with ⟨found, hHere, hEq⟩
      rcases doIOHere_of_means (hOpen STDIN_FILENO (by decide))
          hHere with
        ⟨table', hRun, hGet⟩
      exact ⟨table', hRun, hGet.trans hEq⟩
  | nop =>
      rw [hKind] at hMeans
      cases hMeans
      exact ⟨table, rfl, rfl⟩

theorem lacksPipe_iff :
    lacksPipe pair = true ↔
      kindOf pair.op = .here ∧ pair.answers.pipe = none := by
  rw [lacksPipe, Bool.and_eq_true, beq_iff_eq,
    Option.isNone_iff_eq_none]
  cases pair.op <;> simp [kindOf]

/- The shell exits where there is no pipe. -/
theorem redirectImpl_of_lacksPipe
    (hPipe : lacksPipe pair = true) :
    redirectImpl table pair = none := by
  rcases lacksPipe_iff.mp hPipe with ⟨hKind, hNone⟩
  rw [redirectImpl_eq, hKind, RedirKind.run, doIOHere, hNone]

theorem leaves_of_ne
    (view : View α)
    (hNe : pair.op ≠ .HERE_STR) :
    leaves view pair = view := by
  rw [leaves.eq_def]
  split
  · next hOp _ => exact absurd hOp hNe
  · rfl

theorem leaves_of_pipe
    {readEnd writeEnd : α}
    (view : View α)
    (hOp : pair.op = .HERE_STR)
    (hEnds : pair.answers.pipe = some (readEnd, writeEnd)) :
    leaves view pair =
      Function.update view STDIN_FILENO (some readEnd) := by
  rw [leaves, hOp, hEnds]

/- A pipe that stays open is below no standard descriptor. -/
theorem get_of_pipe_open
    {readEnd writeEnd : α}
    {fd : Nat}
    (hOpen : StdOpen table.get)
    (hLt : fd < 3) :
    (dup2 ((table.allocate readEnd).1.allocate writeEnd).1
        (some (table.allocate readEnd).2) STDIN_FILENO).1.get
          fd =
      Function.update table.get STDIN_FILENO (some readEnd)
        fd := by
  rw [dup2_eq STDIN_FILENO get_readEnd]
  by_cases hZero : fd = STDIN_FILENO
  · rw [hZero, Table.get_put_self, Function.update_self]
  · have hRead : fd ≠ (table.allocate readEnd).2 :=
      Table.ne_allocated (hOpen fd hLt)
    have hKept := Table.get_allocate_of_ne hRead
    have hSome : (table.allocate readEnd).1.get fd ≠ none := by
      rw [hKept]
      exact hOpen fd hLt
    rw [Table.get_put_of_ne hZero, Function.update_of_ne hZero,
      Table.get_allocate_of_ne (Table.ne_allocated hSome), hKept]

/- An operation that means nothing fails. -/
theorem redirectImpl_of_fails
    (hOpen : StdOpen table.get)
    (hMeans : means table.get pair = none)
    (hPipe : lacksPipe pair = false) :
    ∃ table' e,
      redirectImpl table pair = some (table', some e) ∧
        ∀ fd < 3,
          table'.get fd = leaves table.get pair fd := by
  rw [means_eq] at hMeans
  rw [redirectImpl_eq]
  have hNe : kindOf pair.op ≠ .here → pair.op ≠ .HERE_STR := by
    rintro hKind hOp
    rw [hOp] at hKind
    exact hKind rfl
  cases hKind : kindOf pair.op with
  | toFile flag target =>
      rw [hKind] at hMeans
      have hFails :=
        redirectToFile_of_fails target
          (setStd_eq_none.mp hMeans)
      rcases hFails with ⟨e, hRun⟩
      refine ⟨table, e, ?_, fun fd _ => ?_⟩
      · rw [RedirKind.run, hRun]
      · rw [leaves_of_ne _ (hNe (by rw [hKind]; rintro ⟨⟩))]
  | toBoth flag =>
      rw [hKind] at hMeans
      have hFails :=
        redirectToFile_of_fails STDOUT_FILENO
          (setBoth_eq_none.mp hMeans)
      rcases hFails with ⟨e, hRun⟩
      refine ⟨table, e, ?_, fun fd _ => ?_⟩
      · rw [RedirKind.run, redirectToBoth, hRun]
        rfl
      · rw [leaves_of_ne _ (hNe (by rw [hKind]; rintro ⟨⟩))]
  | merge source target =>
      rw [hKind] at hMeans
      have hNone : table.get source = none :=
        setStd_eq_none.mp hMeans
      refine ⟨table, EBADF, ?_, fun fd _ => ?_⟩
      · rw [RedirKind.run, dup2, Option.bind_some,
          Table.dup2_of_closed target hNone]
      · rw [leaves_of_ne _ (hNe (by rw [hKind]; rintro ⟨⟩))]
  | here =>
      rw [hKind] at hMeans
      have hOp : pair.op = .HERE_STR := by
        revert hKind
        cases pair.op <;> rintro ⟨⟩
        rfl
      have hNone : hereMeans pair = none :=
        setStd_eq_none.mp hMeans
      have hSome : pair.answers.pipe ≠ none := by
        intro hEq
        have hLacks := lacksPipe_iff.mpr ⟨hKind, hEq⟩
        rw [hPipe] at hLacks
        cases hLacks
      rcases Option.ne_none_iff_exists'.mp hSome with
        ⟨⟨readEnd, writeEnd⟩, hEnds⟩
      have hFails : hereFails pair = true := by
        rw [hereMeans, hEnds] at hNone
        split_ifs at hNone with hFails
        · exact hFails
        · cases hNone
      rw [hereFails] at hFails
      simp only [RedirKind.run, doIOHere, hEnds]
      split_ifs at hFails ⊢ with hSize
      · have hOr :
            (pair.answers.write.or
                pair.answers.writeNewline).isSome = true := by
          rw [Option.isSome_or]
          exact hFails
        rcases Option.isSome_iff_exists.mp hOr with ⟨e, hEq⟩
        rw [hEq]
        refine ⟨_, e, rfl, fun fd _ => ?_⟩
        rw [get_of_pipe (hOpen STDIN_FILENO (by decide)),
          leaves_of_pipe _ hOp hEnds]
      · rcases Option.isSome_iff_exists.mp hFails with ⟨e, hEq⟩
        rw [hEq]
        refine ⟨_, e, rfl, fun fd hLt => ?_⟩
        rw [get_of_pipe_open hOpen hLt,
          leaves_of_pipe _ hOp hEnds]
  | nop =>
      rw [hKind] at hMeans
      cases hMeans

end

end Redir

end Ydsh
