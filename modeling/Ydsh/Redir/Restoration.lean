import Ydsh.Redir.Transaction

/-
  When redirections are transactions.

  A list of redirections is undone and does what it means if
  all standard descriptors are open and there is room for their
  copies.  If one of them is closed, a saved descriptor takes
  its number, or what the list opens stays open.  What has no
  copy stays as the list leaves it.

  Main declarations:
    * `destroy_of_open`
    * `transactional_of_open`
    * `transactional_of_refused`
    * `transactional_iff`
-/

----
-- All Standard Descriptors Are Open
----

namespace Ydsh

namespace Redir

open Library.Descriptor

variable {α : Type}

section

variable {openMax : OpenMax}
variable {table : Table α}
variable {ops : List (Redirection α)}

theorem isChanged_of_le
    (ops : List (Redirection α))
    {fd : Nat}
    (hLe : 3 ≤ fd) :
    isChanged ops fd = false := by
  have hNe : ∀ target < 3, (fd == target) = false := by
    intro target hLt
    exact beq_false_of_ne (by omega)
  have hIn := hNe STDIN_FILENO (by decide)
  have hOut := hNe STDOUT_FILENO (by decide)
  have hErr := hNe STDERR_FILENO (by decide)
  have hTarget :
      ∀ op : RedirOP, (kindOf op).isTarget fd = false := by
    intro op
    cases op <;>
      simp only [kindOf, RedirKind.isTarget, hIn, hOut, hErr,
        Bool.or_self]
  rw [isChanged, List.any_eq_false]
  intro pair _
  rw [isTarget_eq, hTarget]
  exact Bool.false_ne_true

/- The set of saved descriptors, before and after saving. -/
theorem afterOps_eq
    (openMax : OpenMax)
    (table : Table α)
    (ops : List (Redirection α))
    (count : Nat) :
    afterOps openMax table ops count =
      RedirObject.redirectOps
        (RedirObject.ofOps ops).backupFDset
        ((RedirObject.ofOps ops).backupFDs openMax table).2
        (ops.take count) := by
  have hSame :=
    RedirObject.backupFDs_sameOps openMax (RedirObject.ofOps ops)
      table
  rw [afterOps, hSame.backupFDset]

theorem redirect_eq
    (openMax : OpenMax)
    (table : Table α)
    (ops : List (Redirection α)) :
    (RedirObject.ofOps ops).redirect openMax table =
      (RedirObject.redirectOps
        (RedirObject.ofOps ops).backupFDset
        ((RedirObject.ofOps ops).backupFDs openMax table).2 ops).map
        (fun result =>
          (((RedirObject.ofOps ops).backupFDs openMax table).1,
            result)) := by
  have hSame :=
    RedirObject.backupFDs_sameOps openMax (RedirObject.ofOps ops)
      table
  rw [RedirObject.redirect, hSame.backupFDset, hSame.ops,
    RedirObject.ofOps_ops]

theorem backupFDset_pos
    (count : Nat) :
    ∀ pair ∈ ops.take count, pair.op ≠ .NOP →
      0 < (RedirObject.ofOps ops).backupFDset := by
  intro pair hMem hOp
  exact
    RedirObject.ofOps_backupFDset_pos (List.mem_of_mem_take hMem)
      hOp

theorem tracks_saved
    (openMax : OpenMax)
    (hOwns : OwnsDescriptors table ops)
    (hOpen : StdOpen table.get)
    (count : Nat) :
    Tracks table.get table.get
      ((RedirObject.ofOps ops).backupFDs openMax table).2
      (ops.take count) := by
  have hSaved :=
    RedirObject.backupFDs_savedTo openMax hOpen
      (RedirObject.ofOps_oldFds ops)
  constructor
  · intro fd hKnown
    apply hSaved.kept
    rcases hKnown with hLt | hSome
    · exact hOpen fd hLt
    · exact hSome
  · exact hOpen
  · intro pair hMem fd hArg
    exact hOwns pair (List.mem_of_mem_take hMem) fd hArg

theorem ofOps_isBackup_eq (ops : List (Redirection α)) :
    (RedirObject.ofOps ops).isBackup = isChanged ops :=
  funext (RedirObject.ofOps_isBackup ops)

/- What is left after a part of the list. -/
theorem afterOps_of_open
    (openMax : OpenMax)
    (hOwns : OwnsDescriptors table ops)
    (hOpen : StdOpen table.get)
    (hPipe : reachesNoPipe table.get ops = false)
    (count : Nat) :
    (∃ view table',
      meansAll table.get (ops.take count) = some view ∧
        afterOps openMax table ops count = some (table', none) ∧
          Agree table.get table'.get view) ∨
      ∃ table' e,
        meansAll table.get (ops.take count) = none ∧
          afterOps openMax table ops count =
              some (table', some e) ∧
            ∀ fd < 3,
              table'.get fd =
                leftBy table.get (ops.take count) fd := by
  rw [afterOps_eq]
  exact
    (tracks_saved openMax hOwns hOpen count).redirectOps
      (backupFDset_pos count) (reachesNoPipe_take count hPipe)

/- What has no copy is not put back. -/
theorem destroy_of_open
    {object : RedirObject α}
    {table' : Table α}
    {error : Option RedirObject.SystemError}
    (hOwns : OwnsDescriptors table ops)
    (hOpen : StdOpen table.get)
    (hPipe : reachesNoPipe table.get ops = false)
    (hRedirect :
      (RedirObject.ofOps ops).redirect openMax table =
        some (object, table', error)) :
    (∀ fd < 3,
      (object.destroy table').get fd =
        if isChanged ops fd = true ∧
            table.room openMax <
              backups (isChanged ops) (fd + 1) then
          leftBy table.get ops fd
        else
          table.get fd) ∧
      (∀ fd old, object.oldFds fd = some old →
        (object.destroy table').get old = none) ∧
      ∀ fd, 3 ≤ fd → table.get fd ≠ none →
        (object.destroy table').get fd = table.get fd := by
  have hSaved :=
    RedirObject.backupFDs_savedTo openMax hOpen
      (RedirObject.ofOps_oldFds ops)
  rw [redirect_eq] at hRedirect
  rcases Option.map_eq_some_iff.mp hRedirect with
    ⟨⟨last, error'⟩, hOps, hEq⟩
  cases hEq
  have hKeeps :
      ∀ fd,
        ((RedirObject.ofOps ops).backupFDs openMax table).2.get
            fd ≠ none →
          Keeps
            ((RedirObject.ofOps ops).backupFDs openMax table).2
            table' fd ((RedirObject.ofOps ops).isBackup fd) := by
    intro fd hSome
    rw [RedirObject.ofOps_isBackup]
    exact RedirObject.redirectOps_keeps hSome hOps
  have hLeft : ∀ fd < 3, table'.get fd = leftBy table.get ops fd := by
    have hAll :=
      afterOps_of_open openMax hOwns hOpen hPipe ops.length
    rw [afterOps_eq, List.take_length, hOps] at hAll
    intro fd hLt
    rcases hAll with
      ⟨view, found, hMeans, hFound, hAgree⟩ |
        ⟨found, e, _, hFound, hLeft⟩
    · cases hFound
      rw [leftBy_of_meansAll hMeans]
      exact hAgree fd (.inl hLt)
    · cases hFound
      exact hLeft fd hLt
  have hDestroy :=
    RedirObject.destroy_of_savedTo hOpen
      (fun fd hLe => by
        rw [RedirObject.ofOps_isBackup]
        exact isChanged_of_le ops hLe)
      (RedirObject.backupFDs_sameOps openMax _ table) hSaved
      hKeeps
  refine ⟨?_, hDestroy.2⟩
  intro fd hLt
  have hUnsaved := hSaved.unsaved fd
  have hSavedFd := hSaved.saved fd hLt
  rw [ofOps_isBackup_eq] at hUnsaved hSavedFd
  rw [hDestroy.1 fd hLt]
  by_cases hLost :
      isChanged ops fd = true ∧
        table.room openMax < backups (isChanged ops) (fd + 1)
  · rw [if_pos hLost, hUnsaved (.inr (.inr hLost.2))]
    exact hLeft fd hLt
  · rw [if_neg hLost]
    cases hChanged : isChanged ops fd with
    | false =>
        have hState := hSaved.kept fd (hOpen fd hLt)
        have hSome :
            ((RedirObject.ofOps ops).backupFDs openMax
              table).2.get fd ≠ none := by
          rw [hState]
          exact hOpen fd hLt
        have hSame := (hKeeps fd hSome).2
        rw [RedirObject.ofOps_isBackup] at hSame
        rw [hUnsaved (.inl hChanged)]
        exact (hSame hChanged).trans hState
    | true =>
        have hFits :
            backups (isChanged ops) (fd + 1) ≤
              table.room openMax :=
          Nat.not_lt.mp (fun hLt => hLost ⟨hChanged, hLt⟩)
        rcases hSavedFd hChanged hFits with ⟨old, hOld, _⟩
        rw [hOld]
        rfl

theorem transactional_of_open
    (hOwns : OwnsDescriptors table ops)
    (hOpen : StdOpen table.get)
    (hPipe : reachesNoPipe table.get ops = false)
    (hBackups : HasBackups openMax table ops) :
    Transactional openMax table ops := by
  have hRun := afterOps_of_open openMax hOwns hOpen hPipe
  constructor
  · rw [redirect_eq, Option.isSome_map]
    have hAll := hRun ops.length
    rw [afterOps_eq, List.take_length] at hAll
    rcases hAll with ⟨_, _, _, hOps, _⟩ | ⟨_, _, _, hOps, _⟩
    · rw [hOps]
      rfl
    · rw [hOps]
      rfl
  · intro count table' error hAfter
    rcases hRun count with
      ⟨view, found, hMeans, hOps, _⟩ |
        ⟨found, e, hMeans, hOps, _⟩
    · rw [hOps] at hAfter
      cases hAfter
      simp [hMeans]
    · rw [hOps] at hAfter
      cases hAfter
      simp [hMeans]
  · intro count table' view hAfter hMeans fd hLt
    rcases hRun count with
      ⟨view', found, hMeans', hOps, hAgree⟩ |
        ⟨found, e, hMeans', hOps, _⟩
    · rw [hOps] at hAfter
      rw [hMeans] at hMeans'
      cases hAfter
      cases hMeans'
      exact hAgree fd (.inl hLt)
    · rw [hOps] at hAfter
      cases hAfter
  · intro object table' error hRedirect fd hLt
    rw [(destroy_of_open hOwns hOpen hPipe hRedirect).1 fd hLt]
    split_ifs with hLost
    · rcases hBackups fd hLt hLost.1 with hFits | hLeft
      · exact absurd hLost.2 (Nat.not_lt.mpr hFits)
      · exact hLeft
    · rfl
  · intro object table' error hRedirect
    exact (destroy_of_open hOwns hOpen hPipe hRedirect).2.1
  · intro object table' error hRedirect
    exact (destroy_of_open hOwns hOpen hPipe hRedirect).2.2

----
-- Nothing Is Saved
----

namespace RedirObject

/- A closed descriptor cannot be saved. -/
theorem backupFD_of_closed
    (openMax : OpenMax)
    {state : RedirObject α × Table α}
    {fd : Nat}
    (hClosed :
      state.1.isBackup fd = true → state.2.get fd = none)
    (hOld : state.1.oldFds = fun _ => none) :
    (backupFD openMax state fd).2 = state.2 ∧
      (backupFD openMax state fd).1.oldFds = fun _ => none := by
  rw [backupFD]
  split_ifs with hBackup
  · rw [Table.dup_of_closed openMax.val (hClosed hBackup)]
    refine ⟨rfl, ?_⟩
    simp only [hOld]
    exact Function.update_eq_self fd _
  · exact ⟨rfl, hOld⟩

theorem foldl_backupFD_of_closed
    {object : RedirObject α}
    {state : RedirObject α × Table α}
    {fds : List Nat}
    (hSame : SameOps object state.1)
    (hClosed :
      ∀ fd ∈ fds, object.isBackup fd = true →
        state.2.get fd = none)
    (hOld : state.1.oldFds = fun _ => none) :
    (fds.foldl (backupFD openMax) state).2 = state.2 ∧
      (fds.foldl (backupFD openMax) state).1.oldFds = fun _ => none := by
  induction fds generalizing state with
  | nil => exact ⟨rfl, hOld⟩
  | cons fd fds ih =>
      have hStep :=
        backupFD_of_closed openMax
          (fun hBackup =>
            hClosed fd List.mem_cons_self
              (hSame.isBackup_eq fd ▸ hBackup))
          hOld
      have hNext := backupFD_sameOps openMax state fd
      have hSameNext := hSame.trans hNext
      have hClosedNext :
          ∀ other ∈ fds, object.isBackup other = true →
            (backupFD openMax state fd).2.get other = none := by
        intro other hMem hBackup
        rw [hStep.1]
        exact
          hClosed other (List.mem_cons_of_mem _ hMem) hBackup
      have hRest := ih hSameNext hClosedNext hStep.2
      rw [List.foldl_cons, hRest.1, hStep.1]
      exact ⟨rfl, hRest.2⟩

/- Saving keeps what is open. -/
theorem backupFD_isOpen
    {state : RedirObject α × Table α}
    {other : Nat}
    (fd : Nat)
    (hOpen : state.2.get other ≠ none) :
    (backupFD openMax state fd).2.get other ≠ none := by
  rw [backupFD]
  split_ifs
  · cases hDup : state.2.dup openMax fd with
    | none => exact hOpen
    | some result =>
        rw [Table.dup] at hDup
        split_ifs at hDup
        rcases Option.map_eq_some_iff.mp hDup with
          ⟨description, _, hEq⟩
        subst hEq
        rw [Table.get_allocate_of_ne (Table.ne_allocated hOpen)]
        exact hOpen
  · exact hOpen

theorem foldl_backupFD_isOpen
    {state : RedirObject α × Table α}
    {other : Nat}
    (fds : List Nat)
    (hOpen : state.2.get other ≠ none) :
    (fds.foldl (backupFD openMax) state).2.get other ≠ none := by
  induction fds generalizing state with
  | nil => exact hOpen
  | cons fd fds ih => exact ih (backupFD_isOpen fd hOpen)

/- The first descriptor that is saved takes the lowest number. -/
theorem foldl_backupFD_lowest
    {object : RedirObject α}
    {state : RedirObject α × Table α}
    {fds : List Nat}
    (hSame : SameOps object state.1)
    (hRoom : state.2.lowest < openMax.val)
    (hSome :
      ∃ fd ∈ fds,
        object.isBackup fd = true ∧ state.2.get fd ≠ none) :
    (fds.foldl (backupFD openMax) state).2.get state.2.lowest ≠ none := by
  induction fds generalizing state with
  | nil =>
      rcases hSome with ⟨fd, hMem, _⟩
      cases hMem
  | cons fd fds ih =>
      rw [List.foldl_cons]
      by_cases hFirst :
          object.isBackup fd = true ∧ state.2.get fd ≠ none
      · apply foldl_backupFD_isOpen
        rcases Option.ne_none_iff_exists'.mp hFirst.2 with
          ⟨description, hGet⟩
        rw [backupFD, hSame.isBackup_eq, if_pos hFirst.1,
          Table.dup_of_get hRoom hGet]
        simp only
        rw [Table.allocate, Table.get_put_self]
        rintro ⟨⟩
      · have hTable : (backupFD openMax state fd).2 = state.2 := by
          rw [backupFD, hSame.isBackup_eq]
          split_ifs with hBackup
          · have hNone : state.2.get fd = none := by
              by_contra hNot
              exact hFirst ⟨hBackup, hNot⟩
            rw [Table.dup_of_closed openMax.val hNone]
          · rfl
        have hNext := backupFD_sameOps openMax state fd
        have hRest :
            ∃ other ∈ fds,
              object.isBackup other = true ∧
                (backupFD openMax state fd).2.get other ≠ none := by
          rcases hSome with ⟨other, hMem, hOther⟩
          rcases List.mem_cons.mp hMem with hEq | hIn
          · rw [hEq] at hOther
            exact absurd hOther hFirst
          · rw [hTable]
            exact ⟨other, hIn, hOther⟩
        rw [← hTable]
        exact ih (hSame.trans hNext) (hTable ▸ hRoom) hRest

/- An object that has saved nothing leaves all as it is. -/
theorem destroy_of_unsaved
    {object : RedirObject α}
    (table : Table α)
    (hOld : object.oldFds = fun _ => none) :
    object.destroy table = table := by
  have hRestore :
      ∀ (table : Table α) (fd : Nat),
        object.restoreFD table fd = table := by
    intro table fd
    rw [restoreFD, hOld]
    split_ifs <;> rfl
  have hClose :
      ∀ (table : Table α) (fd : Nat),
        object.closeOldFD table fd = table := by
    intro table fd
    rw [closeOldFD, hOld]
  rw [destroy, restoreFDs]
  simp only [List.foldl_cons, List.foldl_nil, hRestore, hClose]

end RedirObject

end

section

variable {openMax : OpenMax}
variable {table : Table α}
variable {ops : List (Redirection α)}

/- What the list sets is closed, so nothing is saved. -/
def ChangesClosed
    (table : Table α)
    (ops : List (Redirection α)) : Prop :=
  ∀ fd < 3, isChanged ops fd = true → table.get fd = none

theorem saved_of_changesClosed
    (hClosed : ChangesClosed table ops) :
    ((RedirObject.ofOps ops).backupFDs openMax table).2 = table ∧
      ((RedirObject.ofOps ops).backupFDs openMax table).1.oldFds =
        fun _ => none := by
  have hSame :
      RedirObject.SameOps (RedirObject.ofOps ops)
        (RedirObject.ofOps ops, table).1 :=
    ⟨rfl, rfl⟩
  apply
    RedirObject.foldl_backupFD_of_closed hSame _
      (RedirObject.ofOps_oldFds ops)
  intro fd hMem hBackup
  rw [RedirObject.ofOps_isBackup] at hBackup
  apply hClosed fd _ hBackup
  revert hMem
  simp only [List.mem_cons, List.not_mem_nil, or_false]
  omega

/- A pipe whose read end is the standard input already. -/
theorem get_of_pipe_closed
    {readEnd writeEnd : α}
    (hClosed : table.get STDIN_FILENO = none) :
    ((((dup2 ((table.allocate readEnd).1.allocate writeEnd).1
        (some (table.allocate readEnd).2) STDIN_FILENO).1).close
          (table.allocate readEnd).2).close
            ((table.allocate readEnd).1.allocate
              writeEnd).2).get =
      table.get := by
  have hRead : (table.allocate readEnd).2 = STDIN_FILENO :=
    Nat.le_zero.mp (Table.lowest_le hClosed)
  rw [dup2_eq STDIN_FILENO get_readEnd]
  funext fd
  by_cases hWrite :
      fd = ((table.allocate readEnd).1.allocate writeEnd).2
  · rw [hWrite, Table.get_close_self, get_writeEnd]
  · rw [Table.get_close_of_ne hWrite]
    by_cases hReadFd : fd = (table.allocate readEnd).2
    · rw [hReadFd, Table.get_close_self, Table.get_allocated]
    · have hZero : fd ≠ STDIN_FILENO := hRead ▸ hReadFd
      rw [Table.get_close_of_ne hReadFd,
        Table.get_put_of_ne hZero,
        Table.get_allocate_of_ne hWrite,
        Table.get_allocate_of_ne hReadFd]

theorem doIOHere_of_refused
    {pair : Redirection α}
    (hClosed : table.get STDIN_FILENO = none)
    (hPipe : pair.answers.pipe ≠ none)
    (hFails : hereFails pair = true)
    (hFork :
      ¬(pair.answers.fork.isSome = true ∧
        PIPE_BUF < (argString pair.arg).utf8ByteSize + 1)) :
    ∃ table' e,
      doIOHere table (argString pair.arg) pair.answers =
          some (table', some e) ∧
        table'.get = table.get := by
  rcases Option.ne_none_iff_exists'.mp hPipe with
    ⟨⟨readEnd, writeEnd⟩, hEnds⟩
  rw [hereFails] at hFails
  simp only [doIOHere, hEnds]
  by_cases hSize :
      (argString pair.arg).utf8ByteSize + 1 ≤ PIPE_BUF
  · rw [if_pos hSize] at hFails
    have hOr :
        (pair.answers.write.or
            pair.answers.writeNewline).isSome = true := by
      rw [Option.isSome_or]
      exact hFails
    rcases Option.isSome_iff_exists.mp hOr with ⟨e, hEq⟩
    rw [if_pos hSize, hEq]
    exact ⟨_, e, rfl, get_of_pipe_closed hClosed⟩
  · rw [if_neg hSize] at hFails
    exact absurd ⟨hFails, Nat.not_le.mp hSize⟩ hFork

/- A refused operation leaves no trace. -/
theorem redirectImpl_of_refused
    {pair : Redirection α}
    (hClosed :
      ∀ fd < 3, (getChangedFD pair.op).testBit fd = true →
        table.get fd = none)
    (hRefused : refused table.get pair = true) :
    ∃ table' e,
      redirectImpl table pair = some (table', some e) ∧
        table'.get = table.get := by
  simp only [refused, Bool.and_eq_true, Bool.not_eq_true',
    Option.isNone_iff_eq_none, Bool.and_eq_false_iff] at hRefused
  rcases hRefused with ⟨⟨hMeans, hPipe⟩, hFork⟩
  rw [means_eq] at hMeans
  rw [redirectImpl_eq]
  cases hKind : kindOf pair.op with
  | toFile flag target =>
      rw [hKind] at hMeans
      have hFails :=
        redirectToFile_of_fails target
          (setStd_eq_none.mp hMeans)
      rcases hFails with ⟨e, hRun⟩
      refine ⟨table, e, ?_, rfl⟩
      rw [RedirKind.run, hRun]
  | toBoth flag =>
      rw [hKind] at hMeans
      have hFails :=
        redirectToFile_of_fails STDOUT_FILENO
          (setBoth_eq_none.mp hMeans)
      rcases hFails with ⟨e, hRun⟩
      refine ⟨table, e, ?_, rfl⟩
      rw [RedirKind.run, redirectToBoth, hRun]
      rfl
  | merge source target =>
      rw [hKind] at hMeans
      have hNone : table.get source = none :=
        setStd_eq_none.mp hMeans
      refine ⟨table, EBADF, ?_, rfl⟩
      rw [RedirKind.run, dup2, Option.bind_some,
        Table.dup2_of_closed target hNone]
  | here =>
      rw [hKind] at hMeans
      have hNone : hereMeans pair = none :=
        setStd_eq_none.mp hMeans
      have hSome : pair.answers.pipe ≠ none := by
        intro hEq
        have hLacks := lacksPipe_iff.mpr ⟨hKind, hEq⟩
        rw [hPipe] at hLacks
        cases hLacks
      have hOp : pair.op = .HERE_STR := by
        revert hKind
        cases pair.op <;> rintro ⟨⟩
        rfl
      have hStdin : table.get STDIN_FILENO = none := by
        apply hClosed STDIN_FILENO (by decide)
        rw [hOp]
        decide
      apply doIOHere_of_refused hStdin hSome
      · rw [hereMeans] at hNone
        split_ifs at hNone with hFails
        · exact hFails
        · exact absurd (Option.map_eq_none_iff.mp hNone) hSome
      · rintro ⟨hIs, hLt⟩
        rw [hOp, hIs] at hFork
        simp [hLt] at hFork
  | nop =>
      rw [hKind] at hMeans
      cases hMeans

/- A list whose first operation is refused. -/
theorem redirectOps_of_refused
    {backupFDset : Nat}
    (hClosed : ChangesClosed table ops)
    (hSet : ∀ pair ∈ ops, pair.op ≠ .NOP → 0 < backupFDset)
    (hRefused : firstRefused table.get ops = true) :
    ∃ table' error,
      RedirObject.redirectOps backupFDset table ops =
          some (table', error) ∧
        table'.get = table.get ∧
        (error = none ∧ meansAll table.get ops = some table.get ∨
          error.isSome = true ∧ meansAll table.get ops = none) := by
  induction ops with
  | nil => exact ⟨table, none, rfl, rfl, .inl ⟨rfl, rfl⟩⟩
  | cons pair ops ih =>
      by_cases hOp : pair.op = .NOP
      · have hImpl : redirectImpl table pair = some (table, none) := by
          rw [redirectImpl, hOp]
        have hMeans : means table.get pair = some table.get := by
          rw [means, hOp]
        rw [RedirObject.redirectOps, hImpl, meansAll, hMeans]
        apply ih
        · intro fd hLt hChanged
          apply hClosed fd hLt
          rw [isChanged, List.any_cons]
          exact Bool.or_eq_true_iff.mpr (.inr hChanged)
        · intro other hMem
          exact hSet other (List.mem_cons_of_mem _ hMem)
        · rw [firstRefused, List.find?_cons_of_neg] at hRefused
          · exact hRefused
          · simp [hOp]
      · have hFirst : refused table.get pair = true := by
          rw [firstRefused, List.find?_cons_of_pos] at hRefused
          · exact hRefused
          · simp [hOp]
        have hPairClosed :
            ∀ fd < 3, (getChangedFD pair.op).testBit fd = true →
              table.get fd = none := by
          intro fd hLt hBit
          apply hClosed fd hLt
          rw [isChanged, List.any_cons]
          exact Bool.or_eq_true_iff.mpr (.inl hBit)
        have hMeans : means table.get pair = none := by
          simp only [refused, Bool.and_eq_true,
            Option.isNone_iff_eq_none] at hFirst
          exact hFirst.1.1
        rcases redirectImpl_of_refused hPairClosed hFirst with
          ⟨table', e, hImpl, hGet⟩
        have hPos := hSet pair List.mem_cons_self hOp
        rw [RedirObject.redirectOps, hImpl, meansAll, hMeans]
        exact
          ⟨table', _, if_pos hPos, hGet, .inr ⟨rfl, rfl⟩⟩

theorem firstRefused_take
    {view : View α}
    (count : Nat)
    (hRefused : firstRefused view ops = true) :
    firstRefused view (ops.take count) = true := by
  rw [firstRefused] at hRefused ⊢
  cases hFind :
      (ops.take count).find? (fun pair => pair.op != .NOP) with
  | none => rfl
  | some pair =>
      have hAll :
          ops.find? (fun pair => pair.op != .NOP) =
            some pair := by
        rw [← List.take_append_drop count ops,
          List.find?_append, hFind]
        rfl
      rw [hAll] at hRefused
      exact hRefused

theorem ChangesClosed.take
    (count : Nat)
    (hClosed : ChangesClosed table ops) :
    ChangesClosed table (ops.take count) := by
  intro fd hLt hChanged
  apply hClosed fd hLt
  rcases List.any_eq_true.mp hChanged with ⟨pair, hMem, hBit⟩
  exact
    List.any_eq_true.mpr
      ⟨pair, List.mem_of_mem_take hMem, hBit⟩

theorem transactional_of_refused
    (hClosed : ChangesClosed table ops)
    (hRefused : firstRefused table.get ops = true) :
    Transactional openMax table ops := by
  rcases saved_of_changesClosed hClosed with ⟨hTable, hOld⟩
  have hRun :
      ∀ count,
        ∃ table' error,
          afterOps openMax table ops count = some (table', error) ∧
            table'.get = table.get ∧
            (error = none ∧
                meansAll table.get (ops.take count) =
                  some table.get ∨
              error.isSome = true ∧
                meansAll table.get (ops.take count) = none) := by
    intro count
    rw [afterOps_eq, hTable]
    exact
      redirectOps_of_refused (hClosed.take count)
        (backupFDset_pos count) (firstRefused_take count hRefused)
  have hAll := hRun ops.length
  rw [afterOps_eq, List.take_length] at hAll
  rcases hAll with ⟨last, error, hOps, hGet, _⟩
  have hDestroy :
      ∀ object table' error,
        (RedirObject.ofOps ops).redirect openMax table =
          some (object, table', error) →
        object.oldFds = (fun _ => none) ∧
          (object.destroy table').get = table.get := by
    intro object table' error hRedirect
    rw [redirect_eq, hOps] at hRedirect
    cases hRedirect
    refine ⟨hOld, ?_⟩
    rw [RedirObject.destroy_of_unsaved _ hOld, hGet]
  constructor
  · rw [redirect_eq, hOps]
    rfl
  · intro count table' error hAfter
    rcases hRun count with
      ⟨found, error', hEq, _, ⟨hNone, hMeans⟩ | ⟨hSome, hMeans⟩⟩
    · rw [hEq] at hAfter
      cases hAfter
      simp [hNone, hMeans]
    · rw [hEq] at hAfter
      cases hAfter
      simp [hSome, hMeans]
  · intro count table' view hAfter hMeans fd _
    rcases hRun count with
      ⟨found, error', hEq, hSame,
        ⟨_, hMeans'⟩ | ⟨_, hMeans'⟩⟩
    · rw [hEq] at hAfter
      rw [hMeans'] at hMeans
      cases hAfter
      cases hMeans
      rw [hSame]
    · rw [hMeans'] at hMeans
      cases hMeans
  · intro object table' error hRedirect fd _
    rw [(hDestroy object table' error hRedirect).2]
  · intro object table' error hRedirect fd old hOld'
    rw [(hDestroy object table' error hRedirect).1] at hOld'
    cases hOld'
  · intro object table' error hRedirect fd _ _
    rw [(hDestroy object table' error hRedirect).2]

----
-- A Standard Descriptor Is Closed
----

/- A saved descriptor takes the place of a closed one. -/
theorem changesClosed_of_transactional
    (hTransactional : Transactional openMax table ops)
    (hClosed : ∃ fd < 3, table.get fd = none) :
    ChangesClosed table ops := by
  intro fd hLt hChanged
  by_contra hSome
  rcases hClosed with ⟨closed, hClosedLt, hNone⟩
  have hLowestLt : table.lowest < 3 :=
    Nat.lt_of_le_of_lt (Table.lowest_le hNone) hClosedLt
  have hSame :
      RedirObject.SameOps (RedirObject.ofOps ops)
        (RedirObject.ofOps ops, table).1 :=
    ⟨rfl, rfl⟩
  have hMem : fd ∈ [0, 1, 2] := by
    simp only [List.mem_cons, List.not_mem_nil, or_false]
    omega
  have hBackup : (RedirObject.ofOps ops).isBackup fd = true := by
    rw [RedirObject.ofOps_isBackup]
    exact hChanged
  have hTaken :
      ((RedirObject.ofOps ops).backupFDs openMax table).2.get
          table.lowest ≠ none :=
    RedirObject.foldl_backupFD_lowest hSame
      (Nat.lt_of_lt_of_le hLowestLt openMax.property)
      ⟨fd, hMem, hBackup, hSome⟩
  have hForce :=
    hTransactional.inForce 0
      ((RedirObject.ofOps ops).backupFDs openMax table).2 table.get
      (by rw [afterOps_eq]; rfl) rfl table.lowest hLowestLt
  rw [Table.get_lowest] at hForce
  exact hTaken hForce

/- An operation that succeeds leaves what it sets open. -/
theorem means_changed
    {pair : Redirection α}
    {view view' : View α}
    (hOp : pair.op ≠ .NOP)
    (hMeans : means view pair = some view') :
    ∃ fd < 3,
      (getChangedFD pair.op).testBit fd = true ∧
        view' fd ≠ none := by
  rw [means_eq] at hMeans
  simp only [isTarget_eq]
  cases hKind : kindOf pair.op with
  | toFile flag target | merge source target =>
      have hLt : target < 3 := by
        revert hKind
        cases pair.op <;> rintro ⟨⟩ <;> decide
      rw [hKind] at hMeans
      rcases setStd_eq_some.mp hMeans with ⟨found, _, hEq⟩
      refine ⟨target, hLt, beq_self_eq_true target, ?_⟩
      rw [← hEq, Function.update_self]
      rintro ⟨⟩
  | toBoth flag =>
      rw [hKind] at hMeans
      rcases setBoth_eq_some.mp hMeans with ⟨found, _, hEq⟩
      refine ⟨STDERR_FILENO, by decide, rfl, ?_⟩
      rw [← hEq, Function.update_self]
      rintro ⟨⟩
  | here =>
      rw [hKind] at hMeans
      rcases setStd_eq_some.mp hMeans with ⟨found, _, hEq⟩
      refine ⟨STDIN_FILENO, by decide, rfl, ?_⟩
      rw [← hEq, Function.update_self]
      rintro ⟨⟩
  | nop =>
      exfalso
      apply hOp
      revert hKind
      cases pair.op <;> rintro ⟨⟩
      rfl

theorem redirectOps_nops
    {backupFDset : Nat}
    {before rest : List (Redirection α)}
    (hNops : ∀ pair ∈ before, pair.op = .NOP) :
    RedirObject.redirectOps backupFDset table (before ++ rest) =
      RedirObject.redirectOps backupFDset table rest := by
  induction before with
  | nil => rfl
  | cons pair before ih =>
      have hOp := hNops pair List.mem_cons_self
      have hImpl : redirectImpl table pair = some (table, none) := by
        rw [redirectImpl, hOp]
      rw [List.cons_append, RedirObject.redirectOps, hImpl]
      exact
        ih (fun other hMem =>
          hNops other (List.mem_cons_of_mem _ hMem))

theorem meansAll_nops
    {before rest : List (Redirection α)}
    (view : View α)
    (hNops : ∀ pair ∈ before, pair.op = .NOP) :
    meansAll view (before ++ rest) = meansAll view rest := by
  induction before with
  | nil => rfl
  | cons pair before ih =>
      have hOp := hNops pair List.mem_cons_self
      have hMeans : means view pair = some view := by
        rw [means, hOp]
      rw [List.cons_append, meansAll, hMeans]
      exact
        ih (fun other hMem =>
          hNops other (List.mem_cons_of_mem _ hMem))

/- A pipe is left open when the shell cannot fork. -/
theorem redirectImpl_of_fork
    {pair : Redirection α}
    (hOp : pair.op = .HERE_STR)
    (hPipe : lacksPipe pair = false)
    (hFork : pair.answers.fork.isSome = true)
    (hSize :
      PIPE_BUF < (argString pair.arg).utf8ByteSize + 1) :
    ∃ table' e,
      redirectImpl table pair = some (table', some e) ∧
        table'.get STDIN_FILENO ≠ none := by
  have hSome : pair.answers.pipe ≠ none := by
    intro hEq
    rw [lacksPipe, hOp, hEq] at hPipe
    cases hPipe
  rcases Option.ne_none_iff_exists'.mp hSome with
    ⟨⟨readEnd, writeEnd⟩, hEnds⟩
  rcases Option.isSome_iff_exists.mp hFork with ⟨e, hEq⟩
  rw [redirectImpl, hOp]
  simp only [doIOHere, hEnds, if_neg (Nat.not_le.mpr hSize),
    dup2_eq STDIN_FILENO get_readEnd, hEq, Option.isSome_some, if_true]
  refine ⟨_, e, rfl, ?_⟩
  rw [Table.get_put_self]
  rintro ⟨⟩

/- A descriptor that is left open is not closed again. -/
theorem not_transactional_of_left
    {table' : Table α}
    {error : Option RedirObject.SystemError}
    {fd : Nat}
    (hTransactional : Transactional openMax table ops)
    (hClosed : ChangesClosed table ops)
    (hLt : fd < 3)
    (hNone : table.get fd = none)
    (hOps :
      RedirObject.redirectOps (RedirObject.ofOps ops).backupFDset
        table ops = some (table', error)) :
    table'.get fd = none := by
  rcases saved_of_changesClosed hClosed with ⟨hTable, hOld⟩
  have hRedirect :
      (RedirObject.ofOps ops).redirect openMax table =
        some (((RedirObject.ofOps ops).backupFDs openMax table).1,
          table', error) := by
    rw [redirect_eq, hTable, hOps]
    rfl
  have hRestores :=
    hTransactional.restores _ _ _ hRedirect fd hLt
  rw [RedirObject.destroy_of_unsaved _ hOld, hNone] at hRestores
  exact hRestores

theorem firstRefused_of_transactional
    (hTransactional : Transactional openMax table ops)
    (hClosed : ChangesClosed table ops) :
    firstRefused table.get ops = true := by
  rcases saved_of_changesClosed hClosed with ⟨hTable, _⟩
  rw [firstRefused]
  cases hFind : ops.find? (fun pair => pair.op != .NOP) with
  | none => rfl
  | some pair =>
      rcases List.find?_eq_some_iff_append.mp hFind with
        ⟨hNe, before, rest, hEq, hBefore⟩
      have hOp : pair.op ≠ .NOP := by
        simpa using hNe
      have hNops : ∀ other ∈ before, other.op = .NOP := by
        intro other hMem
        simpa using hBefore other hMem
      have hPairMem : pair ∈ ops := by
        rw [hEq]
        exact List.mem_append_right _ List.mem_cons_self
      have hPos :=
        RedirObject.ofOps_backupFDset_pos hPairMem hOp
      have hReturns := hTransactional.returns
      rw [redirect_eq, hTable, Option.isSome_map] at hReturns
      rcases Option.isSome_iff_exists.mp hReturns with
        ⟨⟨last, error⟩, hOps⟩
      have hLeft :
          ∀ fd < 3, (getChangedFD pair.op).testBit fd = true →
            last.get fd = none := by
        intro fd hLt hBit
        apply
          not_transactional_of_left hTransactional hClosed hLt _
            hOps
        apply hClosed fd hLt
        exact List.any_eq_true.mpr ⟨pair, hPairMem, hBit⟩
      have hPairOps :
          RedirObject.redirectOps
              (RedirObject.ofOps ops).backupFDset table
              (pair :: rest) =
            some (last, error) := by
        rw [← redirectOps_nops hNops, ← hEq]
        exact hOps
      rw [RedirObject.redirectOps] at hPairOps
      by_contra hRefused
      cases hPipe : lacksPipe pair with
      | true =>
          rw [redirectImpl_of_lacksPipe hPipe] at hPairOps
          cases hPairOps
      | false =>
          cases hMeans : means table.get pair with
          | none =>
              have hFork :
                  pair.op = .HERE_STR ∧
                    pair.answers.fork.isSome = true ∧
                    PIPE_BUF <
                      (argString pair.arg).utf8ByteSize + 1 := by
                simpa [refused, hMeans, hPipe, and_assoc,
                  Option.isSome_iff_ne_none] using hRefused
              rcases redirectImpl_of_fork hFork.1 hPipe hFork.2.1
                  hFork.2.2 with
                ⟨left, e, hImpl, hOpen⟩
              rw [hImpl] at hPairOps
              simp only [if_pos hPos] at hPairOps
              cases hPairOps
              apply hOpen
              apply hLeft STDIN_FILENO (by decide)
              rw [hFork.1]
              decide
          | some view =>
              rcases means_changed hOp hMeans with
                ⟨fd, hLt, hBit, hOpen⟩
              have hTake :
                  ops.take (before.length + 1) =
                    before ++ [pair] := by
                rw [hEq, List.take_append,
                  List.take_of_length_le (Nat.le_succ _)]
                simp
              have hTakeMeans :
                  meansAll table.get
                      (ops.take (before.length + 1)) =
                    some view := by
                rw [hTake, meansAll_nops _ hNops]
                simp only [meansAll, hMeans]
              have hAfter :
                  afterOps openMax table ops (before.length + 1) =
                    RedirObject.redirectOps
                      (RedirObject.ofOps ops).backupFDset table
                      [pair] := by
                rw [afterOps_eq, hTable, hTake,
                  redirectOps_nops hNops]
              rw [RedirObject.redirectOps] at hAfter
              cases hImpl : redirectImpl table pair with
              | none =>
                  rw [hImpl] at hPairOps
                  cases hPairOps
              | some result =>
                  rcases result with ⟨next, failure⟩
                  rw [hImpl] at hPairOps hAfter
                  cases failure with
                  | some e =>
                      simp only [if_pos hPos] at hAfter
                      have hReports :=
                        (hTransactional.reports _ _ _
                          hAfter).mp rfl
                      rw [hTakeMeans] at hReports
                      cases hReports
                  | none =>
                      have hForce :=
                        hTransactional.inForce _ _ _ hAfter
                          hTakeMeans fd hLt
                      rw [← hForce] at hOpen
                      have hKeeps :=
                        RedirObject.redirectOps_keeps hOpen
                          hPairOps
                      exact hKeeps.1 (hLeft fd hLt hBit)

end

----
-- Exactly These
----

theorem transactional_iff
    (openMax : OpenMax)
    {table : Table α}
    {ops : List (Redirection α)}
    (hOwns : OwnsDescriptors table ops) :
    Transactional openMax table ops ↔
      Restorable openMax table ops := by
  constructor
  · intro hTransactional
    have hReturns := hTransactional.returns
    by_cases hOpen : StdOpen table.get
    · have hPipe : reachesNoPipe table.get ops = false := by
        by_contra hPipe
        rw [Bool.not_eq_false] at hPipe
        have hTracks :=
          tracks_saved openMax hOwns hOpen ops.length
        rw [List.take_length] at hTracks
        rw [redirect_eq, hTracks.redirectOps_exits hPipe]
          at hReturns
        cases hReturns
      refine .inr ⟨hOpen, hPipe, ?_⟩
      rcases Option.isSome_iff_exists.mp hReturns with
        ⟨⟨object, table', error⟩, hRedirect⟩
      intro fd hLt hChanged
      have hLeft :=
        (destroy_of_open hOwns hOpen hPipe hRedirect).1 fd hLt
      rw [hTransactional.restores _ _ _ hRedirect fd hLt]
        at hLeft
      by_cases hFits :
          backups (isChanged ops) (fd + 1) ≤ table.room openMax
      · exact .inl hFits
      · rw [if_pos ⟨hChanged, Nat.not_le.mp hFits⟩] at hLeft
        exact .inr hLeft.symm
    · have hSome : ∃ fd < 3, table.get fd = none := by
        by_contra hNot
        apply hOpen
        intro fd hLt hNone
        exact hNot ⟨fd, hLt, hNone⟩
      have hClosed :=
        changesClosed_of_transactional hTransactional hSome
      exact
        .inl
          ⟨hClosed,
            firstRefused_of_transactional hTransactional
              hClosed⟩
  · rintro (⟨hClosed, hRefused⟩ | ⟨hOpen, hPipe, hBackups⟩)
    · exact transactional_of_refused hClosed hRefused
    · exact transactional_of_open hOwns hOpen hPipe hBackups

/- The system answers every call, with description `found`. -/
def allowed (found : Nat) : Answers Nat :=
  ⟨.ok found, none, some (found, found + 1), none, none, none⟩

/- `> out 2>&1` with room for the two copies and no more. -/
theorem transactional_outAndErr :
    Transactional ⟨5, by decide⟩
      (Table.ofList [some 10, some 11, some 12])
      [⟨.OUT_2_FILE, .string "out", allowed 20⟩,
        ⟨.MERGE_ERR_2_OUT, .none, allowed 20⟩] := by
  apply (transactional_iff _ _).mpr
  · refine .inr ⟨?_, by decide, ?_⟩
    · intro fd hLt
      have hCases : fd = 0 ∨ fd = 1 ∨ fd = 2 := by omega
      rcases hCases with h | h | h
      · rw [h]
        decide
      · rw [h]
        decide
      · rw [h]
        decide
    · intro fd hLt _
      have hCases : fd = 0 ∨ fd = 1 ∨ fd = 2 := by omega
      rcases hCases with h | h | h
      · rw [h]
        decide
      · rw [h]
        decide
      · rw [h]
        decide
  · intro pair hMem fd hArg
    simp only [List.mem_cons, List.not_mem_nil, or_false]
      at hMem
    rcases hMem with hEq | hEq
    · rw [hEq] at hArg
      cases hArg
    · rw [hEq] at hArg
      cases hArg

/- `2>&1` with the standard error closed: it stays open. -/
theorem not_transactional_closedErr :
    ¬Transactional ⟨1024, by decide⟩
      (Table.ofList [some 10, some 11])
      [⟨.MERGE_ERR_2_OUT, .none, allowed 20⟩] := by
  intro hTransactional
  have hClosed :
      ChangesClosed (Table.ofList [some 10, some 11])
        [⟨.MERGE_ERR_2_OUT, .none, allowed 20⟩] := by
    intro fd hLt hChanged
    have hCases : fd = 0 ∨ fd = 1 ∨ fd = 2 := by omega
    rcases hCases with h | h | h
    · rw [h] at hChanged
      cases hChanged
    · rw [h] at hChanged
      cases hChanged
    · rw [h]
      rfl
  have hOps :
      RedirObject.redirectOps
          (RedirObject.ofOps
            [⟨.MERGE_ERR_2_OUT, .none, allowed 20⟩]).backupFDset
          (Table.ofList [some 10, some 11])
          [⟨.MERGE_ERR_2_OUT, .none, allowed 20⟩] =
        some
          ((Table.ofList [some 10, some 11]).put 2 11, none) :=
    rfl
  have hLeft :=
    not_transactional_of_left hTransactional hClosed
      (show 2 < 3 by decide) rfl hOps
  cases hLeft

end Redir

end Ydsh
