import Ydsh.Redir.Frames

/-
  Redirections are undone.

  With all standard descriptors open, the saved descriptors are
  new ones above them, and what they refer to is put back.  A
  descriptor that finds no room for a copy is left as it is.

  Main declarations:
    * `SavedTo`
    * `Tracks.redirectOps`
    * `RedirObject.destroy_of_savedTo`
-/

----
-- Saved Descriptors
----

namespace Ydsh

namespace Redir

open Library.Descriptor

variable {α : Type}

namespace RedirObject

section

variable {table : Table α}
variable {object : RedirObject α}
variable {state : RedirObject α × Table α}

/- Only the saved descriptors of the object are new. -/
structure SameOps (object object' : RedirObject α) : Prop where
  backupFDset : object'.backupFDset = object.backupFDset
  ops : object'.ops = object.ops

variable {openMax : OpenMax}

theorem backupFD_sameOps
    (openMax : OpenMax)
    (state : RedirObject α × Table α)
    (fd : Nat) :
    SameOps state.1 (backupFD openMax state fd).1 := by
  rw [backupFD]
  split_ifs
  · cases state.2.dup openMax fd with
    | none => exact ⟨rfl, rfl⟩
    | some result => exact ⟨rfl, rfl⟩
  · exact ⟨rfl, rfl⟩

theorem SameOps.trans
    {object' object'' : RedirObject α}
    (hFirst : SameOps object object')
    (hSecond : SameOps object' object'') :
    SameOps object object'' :=
  ⟨hSecond.backupFDset.trans hFirst.backupFDset,
    hSecond.ops.trans hFirst.ops⟩

theorem backupFDs_sameOps
    (openMax : OpenMax)
    (object : RedirObject α)
    (table : Table α) :
    SameOps object (object.backupFDs openMax table).1 :=
  ((backupFD_sameOps openMax (object, table) 0).trans
    (backupFD_sameOps openMax _ 1)).trans
      (backupFD_sameOps openMax _ 2)

theorem SameOps.isBackup_eq
    {object' : RedirObject α}
    (hSame : SameOps object object')
    (fd : Nat) :
    object'.isBackup fd = object.isBackup fd := by
  rw [RedirObject.isBackup, RedirObject.isBackup,
    hSame.backupFDset]

theorem backups_succ
    (isSet : Nat → Bool)
    (count : Nat) :
    backups isSet (count + 1) =
      backups isSet count + if isSet count then 1 else 0 := by
  rw [backups, List.range_succ, List.countP_append,
    List.countP_singleton]
  rfl

/-
  The standard descriptors below `count` have been saved, as
  long as there was room.
-/
structure SavedTo
    (openMax : OpenMax)
    (object : RedirObject α)
    (table : Table α)
    (count : Nat)
    (state : RedirObject α × Table α) : Prop where
  kept :
    ∀ fd, table.get fd ≠ none →
      state.2.get fd = table.get fd
  room :
    state.2.room openMax =
      table.room openMax - backups object.isBackup count
  saved :
    ∀ fd < count, object.isBackup fd = true →
      backups object.isBackup (fd + 1) ≤ table.room openMax →
      ∃ old,
        state.1.oldFds fd = some old ∧
          3 ≤ old ∧
          table.get old = none ∧
          state.2.get old = table.get fd
  unsaved :
    ∀ fd,
      object.isBackup fd = false ∨ count ≤ fd ∨
          table.room openMax <
            backups object.isBackup (fd + 1) →
        state.1.oldFds fd = none

theorem SavedTo.succ
    {count : Nat}
    (hOpen : StdOpen table.get)
    (hCount : count < 3)
    (hSame : SameOps object state.1)
    (hSaved : SavedTo openMax object table count state) :
    SavedTo openMax object table (count + 1)
      (backupFD openMax state count) := by
  have hGet := hSaved.kept count (hOpen count hCount)
  have hBackups := backups_succ object.isBackup count
  have hRoom := hSaved.room
  rcases Option.ne_none_iff_exists'.mp (hOpen count hCount) with
    ⟨description, hDescription⟩
  rw [backupFD, hSame.isBackup_eq]
  cases hBackup : object.isBackup count with
  | false =>
      rw [hBackup, if_neg Bool.false_ne_true] at hBackups
      rw [if_neg Bool.false_ne_true]
      constructor
      · exact hSaved.kept
      · rw [hRoom, hBackups, Nat.add_zero]
      · intro fd hLt hIs hFits
        by_cases hEq : fd = count
        · rw [hEq, hBackup] at hIs
          cases hIs
        · exact hSaved.saved fd (by omega) hIs hFits
      · intro fd hNot
        by_cases hEq : fd = count
        · rw [hEq]
          exact hSaved.unsaved count (.inl hBackup)
        · apply hSaved.unsaved fd
          rcases hNot with hNot | hLe | hFull
          · exact .inl hNot
          · exact .inr (.inl (Nat.le_of_succ_le hLe))
          · exact .inr (.inr hFull)
  | true =>
      rw [hBackup, if_pos rfl] at hBackups
      rw [if_pos rfl]
      by_cases hFree : state.2.lowest < openMax.val
      · have hDup :
            state.2.dup openMax count =
              some (state.2.allocate description) :=
          Table.dup_of_get hFree (hGet.trans hDescription)
        have hLeft :
            (state.2.allocate description).1.room openMax + 1 =
              state.2.room openMax :=
          Table.room_allocate hFree
        have hPos := Table.lowest_lt_iff.mp hFree
        have hLowest : 3 ≤ state.2.lowest := by
          apply Table.le_lowest
          intro fd hLt
          rw [hSaved.kept fd (hOpen fd hLt)]
          exact hOpen fd hLt
        have hKept :
            ∀ fd, state.2.get fd ≠ none →
              (state.2.allocate description).1.get fd =
                state.2.get fd :=
          fun fd hSome =>
            Table.get_allocate_of_ne (Table.ne_allocated hSome)
        simp only [hDup]
        constructor
        · intro fd hSome
          have hState := hSaved.kept fd hSome
          rw [← hState] at hSome
          exact (hKept fd hSome).trans hState
        · simp only
          omega
        · intro fd hLt hIs hFits
          by_cases hEq : fd = count
          · subst hEq
            refine
              ⟨(state.2.allocate description).2, ?_, hLowest,
                ?_, ?_⟩
            · exact Function.update_self ..
            · by_contra hSome
              have hState := hSaved.kept _ hSome
              rw [Table.get_allocated] at hState
              exact hSome hState.symm
            · rw [Table.get_allocate_self, hDescription]
          · rcases hSaved.saved fd (by omega) hIs hFits with
              ⟨old, hOld, hLe, hClosed, hRefers⟩
            refine ⟨old, ?_, hLe, hClosed, ?_⟩
            · exact (Function.update_of_ne hEq ..).trans hOld
            · have hSome : state.2.get old ≠ none := by
                rw [hRefers]
                exact hOpen fd (by omega)
              exact (hKept old hSome).trans hRefers
        · intro fd hNot
          have hEq : fd ≠ count := by
            rintro rfl
            rcases hNot with hNot | hLe | hFull
            · rw [hBackup] at hNot
              cases hNot
            · omega
            · omega
          refine (Function.update_of_ne hEq ..).trans ?_
          apply hSaved.unsaved fd
          rcases hNot with hNot | hLe | hFull
          · exact .inl hNot
          · exact .inr (.inl (Nat.le_of_succ_le hLe))
          · exact .inr (.inr hFull)
      · have hDup := Table.dup_of_full count hFree
        have hZero : state.2.room openMax = 0 := by
          rw [Table.lowest_lt_iff] at hFree
          exact Nat.eq_zero_of_not_pos hFree
        simp only [hDup]
        constructor
        · exact hSaved.kept
        · simp only
          omega
        · intro fd hLt hIs hFits
          by_cases hEq : fd = count
          · rw [hEq] at hFits
            omega
          · rcases hSaved.saved fd (by omega) hIs hFits with
              ⟨old, hOld, hRest⟩
            refine ⟨old, ?_, hRest⟩
            exact (Function.update_of_ne hEq ..).trans hOld
        · intro fd hNot
          by_cases hEq : fd = count
          · rw [hEq]
            exact Function.update_self ..
          · refine (Function.update_of_ne hEq ..).trans ?_
            apply hSaved.unsaved fd
            rcases hNot with hNot | hLe | hFull
            · exact .inl hNot
            · exact .inr (.inl (Nat.le_of_succ_le hLe))
            · exact .inr (.inr hFull)

theorem backupFDs_savedTo
    (openMax : OpenMax)
    (hOpen : StdOpen table.get)
    (hOld : object.oldFds = fun _ => none) :
    SavedTo openMax object table 3
      (object.backupFDs openMax table) := by
  have hStart : SavedTo openMax object table 0 (object, table) := by
    constructor
    · exact fun _ _ => rfl
    · rfl
    · intro fd hLt
      exact absurd hLt (Nat.not_lt_zero _)
    · intro fd _
      rw [hOld]
  have hSame : SameOps object (object, table).1 := ⟨rfl, rfl⟩
  have hZero := hStart.succ hOpen (by decide) hSame
  have hSameZero := backupFD_sameOps openMax (object, table) 0
  have hOne := hZero.succ hOpen (by decide) hSameZero
  exact
    hOne.succ hOpen (by decide)
      (hSameZero.trans (backupFD_sameOps openMax _ 1))

----
-- Putting Descriptors Back
----

theorem closeOldFD_get_of_ne
    {fd other : Nat}
    (hNe : object.oldFds fd ≠ some other) :
    (object.closeOldFD table fd).get other = table.get other := by
  rw [closeOldFD]
  cases hOld : object.oldFds fd with
  | none => rfl
  | some old =>
      apply Table.get_close_of_ne
      rintro rfl
      exact hNe hOld

theorem closeOldFD_get_old
    {fd old : Nat}
    (hOld : object.oldFds fd = some old) :
    (object.closeOldFD table fd).get old = none := by
  rw [closeOldFD, hOld]
  exact Table.get_close_self

/- A closed descriptor stays closed. -/
theorem closeOldFD_get_none
    {other : Nat}
    (fd : Nat)
    (hNone : table.get other = none) :
    (object.closeOldFD table fd).get other = none := by
  by_cases hOld : object.oldFds fd = some other
  · exact closeOldFD_get_old hOld
  · rw [closeOldFD_get_of_ne hOld, hNone]

theorem destroy_get_of_ne
    {other : Nat}
    (hNe : ∀ fd, object.oldFds fd ≠ some other) :
    (object.destroy table).get other =
      (object.restoreFDs table).get other := by
  rw [destroy]
  simp only [List.foldl_cons, List.foldl_nil]
  rw [closeOldFD_get_of_ne (hNe 2), closeOldFD_get_of_ne (hNe 1),
    closeOldFD_get_of_ne (hNe 0)]

theorem destroy_get_old
    {fd old : Nat}
    (hLt : fd < 3)
    (hOld : object.oldFds fd = some old) :
    (object.destroy table).get old = none := by
  rw [destroy]
  simp only [List.foldl_cons, List.foldl_nil]
  have hCases : fd = 0 ∨ fd = 1 ∨ fd = 2 := by omega
  rcases hCases with h | h | h
  · subst h
    apply closeOldFD_get_none
    apply closeOldFD_get_none
    exact closeOldFD_get_old hOld
  · subst h
    apply closeOldFD_get_none
    exact closeOldFD_get_old hOld
  · subst h
    exact closeOldFD_get_old hOld

/- The saved descriptors below `count` are what they were. -/
structure RestoredTo
    (object : RedirObject α)
    (table table' : Table α)
    (count : Nat)
    (restored : Table α) : Prop where
  outer : ∀ fd, 3 ≤ fd → restored.get fd = table'.get fd
  inner :
    ∀ fd < 3,
      restored.get fd =
        if fd < count ∧ (object.oldFds fd).isSome = true then
          table.get fd
        else
          table'.get fd

theorem RestoredTo.succ
    {table' restored : Table α}
    {count : Nat}
    (hCount : count < 3)
    (hSaved :
      ∀ old, object.oldFds count = some old →
        object.isBackup count = true ∧
          3 ≤ old ∧
          table'.get old = table.get count)
    (hOpen : StdOpen table.get)
    (hRestored : RestoredTo object table table' count restored) :
    RestoredTo object table table' (count + 1)
      (object.restoreFD restored count) := by
  rw [restoreFD]
  cases hOld : object.oldFds count with
  | none =>
      have hSame :
          (if object.isBackup count then
              (dup2 restored none count).1
            else
              restored) =
            restored :=
        ite_self restored
      rw [hSame]
      refine ⟨hRestored.outer, ?_⟩
      intro fd hLt
      rw [hRestored.inner fd hLt]
      by_cases hEq : fd = count
      · rw [hEq, hOld]
        simp
      · have hIff : fd < count + 1 ↔ fd < count := by omega
        simp only [hIff]
  | some old =>
      rcases hSaved old hOld with ⟨hBackup, hLe, hGet⟩
      rcases Option.ne_none_iff_exists'.mp
          (hOpen count hCount) with
        ⟨description, hDescription⟩
      have hSome : restored.get old = some description := by
        rw [hRestored.outer old hLe, hGet, hDescription]
      rw [if_pos hBackup, dup2_eq count hSome]
      constructor
      · intro fd hFd
        have hNe : fd ≠ count := by omega
        rw [Table.get_put_of_ne hNe]
        exact hRestored.outer fd hFd
      · intro fd hLt
        by_cases hEq : fd = count
        · rw [hEq, Table.get_put_self, hOld, hDescription]
          simp
        · have hIff : fd < count + 1 ↔ fd < count := by omega
          rw [Table.get_put_of_ne hEq, hRestored.inner fd hLt]
          simp only [hIff]

/- What the object has saved is put back. -/
theorem destroy_of_savedTo
    {saved : RedirObject α × Table α}
    {table' : Table α}
    (hOpen : StdOpen table.get)
    (hSmall : ∀ fd, 3 ≤ fd → object.isBackup fd = false)
    (hSame : SameOps object saved.1)
    (hSaved : SavedTo openMax object table 3 saved)
    (hKeeps :
      ∀ fd, saved.2.get fd ≠ none →
        Keeps saved.2 table' fd (object.isBackup fd)) :
    (∀ fd < 3,
      (saved.1.destroy table').get fd =
        if (saved.1.oldFds fd).isSome = true then
          table.get fd
        else
          table'.get fd) ∧
      (∀ fd old, saved.1.oldFds fd = some old →
        (saved.1.destroy table').get old = none) ∧
      ∀ fd, 3 ≤ fd → table.get fd ≠ none →
        (saved.1.destroy table').get fd = table.get fd := by
  have hOldFacts :
      ∀ fd old, saved.1.oldFds fd = some old →
        fd < 3 ∧ object.isBackup fd = true ∧ 3 ≤ old ∧
          table.get old = none ∧
          saved.2.get old = table.get fd := by
    intro fd old hOld
    have hNot := mt (hSaved.unsaved fd)
    rw [hOld, not_or, not_or, Bool.not_eq_false, Nat.not_le,
      Nat.not_lt] at hNot
    rcases hNot nofun with ⟨hBackup, hLt, hFits⟩
    rcases hSaved.saved fd hLt hBackup hFits with
      ⟨old', hOld', hFacts⟩
    rw [hOld] at hOld'
    cases hOld'
    exact ⟨hLt, hBackup, hFacts⟩
  have hSavedGet :
      ∀ fd old, saved.1.oldFds fd = some old →
        saved.1.isBackup fd = true ∧
          3 ≤ old ∧
          table'.get old = table.get fd := by
    intro fd old hOld
    rcases hOldFacts fd old hOld with
      ⟨hLt, hBackup, hLe, _, hRefers⟩
    have hSome : saved.2.get old ≠ none := by
      rw [hRefers]
      exact hOpen fd hLt
    refine ⟨(hSame.isBackup_eq fd).trans hBackup, hLe, ?_⟩
    exact ((hKeeps old hSome).2 (hSmall old hLe)).trans hRefers
  have hStart : RestoredTo saved.1 table table' 0 table' := by
    constructor
    · exact fun _ _ => rfl
    · intro fd _
      rw [if_neg]
      rintro ⟨hLt, _⟩
      exact Nat.not_lt_zero fd hLt
  have hZero := hStart.succ (by decide) (hSavedGet 0) hOpen
  have hOne := hZero.succ (by decide) (hSavedGet 1) hOpen
  have hAll :
      RestoredTo saved.1 table table' 3
        (saved.1.restoreFDs table') :=
    hOne.succ (by decide) (hSavedGet 2) hOpen
  refine ⟨?_, ?_, ?_⟩
  · intro fd hLt
    rw [destroy_get_of_ne]
    · rw [hAll.inner fd hLt]
      simp only [hLt, true_and]
    · intro other hOld
      have hLe := (hOldFacts other fd hOld).2.2.1
      omega
  · intro fd old hOld
    exact destroy_get_old (hOldFacts fd old hOld).1 hOld
  · intro fd hLe hSome
    rw [destroy_get_of_ne]
    · have hState := hSaved.kept fd hSome
      have hSome' : saved.2.get fd ≠ none := by
        rw [hState]
        exact hSome
      rw [hAll.outer fd hLe,
        (hKeeps fd hSome').2 (hSmall fd hLe), hState]
    · intro other hOld
      exact hSome (hOldFacts other fd hOld).2.2.2.1

end

end RedirObject

----
-- Lists That Are Applied
----

section

variable {table table' : Table α}
variable {ops : List (Redirection α)}
variable {pair : Redirection α}
variable {view view' : View α}

/- A descriptor that the operations may name. -/
def IsKnown (outer : View α) (fd : Nat) : Prop :=
  fd < 3 ∨ outer fd ≠ none

def Agree (outer view view' : View α) : Prop :=
  ∀ fd, IsKnown outer fd → view fd = view' fd

variable {outer : View α}

theorem Agree.update_same
    {description : Option α}
    (fd : Nat)
    (hAgree : Agree outer view view') :
    Agree outer (Function.update view fd description)
      (Function.update view' fd description) := by
  intro other hKnown
  by_cases hEq : other = fd
  · rw [hEq, Function.update_self, Function.update_self]
  · rw [Function.update_of_ne hEq, Function.update_of_ne hEq]
    exact hAgree other hKnown

theorem Agree.fileMeans_eq
    {isAppend : Bool}
    (hAgree : Agree outer view view')
    (hArg :
      ∀ fd, pair.arg = .unixFD (some fd) → IsKnown outer fd) :
    fileMeans view pair isAppend =
      fileMeans view' pair isAppend := by
  rw [fileMeans, fileMeans]
  cases hFile : pair.arg with
  | none => rfl
  | string value => rfl
  | unixFD fd =>
      cases fd with
      | none => rfl
      | some fd =>
          simp only [Option.bind_some,
            hAgree fd (hArg fd hFile)]

/- An operation means the same where the descriptors agree. -/
theorem Agree.means_rel
    (hAgree : Agree outer view view')
    (hArg :
      ∀ fd, pair.arg = .unixFD (some fd) → IsKnown outer fd) :
    Option.Rel (Agree outer) (means view pair)
      (means view' pair) := by
  have hStd :
      ∀ (fd : Nat) (description : Option α),
        Option.Rel (Agree outer) (setStd view fd description)
          (setStd view' fd description) := by
    intro fd description
    cases description with
    | none => exact .none
    | some found => exact .some (hAgree.update_same fd)
  have hMerge :
      ∀ source < 3, view source = view' source :=
    fun source hLt => hAgree source (.inl hLt)
  rw [means_eq, means_eq]
  cases hKind : kindOf pair.op with
  | toFile flag target =>
      rw [RedirKind.means, RedirKind.means,
        hAgree.fileMeans_eq hArg]
      exact hStd _ _
  | toBoth flag =>
      rw [RedirKind.means, RedirKind.means,
        hAgree.fileMeans_eq hArg, setBoth, setBoth]
      cases fileMeans view' pair (decide (flag = .APPEND)) with
      | none => exact .none
      | some found => exact .some ((hAgree.update_same _).update_same _)
  | merge source target =>
      have hLt : source < 3 := by
        revert hKind
        cases pair.op <;> rintro ⟨⟩ <;> decide
      rw [RedirKind.means, RedirKind.means, hMerge source hLt]
      exact hStd _ _
  | here => exact hStd _ _
  | nop => exact .some hAgree

/- What is open stays open. -/
theorem means_isOpen
    {fd : Nat}
    (hOpen : view fd ≠ none)
    (hMeans : means view pair = some view') :
    view' fd ≠ none := by
  have hUpdate :
      ∀ (view : View α) (target : Nat) (found : α),
        view fd ≠ none →
        Function.update view target (some found) fd ≠ none := by
    intro view target found hSome
    by_cases hEq : fd = target
    · rw [hEq, Function.update_self]
      rintro ⟨⟩
    · rw [Function.update_of_ne hEq]
      exact hSome
  rw [means_eq] at hMeans
  cases hKind : kindOf pair.op with
  | toFile flag target | merge source target | here =>
      rw [hKind] at hMeans
      rcases setStd_eq_some.mp hMeans with ⟨found, _, hEq⟩
      rw [← hEq]
      exact hUpdate _ _ _ hOpen
  | toBoth flag =>
      rw [hKind] at hMeans
      rcases setBoth_eq_some.mp hMeans with ⟨found, _, hEq⟩
      rw [← hEq]
      exact hUpdate _ _ _ (hUpdate _ _ _ hOpen)
  | nop =>
      rw [hKind] at hMeans
      cases hMeans
      exact hOpen

theorem op_ne_nop_of_fails
    (hMeans : means view pair = none) :
    pair.op ≠ .NOP := by
  intro hOp
  rw [means, hOp] at hMeans
  cases hMeans

/- The table follows the meaning of the list. -/
structure Tracks
    (outer view : View α)
    (table : Table α)
    (ops : List (Redirection α)) : Prop where
  agree : Agree outer table.get view
  isOpen : StdOpen view
  owned :
    ∀ pair ∈ ops, ∀ fd,
      pair.arg = .unixFD (some fd) → IsKnown outer fd

theorem Tracks.std
    (hTracks : Tracks outer view table ops) :
    StdOpen table.get := by
  intro fd hLt
  rw [hTracks.agree fd (.inl hLt)]
  exact hTracks.isOpen fd hLt

theorem Tracks.fails_iff
    (hTracks : Tracks outer view table (pair :: ops)) :
    means table.get pair = none ↔ means view pair = none := by
  have hRel :=
    hTracks.agree.means_rel (hTracks.owned pair List.mem_cons_self)
  generalize means table.get pair = left at hRel
  generalize means view pair = right at hRel
  cases hRel with
  | none => simp
  | some _ => simp

theorem Tracks.step
    (hTracks : Tracks outer view table (pair :: ops))
    (hMeans : means view pair = some view') :
    ∃ table',
      redirectImpl table pair = some (table', none) ∧
        Tracks outer view' table' ops := by
  have hRel :=
    hTracks.agree.means_rel (hTracks.owned pair List.mem_cons_self)
  rw [hMeans] at hRel
  cases hTable : means table.get pair with
  | none =>
      rw [hTable] at hRel
      cases hRel
  | some found =>
      rw [hTable] at hRel
      cases hRel with
      | some hAgree =>
          rcases redirectImpl_of_means hTracks.std hTable with
            ⟨table', hImpl, hGet⟩
          refine ⟨table', hImpl, ?_, ?_, ?_⟩
          · rw [hGet]
            exact hAgree
          · intro fd hLt
            exact means_isOpen (hTracks.isOpen fd hLt) hMeans
          · intro other hMem
            exact
              hTracks.owned other (List.mem_cons_of_mem _ hMem)

/- A list that means something is left by its meaning. -/
theorem leftBy_of_meansAll
    (hMeans : meansAll view ops = some view') :
    leftBy view ops = view' := by
  induction ops generalizing view with
  | nil => exact Option.some.inj hMeans
  | cons pair ops ih =>
      rw [meansAll] at hMeans
      rw [leftBy]
      cases hPair : means view pair with
      | none =>
          rw [hPair] at hMeans
          cases hMeans
      | some next =>
          rw [hPair] at hMeans
          exact ih hMeans

theorem leaves_congr
    {fd : Nat}
    (pair : Redirection α)
    (hEq : view fd = view' fd) :
    leaves view pair fd = leaves view' pair fd := by
  by_cases hOp : pair.op = .HERE_STR
  · cases hPipe : pair.answers.pipe with
    | none => simp only [leaves, hOp, hPipe, hEq]
    | some ends =>
        simp only [leaves, hOp, hPipe, Function.update_apply,
          hEq]
  · rw [leaves_of_ne _ hOp, leaves_of_ne _ hOp, hEq]

/- A list means something and is applied, or it fails. -/
theorem Tracks.redirectOps
    {backupFDset : Nat}
    (hTracks : Tracks outer view table ops)
    (hSet : ∀ pair ∈ ops, pair.op ≠ .NOP → 0 < backupFDset)
    (hPipe : reachesNoPipe view ops = false) :
    (∃ view' table',
      meansAll view ops = some view' ∧
        RedirObject.redirectOps backupFDset table ops =
            some (table', none) ∧
          Agree outer table'.get view') ∨
      ∃ table' e,
        meansAll view ops = none ∧
          RedirObject.redirectOps backupFDset table ops =
              some (table', some e) ∧
            ∀ fd < 3, table'.get fd = leftBy view ops fd := by
  induction ops generalizing table view with
  | nil =>
      exact .inl ⟨view, table, rfl, rfl, hTracks.agree⟩
  | cons pair ops ih =>
      rw [reachesNoPipe] at hPipe
      rcases Bool.or_eq_false_iff.mp hPipe with
        ⟨hHas, hRest⟩
      rw [meansAll, RedirObject.redirectOps, leftBy]
      cases hMeans : means view pair with
      | none =>
          have hNone := hTracks.fails_iff.mpr hMeans
          rcases redirectImpl_of_fails hTracks.std hNone hHas with
            ⟨table', e, hImpl, hLeft⟩
          have hPos :=
            hSet pair List.mem_cons_self
              (op_ne_nop_of_fails hMeans)
          rw [hImpl]
          exact
            .inr
              ⟨table', ⟨e, RedirObject.errorMessage pair.arg⟩,
                rfl, if_pos hPos, fun fd hLt =>
                  (hLeft fd hLt).trans
                    (leaves_congr pair
                      (hTracks.agree fd (.inl hLt)))⟩
      | some next =>
          rw [hMeans] at hRest
          rcases hTracks.step hMeans with
            ⟨table', hImpl, hNext⟩
          rw [hImpl]
          exact
            ih hNext
              (fun other hMem =>
                hSet other (List.mem_cons_of_mem _ hMem))
              hRest

/- A list that reaches a missing pipe ends the shell. -/
theorem Tracks.redirectOps_exits
    {backupFDset : Nat}
    (hTracks : Tracks outer view table ops)
    (hPipe : reachesNoPipe view ops = true) :
    RedirObject.redirectOps backupFDset table ops = none := by
  induction ops generalizing table view with
  | nil => cases hPipe
  | cons pair ops ih =>
      rw [RedirObject.redirectOps]
      cases hLacks : lacksPipe pair with
      | true => rw [redirectImpl_of_lacksPipe hLacks]
      | false =>
          rw [reachesNoPipe, hLacks, Bool.false_or] at hPipe
          cases hMeans : means view pair with
          | none =>
              rw [hMeans] at hPipe
              cases hPipe
          | some next =>
              rw [hMeans] at hPipe
              rcases hTracks.step hMeans with
                ⟨table', hImpl, hNext⟩
              rw [hImpl]
              exact ih hNext hPipe

theorem reachesNoPipe_take
    (count : Nat)
    (hPipe : reachesNoPipe view ops = false) :
    reachesNoPipe view (ops.take count) = false := by
  induction ops generalizing view count with
  | nil =>
      rw [List.take_nil]
      rfl
  | cons pair ops ih =>
      cases count with
      | zero => rfl
      | succ count =>
          rw [reachesNoPipe] at hPipe
          rcases Bool.or_eq_false_iff.mp hPipe with
            ⟨hHas, hRest⟩
          rw [List.take_succ_cons, reachesNoPipe, hHas,
            Bool.false_or]
          cases hMeans : means view pair with
          | none => rfl
          | some next =>
              rw [hMeans] at hRest
              exact ih count hRest

end

end Redir

end Ydsh
