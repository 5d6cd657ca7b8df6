import Ydsh.Library.FieldSplitting
import Mathlib.Tactic.Common

/-
  Command substitution into an array of strings.

  What a command writes is read in pieces, and split into fields
  byte by byte.  A field ends at a separator; how much of the
  separator may still follow is what the splitter remembers
  between two bytes.

  Main declarations:
    * `readAsStrArray`
    * `leaveOut`
    * `readAsStrArray_fields`
-/

----
-- Splitter
----

namespace Ydsh

namespace Substitution

open Library

abbrev Bytes := List UInt8

def isSpace (ch : UInt8) : Bool :=
  ch == 0x20 || ch == 0x09 || ch == 0x0A

def hasSpace (ifs : Bytes) : Bool :=
  ifs.any isSpace

def matchFieldSep (ifs : Bytes) (ch : UInt8) : Bool :=
  ifs.any (· == ch)

structure Splitter where
  skipCount : Nat
  str : Bytes
  array : List Bytes

def Splitter.init : Splitter where
  skipCount := 1
  str := []
  array := []

/- A byte that is not skipped. -/
def take
    (ifsRef : Bytes)
    (splitter : Splitter)
    (ch : UInt8) : Splitter :=
  if matchFieldSep ifsRef ch then
    { skipCount := if isSpace ch then 2 else 1
      str := []
      array := splitter.array ++ [splitter.str] }
  else
    { skipCount := 0
      str := splitter.str ++ [ch]
      array := splitter.array }

def step
    (ifsRef : Bytes)
    (splitter : Splitter)
    (ch : UInt8) : Splitter :=
  if matchFieldSep ifsRef ch && splitter.skipCount > 0 then
    if isSpace ch then
      splitter
    else
      let splitter :=
        { splitter with skipCount := splitter.skipCount - 1 }
      if splitter.skipCount = 1 then
        splitter
      else
        take ifsRef splitter ch
  else
    take ifsRef splitter ch

/- What `read` puts into the buffer. -/
abbrev Buf :=
  { bytes : Bytes // 0 < bytes.length ∧ bytes.length ≤ 256 }

/- What `read` returns before the end of the stream or an
   error. -/
inductive Read where
  | data (buf : Buf)
  -- EINTR or EAGAIN
  | again

def readLoop (ifsRef : Bytes) :
    List Read → Splitter → Splitter
  | [], splitter => splitter
  | .again :: reads, splitter =>
      readLoop ifsRef reads splitter
  | .data buf :: reads, splitter =>
      readLoop ifsRef reads (buf.1.foldl (step ifsRef) splitter)

def isNewline (ch : UInt8) : Bool :=
  ch == 0x0A

/- `pop_back` while the last one is a newline. -/
def removeNewlines (str : Bytes) : Bytes :=
  str.rdropWhile isNewline

/- After the loop. -/
def appendRemain
    (ifsRef : Bytes)
    (splitter : Splitter) : List Bytes :=
  let str := removeNewlines splitter.str
  if !str.isEmpty || !hasSpace ifsRef then
    splitter.array ++ [str]
  else
    splitter.array

def readAsStrArray
    (ifsRef : Bytes)
    (reads : List Read) : List Bytes :=
  appendRemain ifsRef (readLoop ifsRef reads .init)

def stream : List Read → Bytes
  | [] => []
  | .again :: reads => stream reads
  | .data buf :: reads => buf.1 ++ stream reads

/- The field separators that are white space. -/
def blank (ifs : Bytes) (ch : UInt8) : Bool :=
  matchFieldSep ifs ch && isSpace ch

/- All others. -/
def mark (ifs : Bytes) (ch : UInt8) : Bool :=
  matchFieldSep ifs ch && !isSpace ch

/- What is split: no newlines at the end, and no white space of
   the field separators at both ends. -/
def splitText (ifs text : Bytes) : Bytes :=
  trim (blank ifs) (removeNewlines text)

/- The last field is left out if it is empty and there is white
   space in the field separators. -/
def leaveOut
    (ifs : Bytes)
    (fields : List Bytes) : List Bytes :=
  if fields.getLast? = some [] ∧ hasSpace ifs then
    fields.dropLast
  else
    fields

----
-- Steps
----

variable {ifs : Bytes}
variable {splitter : Splitter}
variable {ch : UInt8}

theorem readLoop_eq
    (reads : List Read)
    (splitter : Splitter) :
    readLoop ifs reads splitter =
      (stream reads).foldl (step ifs) splitter := by
  induction reads generalizing splitter with
  | nil => rfl
  | cons read reads ih =>
      cases read with
      | again => exact ih splitter
      | data buf =>
          simp only [readLoop, stream, List.foldl_append]
          exact ih _

theorem blank_iff :
    blank ifs ch = true ↔
      matchFieldSep ifs ch = true ∧ isSpace ch = true :=
  Bool.and_eq_true _ _ ▸ Iff.rfl

theorem mark_iff :
    mark ifs ch = true ↔
      matchFieldSep ifs ch = true ∧ isSpace ch = false := by
  simp [mark]

theorem inner_iff :
    (blank ifs ch = false ∧ mark ifs ch = false) ↔
      matchFieldSep ifs ch = false := by
  unfold blank mark
  cases matchFieldSep ifs ch <;> cases isSpace ch <;> simp

theorem step_inner
    (hInner : blank ifs ch = false ∧ mark ifs ch = false) :
    step ifs splitter ch =
      { skipCount := 0
        str := splitter.str ++ [ch]
        array := splitter.array } := by
  have hNone := inner_iff.mp hInner
  simp [step, take, hNone]

/- White space after a separator. -/
theorem step_blank_skip
    (hBlank : blank ifs ch = true)
    (hSkip : 0 < splitter.skipCount) :
    step ifs splitter ch = splitter := by
  rcases blank_iff.mp hBlank with ⟨hSep, hSpace⟩
  simp [step, hSep, hSpace, hSkip]

/- White space after a field. -/
theorem step_blank
    (hBlank : blank ifs ch = true)
    (hSkip : splitter.skipCount = 0) :
    step ifs splitter ch =
      { skipCount := 2
        str := []
        array := splitter.array ++ [splitter.str] } := by
  rcases blank_iff.mp hBlank with ⟨hSep, hSpace⟩
  simp [step, take, hSep, hSpace, hSkip]

theorem step_mark
    (hMark : mark ifs ch = true)
    (hSkip : splitter.skipCount < 2) :
    step ifs splitter ch =
      { skipCount := 1
        str := []
        array := splitter.array ++ [splitter.str] } := by
  rcases mark_iff.mp hMark with ⟨hSep, hSpace⟩
  have hNotOne : splitter.skipCount - 1 ≠ 1 := by
    omega
  simp [step, take, hSep, hSpace, hNotOne]

/- White space and another separator are one separator. -/
theorem step_mark_blanks
    (hMark : mark ifs ch = true)
    (hSkip : splitter.skipCount = 2) :
    step ifs splitter ch = { splitter with skipCount := 1 } := by
  rcases mark_iff.mp hMark with ⟨hSep, hSpace⟩
  simp [step, hSep, hSpace, hSkip]

theorem foldl_inner
    {field : Bytes}
    (hField :
      ∀ ch ∈ field, blank ifs ch = false ∧ mark ifs ch = false)
    (hNonempty : field ≠ []) :
    field.foldl (step ifs) splitter =
      { skipCount := 0
        str := splitter.str ++ field
        array := splitter.array } := by
  induction field generalizing splitter with
  | nil => exact absurd rfl hNonempty
  | cons ch field ih =>
      rw [List.foldl_cons,
        step_inner (hField ch List.mem_cons_self)]
      by_cases hMore : field = []
      · rw [hMore]
        rfl
      · rw [ih
          (fun other hMem =>
            hField other (List.mem_cons_of_mem _ hMem)) hMore]
        simp only [List.append_assoc, List.singleton_append]

theorem foldl_blanks_skip
    {run : Bytes}
    (hRun : ∀ ch ∈ run, blank ifs ch = true)
    (hSkip : 0 < splitter.skipCount) :
    run.foldl (step ifs) splitter = splitter := by
  induction run with
  | nil => rfl
  | cons ch run ih =>
      rw [List.foldl_cons,
        step_blank_skip (hRun ch List.mem_cons_self) hSkip]
      exact
        ih
          (fun other hMem =>
            hRun other (List.mem_cons_of_mem _ hMem))

theorem foldl_blanks
    {run : Bytes}
    (hRun : ∀ ch ∈ run, blank ifs ch = true)
    (hNonempty : run ≠ [])
    (hSkip : splitter.skipCount = 0) :
    run.foldl (step ifs) splitter =
      { skipCount := 2
        str := []
        array := splitter.array ++ [splitter.str] } := by
  cases run with
  | nil => exact absurd rfl hNonempty
  | cons ch run =>
      rw [List.foldl_cons,
        step_blank (hRun ch List.mem_cons_self) hSkip]
      apply foldl_blanks_skip
      · intro other hMem
        exact hRun other (List.mem_cons_of_mem _ hMem)
      · exact Nat.succ_pos 1

----
-- Splitting
----

/- Where a field may begin: after a separator that can still
   grow, or after one that cannot. -/
def Begins
    (ifs : Bytes)
    (splitter : Splitter)
    (text : Bytes) : Prop :=
  splitter.str = [] ∧
    ((splitter.skipCount = 1 ∧
        ∀ ch ∈ text.head?, blank ifs ch = false) ∨
      (splitter.skipCount = 2 ∧
        ∀ ch ∈ text.head?,
          blank ifs ch = false ∧ mark ifs ch = false))

/- All fields but the last one are stored, and that is in
   `str`. -/
structure Stored
    (ifs text : Bytes)
    (array fields : List Bytes)
    (after : Splitter) : Prop where
  fields :
    array ++ fields = after.array ++ [after.str]
  last : ∃ before, text = before ++ after.str
  inner :
    ∀ ch ∈ after.str,
      blank ifs ch = false ∧ mark ifs ch = false
  skip : after.str = [] ↔ 0 < after.skipCount

/- One more field in front. -/
theorem Stored.cons
    {rest field : Bytes}
    {array fields : List Bytes}
    {after : Splitter}
    (front : Bytes)
    (hStored :
      Stored ifs rest (array ++ [field]) fields after) :
    Stored ifs (front ++ rest) array (field :: fields) after := by
  rcases hStored.last with ⟨before, hLast⟩
  exact
    { fields := by
        rw [← hStored.fields, List.append_assoc]
        rfl
      last := ⟨front ++ before, by rw [hLast, List.append_assoc]⟩
      inner := hStored.inner
      skip := hStored.skip }

/- The separator behind a field that is white space. -/
theorem foldl_run
    {field run rest : Bytes}
    (hBegins : Begins ifs splitter (field ++ run ++ rest))
    (hField :
      ∀ ch ∈ field, blank ifs ch = false ∧ mark ifs ch = false)
    (hRun : ∀ ch ∈ run, blank ifs ch = true)
    (hNonempty : run ≠ []) :
    (field ++ run).foldl (step ifs) splitter =
      { skipCount := 2
        str := []
        array := splitter.array ++ [field] } := by
  have hSome : field ≠ [] := by
    rintro rfl
    cases run with
    | nil => exact hNonempty rfl
    | cons b run =>
        have hTrue := hRun b List.mem_cons_self
        rcases hBegins.2 with ⟨_, hHead⟩ | ⟨_, hHead⟩
        · rw [hHead b rfl] at hTrue
          cases hTrue
        · rw [(hHead b rfl).1] at hTrue
          cases hTrue
  rw [List.foldl_append, foldl_inner hField hSome,
    foldl_blanks hRun hNonempty rfl, hBegins.1]
  rfl

/- The separator behind a field that is a mark. -/
theorem foldl_mark
    {field before rest : Bytes}
    (hBegins :
      Begins ifs splitter (field ++ before ++ ch :: rest))
    (hField :
      ∀ ch ∈ field, blank ifs ch = false ∧ mark ifs ch = false)
    (hBefore : ∀ ch ∈ before, blank ifs ch = true)
    (hMark : mark ifs ch = true) :
    (field ++ before ++ [ch]).foldl (step ifs) splitter =
      { skipCount := 1
        str := []
        array := splitter.array ++ [field] } := by
  rcases splitter with ⟨skipCount, str, array⟩
  rcases hBegins with ⟨hStr, hStart⟩
  dsimp only at hStr hStart
  subst hStr
  rw [List.foldl_append, List.foldl_append, List.foldl_cons,
    List.foldl_nil]
  by_cases hEmpty : field = []
  · subst hEmpty
    have hNoBlank :
        ∀ b ∈ (before ++ ch :: rest).head?,
          blank ifs b = false := by
      rcases hStart with ⟨_, hHead⟩ | ⟨_, hHead⟩
      · exact hHead
      · exact fun b hMem => (hHead b hMem).1
    cases before with
    | cons b before =>
        have hTrue := hBefore b List.mem_cons_self
        rw [hNoBlank b rfl] at hTrue
        cases hTrue
    | nil =>
        rcases hStart with ⟨hSkip, _⟩ | ⟨_, hHead⟩
        · subst hSkip
          exact step_mark hMark (Nat.lt_succ_self 1)
        · rw [(hHead ch rfl).2] at hMark
          cases hMark
  · rw [foldl_inner hField hEmpty]
    by_cases hNone : before = []
    · subst hNone
      exact step_mark hMark (Nat.succ_pos 1)
    · rw [foldl_blanks hBefore hNone rfl]
      exact step_mark_blanks hMark rfl

theorem foldl_fields
    {text : Bytes}
    {fields : List Bytes}
    (hFields : Fields (blank ifs) (mark ifs) text fields)
    (hBegins : Begins ifs splitter text) :
    Stored ifs text splitter.array fields
      (text.foldl (step ifs) splitter) := by
  induction hFields generalizing splitter with
  | @last field hField =>
      by_cases hEmpty : field = []
      · subst hEmpty
        rcases hBegins with ⟨hStr, hStart⟩
        exact
          { fields := by rw [List.foldl_nil, hStr]
            last := ⟨[], by rw [List.foldl_nil, hStr]; rfl⟩
            inner := by
              intro ch hMem
              rw [List.foldl_nil, hStr] at hMem
              cases hMem
            skip := by
              rw [List.foldl_nil]
              apply iff_of_true hStr
              rcases hStart with ⟨hSkip, _⟩ | ⟨hSkip, _⟩
              · omega
              · omega }
      · rw [foldl_inner hField hEmpty, hBegins.1]
        exact
          { fields := rfl
            last := ⟨[], rfl⟩
            inner := hField
            skip :=
              iff_of_false hEmpty (Nat.lt_irrefl 0) }
  | @blanks field run rest fields hField hRun hNonempty hRest
      _ ih =>
      rw [List.foldl_append,
        foldl_run hBegins hField hRun hNonempty]
      apply Stored.cons
      apply @ih (Splitter.mk _ _ _)
      exact ⟨rfl, .inr ⟨rfl, hRest⟩⟩
  | @mark field before after rest a fields hField hBefore hMark
      hAfter hRest _ ih =>
      have hSplit :
          field ++ before ++ a :: after ++ rest =
            field ++ before ++ [a] ++ after ++ rest := by
        simp only [List.append_assoc, List.cons_append,
          List.nil_append]
      rw [List.append_assoc, List.cons_append] at hBegins
      rw [hSplit, List.foldl_append,
        List.foldl_append,
        foldl_mark hBegins hField hBefore hMark,
        foldl_blanks_skip hAfter (Nat.succ_pos 0)]
      apply Stored.cons
      apply @ih (Splitter.mk _ _ _)
      exact ⟨rfl, .inl ⟨rfl, hRest⟩⟩

----
-- Newlines at the end
----

theorem removeNewlines_append
    (str : Bytes)
    {newlines : Bytes}
    (hNewlines : ∀ ch ∈ newlines, isNewline ch = true) :
    removeNewlines (str ++ newlines) = removeNewlines str := by
  induction newlines using List.reverseRecOn with
  | nil => rw [List.append_nil]
  | append_singleton newlines ch ih =>
      have hLast : isNewline ch = true :=
        hNewlines ch
          (List.mem_append_right _ List.mem_cons_self)
      unfold removeNewlines at ih ⊢
      rw [← List.append_assoc,
        List.rdropWhile_concat_pos _ _ _ hLast]
      apply ih
      intro other hMem
      exact hNewlines other (List.mem_append_left _ hMem)

/- What ends a text without newlines at its end has none. -/
theorem removeNewlines_suffix
    {front str : Bytes}
    (hFixed : removeNewlines (front ++ str) = front ++ str) :
    removeNewlines str = str := by
  unfold removeNewlines at hFixed ⊢
  rw [List.rdropWhile_eq_self_iff] at hFixed ⊢
  intro hNonempty
  have hLast := hFixed (List.append_ne_nil_of_right_ne_nil _ hNonempty)
  rw [List.getLast_append_of_ne_nil _ hNonempty] at hLast
  exact hLast

theorem hasSpace_of_blank (hBlank : blank ifs ch = true) :
    hasSpace ifs = true := by
  rcases blank_iff.mp hBlank with ⟨hSep, hSpace⟩
  rcases List.any_eq_true.mp hSep with ⟨found, hMem, hEq⟩
  rw [beq_iff_eq.mp hEq] at hMem
  exact List.any_eq_true.mpr ⟨ch, hMem, hSpace⟩

/- A newline is white space or belongs to no separator. -/
theorem newline_cases (hNewline : isNewline ch = true) :
    blank ifs ch = true ∨
      (blank ifs ch = false ∧ mark ifs ch = false) := by
  have hSpace : isSpace ch = true := by
    rw [beq_iff_eq.mp hNewline]
    rfl
  cases hSep : matchFieldSep ifs ch with
  | true => exact .inl (blank_iff.mpr ⟨hSep, hSpace⟩)
  | false => exact .inr (inner_iff.mpr hSep)

/- Newlines at the end of the stream change nothing. -/
theorem appendRemain_newlines
    {newlines : Bytes}
    (hNewlines : ∀ ch ∈ newlines, isNewline ch = true)
    (hSkip : splitter.str = [] ↔ 0 < splitter.skipCount)
    (hFixed : removeNewlines splitter.str = splitter.str) :
    appendRemain ifs (newlines.foldl (step ifs) splitter) =
      appendRemain ifs splitter := by
  cases newlines with
  | nil => rfl
  | cons ch more =>
      have hAll :
          ∀ other ∈ ch :: more, other = ch := by
        intro other hMem
        rw [beq_iff_eq.mp (hNewlines other hMem),
          beq_iff_eq.mp (hNewlines ch List.mem_cons_self)]
      rcases @newline_cases ifs ch
          (hNewlines ch List.mem_cons_self) with
        hBlank | hInner
      · have hRun :
            ∀ other ∈ ch :: more, blank ifs other = true :=
          fun other hMem => hAll other hMem ▸ hBlank
        by_cases hEmpty : splitter.str = []
        · rw [foldl_blanks_skip hRun (hSkip.mp hEmpty)]
        · have hZero : splitter.skipCount = 0 :=
            Nat.eq_zero_of_not_pos
              (fun hPos => hEmpty (hSkip.mpr hPos))
          rw [foldl_blanks hRun (List.cons_ne_nil _ _) hZero]
          unfold appendRemain
          rw [hFixed]
          simp [removeNewlines, hasSpace_of_blank hBlank, hEmpty]
      · have hField :
            ∀ other ∈ ch :: more,
              blank ifs other = false ∧ mark ifs other = false :=
          fun other hMem => hAll other hMem ▸ hInner
        rw [foldl_inner hField (List.cons_ne_nil _ _)]
        unfold appendRemain
        rw [removeNewlines_append splitter.str hNewlines]

----
-- The result
----

/- The last field is in `str`, and so is what follows it. -/
theorem appendRemain_stored
    {text : Bytes}
    {fields : List Bytes}
    (hStored : Stored ifs text [] fields splitter)
    (hFixed : removeNewlines splitter.str = splitter.str) :
    appendRemain ifs splitter = leaveOut ifs fields := by
  have hFields : fields = splitter.array ++ [splitter.str] :=
    hStored.fields
  unfold appendRemain leaveOut
  rw [hFixed, hFields]
  cases hSpace : hasSpace ifs with
  | false => simp
  | true =>
      by_cases hEmpty : splitter.str = []
      · simp [hEmpty]
      · simp [hEmpty]

/- White space behind the last field. -/
theorem appendRemain_blanks
    {text : Bytes}
    {fields : List Bytes}
    (hStored : Stored ifs text [] fields splitter)
    (hSome : splitter.str ≠ [])
    (hBlank : blank ifs ch = true) :
    appendRemain ifs
        { skipCount := 2
          str := []
          array := splitter.array ++ [splitter.str] } =
      leaveOut ifs fields := by
  have hFields : fields = splitter.array ++ [splitter.str] :=
    hStored.fields
  unfold appendRemain leaveOut
  rw [hFields]
  simp [removeNewlines, hasSpace_of_blank hBlank, hSome]

/- Fields are split at the separators, however the stream is
   read, and the last one is left out if it is empty and there
   is white space in the field separators. -/
theorem readAsStrArray_fields
    (ifs : Bytes)
    (reads : List Read) :
    (∃ fields,
      Fields (blank ifs) (mark ifs)
        (splitText ifs (stream reads)) fields) ∧
      ∀ fields,
        Fields (blank ifs) (mark ifs)
            (splitText ifs (stream reads)) fields →
          readAsStrArray ifs reads = leaveOut ifs fields := by
  refine ⟨Fields.total _, ?_⟩
  intro fields hFields
  unfold readAsStrArray
  rw [readLoop_eq]
  generalize stream reads = text at hFields ⊢
  have hText :
      removeNewlines text ++ text.rtakeWhile isNewline = text :=
    List.rdropWhile_append_rtakeWhile
  have hNewlines :
      ∀ ch ∈ text.rtakeWhile isNewline, isNewline ch = true :=
    fun _ hMem => List.mem_rtakeWhile_imp hMem
  have hFixed :
      removeNewlines (removeNewlines text) =
        removeNewlines text :=
    List.rdropWhile_idempotent _ _
  unfold splitText at hFields
  rcases @trim_append _ (blank ifs) (removeNewlines text) with
    ⟨before, after, hBody, hBefore, hAfter⟩
  have hHead :=
    @trim_head _ (blank ifs) (removeNewlines text)
  generalize trim (blank ifs) (removeNewlines text) = core
    at hFields hBody hHead
  have hStored :=
    @foldl_fields ifs Splitter.init core fields hFields
      ⟨rfl, .inl ⟨rfl, hHead⟩⟩
  rw [← hText, List.foldl_append, hBody, List.foldl_append,
    List.foldl_append,
    foldl_blanks_skip hBefore (Nat.succ_pos 0)]
  generalize core.foldl (step ifs) Splitter.init = splitter
    at hStored ⊢
  by_cases hSome : splitter.str ≠ [] ∧ after ≠ []
  · have hZero : splitter.skipCount = 0 :=
      Nat.eq_zero_of_not_pos
        (fun hPos => hSome.1 (hStored.skip.mpr hPos))
    rw [foldl_blanks hAfter hSome.2 hZero,
      appendRemain_newlines hNewlines
        (iff_of_true rfl (Nat.succ_pos 1)) rfl]
    cases after with
    | nil => exact absurd rfl hSome.2
    | cons ch after =>
        exact
          appendRemain_blanks hStored hSome.1
            (hAfter ch List.mem_cons_self)
  · have hAfterFold :
        after.foldl (step ifs) splitter = splitter := by
      by_cases hEmpty : splitter.str = []
      · exact
          foldl_blanks_skip hAfter (hStored.skip.mp hEmpty)
      · have hNil : after = [] :=
          Decidable.byContradiction
            (fun hNe => hSome ⟨hEmpty, hNe⟩)
        rw [hNil]
        rfl
    have hStrFixed :
        removeNewlines splitter.str = splitter.str := by
      by_cases hEmpty : splitter.str = []
      · rw [hEmpty]
        rfl
      · have hNil : after = [] :=
          Decidable.byContradiction
            (fun hNe => hSome ⟨hEmpty, hNe⟩)
        rcases hStored.last with ⟨front, hLast⟩
        rw [hBody, hNil, hLast, List.append_nil,
          ← List.append_assoc] at hFixed
        exact removeNewlines_suffix hFixed
    rw [hAfterFold,
      appendRemain_newlines hNewlines hStored.skip hStrFixed]
    exact appendRemain_stored hStored hStrFixed

/- A space and a one. -/
def spaceOne : Bytes :=
  [0x20, 0x31]

/- `a1` in one piece. -/
def fieldAndMark : List Read :=
  [.data ⟨[0x61, 0x31], by decide⟩]

/- The empty field behind the mark is not kept. -/
theorem not_kept :
    Fields (blank spaceOne) (mark spaceOne)
        (splitText spaceOne (stream fieldAndMark))
        [[0x61], []] ∧
      readAsStrArray spaceOne fieldAndMark ≠ [[0x61], []] := by
  have hLast :
      Fields (blank spaceOne) (mark spaceOne) [] [[]] :=
    .last (fun ch hMem => by cases hMem)
  have hText :
      splitText spaceOne (stream fieldAndMark) =
        [0x61] ++ [] ++ 0x31 :: [] ++ [] := by
    decide
  rw [hText]
  constructor
  · apply Fields.mark _ _ _ _ _ hLast
    · intro ch hMem
      rw [List.mem_singleton.mp hMem]
      decide
    · exact fun ch hMem => by cases hMem
    · decide
    · exact fun ch hMem => by cases hMem
    · exact fun ch hMem => by cases hMem
  · decide

end Substitution

end Ydsh
