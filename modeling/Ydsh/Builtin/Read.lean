import Ydsh.VM.CommandSubstitution

/-
  The `read` command.

  A line is read byte by byte, and split into fields at the
  separators that are not escaped, one field for each name.

  Main declarations:
    * `builtinRead`
    * `logicalLine`
    * `values`
    * `builtinRead_assigns`
-/

----
-- Reading
----

namespace Ydsh

namespace BuiltinRead

open Library
open Substitution
  (Bytes isSpace hasSpace matchFieldSep blank mark)

abbrev NEWLINE : UInt8 := 0x0A

abbrev BACKSLASH : UInt8 := 0x5C

def EOF : Int := -1

/- A byte that has been read is a `signed char`. -/
def xfgetc (byte : UInt8) : Int :=
  if byte.toNat < 128 then byte.toNat else byte.toNat - 256

/- The elements of `reply`. -/
abbrev Map := Bytes → Option Bytes

def set (obj : Map) (key value : Bytes) : Map :=
  fun name => if name = key then some value else obj name

/- The names are those without a value. -/
structure ReadState where
  skipCount : Nat
  strBuf : Bytes
  names : List Bytes
  obj : Map

/- The end of a field, when it is not for the last name. -/
def endField (ch : UInt8) (s : ReadState) : ReadState :=
  match s.names with
  | [] => s
  | varObj :: names =>
      { skipCount := if isSpace ch then 2 else 1
        strBuf := []
        names := names
        obj := set s.obj varObj s.strBuf }

/- A byte that is neither a newline nor an escape. -/
def readChar
    (ifs : Bytes)
    (s : ReadState)
    (prevIsBackslash : Bool)
    (ch : UInt8) : ReadState :=
  let fieldSep := matchFieldSep ifs ch && !prevIsBackslash
  let skips := fieldSep && 0 < s.skipCount
  if skips && isSpace ch then s
  else if skips && s.skipCount - 1 == 1 then
    { s with skipCount := s.skipCount - 1 }
  else if fieldSep && 1 < s.names.length then endField ch s
  else { s with skipCount := 0, strBuf := s.strBuf ++ [ch] }

/-
  What the loop ends with: the state, what is left to be read,
  and the byte that ended it.
-/
def readLoop
    (backslash : Bool)
    (ifs : Bytes) :
    Bool → ReadState → Bytes → ReadState × Bytes × Int
  | _, s, [] => (s, [], EOF)
  | prevIsBackslash, s, byte :: stream =>
      if xfgetc byte = EOF then (s, stream, EOF)
      else if byte = NEWLINE then
        if prevIsBackslash then
          readLoop backslash ifs false s stream
        else (s, stream, xfgetc byte)
      else if
        byte == BACKSLASH && !prevIsBackslash && backslash
      then readLoop backslash ifs true s stream
      else
        readLoop backslash ifs false
          (readChar ifs s prevIsBackslash byte) stream

/- The last spaces are removed. -/
def removeSpaces (ifs strBuf : Bytes) : Bytes :=
  if hasSpace ifs then strBuf.rdropWhile isSpace else strBuf

/- The names that are left get the rest, and empty strings. -/
def setRest : Map → Bytes → List Bytes → Map
  | obj, _, [] => obj
  | obj, strBuf, varObj :: names =>
      setRest (set obj varObj strBuf) [] names

structure Result where
  REPLY : Bytes
  reply : Map
  rest : Bytes
  status : Nat

def builtinRead
    (backslash : Bool)
    (ifs : Bytes)
    (names : List Bytes)
    (stream : Bytes) : Result :=
  let ret :=
    readLoop backslash ifs false ⟨1, [], names, fun _ => none⟩
      stream
  let strBuf := removeSpaces ifs ret.1.strBuf
  { REPLY := if names = [] then strBuf else []
    reply := setRest ret.1.obj strBuf ret.1.names
    rest := ret.2.1
    status := if ret.2.2 = EOF then 1 else 0 }

----
-- Lines
----

structure Line where
  bytes : Bytes
  rest : Bytes
  ended : Bool

/- Up to the first newline that is not escaped. -/
def logicalLine (backslash : Bool) : Bool → Bytes → Line
  | _, [] => ⟨[], [], false⟩
  | escaped, byte :: stream =>
      if byte = NEWLINE ∧ escaped = false then
        ⟨[byte], stream, true⟩
      else
        let line :=
          logicalLine backslash
            (byte == BACKSLASH && !escaped && backslash) stream
        { line with bytes := byte :: line.bytes }

/- A byte of a line, and whether it is escaped. -/
abbrev Item := UInt8 × Bool

/- A line without its escapes and its newlines. -/
def items (backslash : Bool) : Bool → Bytes → List Item
  | _, [] => []
  | escaped, byte :: stream =>
      if byte = NEWLINE then
        if escaped then items backslash false stream else []
      else if byte == BACKSLASH && !escaped && backslash then
        items backslash true stream
      else (byte, escaped) :: items backslash false stream

def itemBlank (ifs : Bytes) (item : Item) : Bool :=
  !item.2 && blank ifs item.1

def itemMark (ifs : Bytes) (item : Item) : Bool :=
  !item.2 && mark ifs item.1

/- The fields for a number of names, of which the last is what
is left. -/
def fields
    (ifs : Bytes)
    (count : Nat)
    (line : List Item) : List Bytes :=
  (firstFields (itemBlank ifs) (itemMark ifs) (count - 1)
    (line.dropWhile (itemBlank ifs))).map (·.map Prod.fst)

/- From the field at the end of the line, spaces are removed. -/
def values
    (ifs : Bytes)
    (count : Nat)
    (line : List Item) : List Bytes :=
  (fields ifs count line).dropLast ++
    [removeSpaces ifs ((fields ifs count line).getLastD [])]

/- The names get the values in order, and empty strings. -/
def assign : Map → List Bytes → List Bytes → Map
  | obj, [], _ => obj
  | obj, name :: names, values =>
      assign (set obj name (values.headD [])) names values.tail

----
-- The Loop
----

section Loop

variable {backslash : Bool} {ifs : Bytes}

/- Only one byte is taken for the end of the file. -/
theorem xfgetc_eof
    (byte : UInt8) : xfgetc byte = EOF ↔ byte = 0xFF := by
  have hLess := byte.toNat_lt
  rw [← UInt8.toNat_inj]
  unfold xfgetc EOF
  by_cases hSmall : byte.toNat < 128
  · rw [if_pos hSmall]
    have hByte : (0xFF : UInt8).toNat = 255 := rfl
    omega
  · rw [if_neg hSmall]
    have hByte : (0xFF : UInt8).toNat = 255 := rfl
    omega

def readItem
    (ifs : Bytes)
    (s : ReadState)
    (item : Item) : ReadState :=
  readChar ifs s item.2 item.1

/- The loop goes through the items of one line. -/
theorem readLoop_eq
    {escaped : Bool}
    (s : ReadState)
    (stream : Bytes)
    (hBytes :
      0xFF ∉ (logicalLine backslash escaped stream).bytes) :
    (readLoop backslash ifs escaped s stream).1 =
        (items backslash escaped stream).foldl
          (readItem ifs) s ∧
      (readLoop backslash ifs escaped s stream).2.1 =
        (logicalLine backslash escaped stream).rest ∧
      ((readLoop backslash ifs escaped s stream).2.2 = EOF ↔
        (logicalLine backslash escaped stream).ended =
          false) := by
  induction stream generalizing escaped s with
  | nil => exact ⟨rfl, rfl, by simp [readLoop, logicalLine]⟩
  | cons byte stream ih =>
      have hByte : byte ≠ 0xFF := by
        rintro rfl
        apply hBytes
        unfold logicalLine
        by_cases hEnd :
            (0xFF : UInt8) = NEWLINE ∧ escaped = false
        · rw [if_pos hEnd]
          exact List.mem_cons_self
        · rw [if_neg hEnd]
          exact List.mem_cons_self
      have hNotEof : xfgetc byte ≠ EOF :=
        (xfgetc_eof byte).not.2 hByte
      have hMore :
          ¬(byte = NEWLINE ∧ escaped = false) →
            0xFF ∉
              (logicalLine backslash
                (byte == BACKSLASH && !escaped && backslash)
                stream).bytes := by
        intro hInside hMem
        apply hBytes
        rw [logicalLine, if_neg hInside]
        exact List.mem_cons_of_mem _ hMem
      rw [readLoop, items, logicalLine, if_neg hNotEof]
      by_cases hNewline : byte = NEWLINE
      · subst hNewline
        cases escaped with
        | false =>
            exact
              ⟨by simp, by simp, by simpa using hNotEof⟩
        | true => simpa using ih s (hMore (by simp))
      · have hInside : ¬(byte = NEWLINE ∧ escaped = false) :=
          fun hBoth => hNewline hBoth.1
        have hRest := hMore hInside
        rw [if_neg hNewline, if_neg hNewline, if_neg hInside]
        by_cases hEscape :
            (byte == BACKSLASH && !escaped && backslash) = true
        · rw [hEscape] at hRest ⊢
          simpa using ih s hRest
        · rw [Bool.not_eq_true] at hEscape
          rw [hEscape] at hRest ⊢
          simpa [readItem] using
            ih (readChar ifs s escaped byte) hRest

end Loop

----
-- Items
----

section Items

variable {ifs : Bytes} {s : ReadState} {item : Item}

theorem itemBlank_iff :
    itemBlank ifs item = true ↔
      (matchFieldSep ifs item.1 && !item.2) = true ∧
        isSpace item.1 = true := by
  simp only [itemBlank, blank, Bool.and_eq_true]
  constructor
  · rintro ⟨hOpen, hSep, hSpace⟩
    exact ⟨⟨hSep, hOpen⟩, hSpace⟩
  · rintro ⟨⟨hSep, hOpen⟩, hSpace⟩
    exact ⟨hOpen, hSep, hSpace⟩

theorem itemMark_iff :
    itemMark ifs item = true ↔
      (matchFieldSep ifs item.1 && !item.2) = true ∧
        isSpace item.1 = false := by
  simp only [itemMark, mark, Bool.and_eq_true,
    Bool.not_eq_true']
  constructor
  · rintro ⟨hOpen, hSep, hSpace⟩
    exact ⟨⟨hSep, hOpen⟩, hSpace⟩
  · rintro ⟨⟨hSep, hOpen⟩, hSpace⟩
    exact ⟨hOpen, hSep, hSpace⟩

theorem itemInside_iff :
    (itemBlank ifs item = false ∧ itemMark ifs item = false) ↔
      (matchFieldSep ifs item.1 && !item.2) = false := by
  constructor
  · rintro ⟨hBlank, hMark⟩
    rw [← Bool.not_eq_true]
    intro hSep
    cases hSpace : isSpace item.1 with
    | true =>
        rw [itemBlank_iff.2 ⟨hSep, hSpace⟩] at hBlank
        exact nomatch hBlank
    | false =>
        rw [itemMark_iff.2 ⟨hSep, hSpace⟩] at hMark
        exact nomatch hMark
  · intro hInside
    constructor
    · rw [← Bool.not_eq_true]
      intro hBlank
      rw [(itemBlank_iff.1 hBlank).1] at hInside
      exact nomatch hInside
    · rw [← Bool.not_eq_true]
      intro hMark
      rw [(itemMark_iff.1 hMark).1] at hInside
      exact nomatch hInside

/- A blank behind a separator is skipped. -/
theorem readItem_blank
    (hBlank : itemBlank ifs item = true)
    (hSkip : 0 < s.skipCount) : readItem ifs s item = s := by
  rcases itemBlank_iff.1 hBlank with ⟨hSep, hSpace⟩
  simp [readItem, readChar, hSep, hSpace, hSkip]

/- The first mark behind blanks is a part of the separator. -/
theorem readItem_absorbed
    (hMark : itemMark ifs item = true)
    (hSkip : s.skipCount = 2) :
    readItem ifs s item = { s with skipCount := 1 } := by
  rcases itemMark_iff.1 hMark with ⟨hSep, hSpace⟩
  simp [readItem, readChar, hSep, hSpace, hSkip]

/- What is no separator belongs to the field, and so does a
separator, when there is only one name left. -/
theorem readItem_kept
    (hKept :
      itemBlank ifs item = false ∧ itemMark ifs item = false ∨
        s.names.length ≤ 1 ∧
          (s.skipCount = 0 ∨
            s.skipCount = 1 ∧ itemMark ifs item = true)) :
    readItem ifs s item =
      { s with
        skipCount := 0
        strBuf := s.strBuf ++ [item.1] } := by
  rcases hKept with hInside | ⟨hLast, hZero | ⟨hOne, hMark⟩⟩
  · have hSep := itemInside_iff.1 hInside
    simp [readItem, readChar, hSep]
  · have hFew : ¬1 < s.names.length := by omega
    simp [readItem, readChar, hZero, hFew]
  · rcases itemMark_iff.1 hMark with ⟨hSep, hSpace⟩
    have hFew : ¬1 < s.names.length := by omega
    simp [readItem, readChar, hOne, hFew, hSep, hSpace]

theorem readItem_ended
    (hNames : 1 < s.names.length)
    (hEnded :
      s.skipCount = 0 ∧
          (itemBlank ifs item || itemMark ifs item) = true ∨
        s.skipCount = 1 ∧ itemMark ifs item = true) :
    readItem ifs s item = endField item.1 s := by
  rcases hEnded with ⟨hZero, hEither⟩ | ⟨hOne, hMark⟩
  · have hSep :
        (matchFieldSep ifs item.1 && !item.2) = true := by
      rcases Bool.or_eq_true_iff.1 hEither with hBlank | hMark
      · exact (itemBlank_iff.1 hBlank).1
      · exact (itemMark_iff.1 hMark).1
    simp [readItem, readChar, hZero, hSep, hNames]
  · rcases itemMark_iff.1 hMark with ⟨hSep, hSpace⟩
    simp [readItem, readChar, hOne, hSep, hSpace, hNames]

end Items

----
-- Fields
----

section Fields

variable {ifs : Bytes}

def Inside (ifs : Bytes) (field : List Item) : Prop :=
  ∀ item ∈ field,
    itemBlank ifs item = false ∧ itemMark ifs item = false

/- What is left of a line when the separator in front of it is
taken off. -/
def pending
    (ifs : Bytes)
    (skipCount : Nat)
    (line : List Item) : List Item :=
  match skipCount with
  | 0 => line
  | 1 => line.dropWhile (itemBlank ifs)
  | _ => dropSeparator (itemBlank ifs) (itemMark ifs) line

/- The field that is being read. -/
structure Holds
    (ifs : Bytes)
    (s : ReadState)
    (field : List Item) : Prop where
  strBuf : s.strBuf = field.map Prod.fst
  skipCount :
    s.skipCount = 0 ∨
      field = [] ∧ (s.skipCount = 1 ∨ s.skipCount = 2)
  inside : 1 < s.names.length → Inside ifs field

/- What a state is after some more fields, the last of which is
being read. -/
structure Reached
    (s s' : ReadState)
    (fields : List Bytes) : Prop where
  strBuf : fields.getLast? = some s'.strBuf
  names : s'.names = s.names.drop (fields.length - 1)
  obj : s'.obj = assign s.obj
    (s.names.take (fields.length - 1)) fields.dropLast
  fits : fields.length = 1 ∨ fields.length ≤ s.names.length

theorem Reached.cons
    {s s' : ReadState}
    {fields : List Bytes}
    {ch : UInt8}
    (hNames : 1 < s.names.length)
    (hReached : Reached (endField ch s) s' fields) :
    Reached s s' (s.strBuf :: fields) := by
  rcases s with ⟨skipCount, strBuf, names, obj⟩
  cases names with
  | nil => exact absurd hNames (Nat.not_lt_zero 1)
  | cons name names =>
      have hSome : fields ≠ [] := by
        rintro rfl
        exact nomatch hReached.strBuf
      have hLength := List.length_pos_iff.2 hSome
      rcases hFields : fields.length with _ | count
      · omega
      have hLast :
          (strBuf :: fields).getLast? = fields.getLast? := by
        rw [List.getLast?_cons]
        cases hGet : fields.getLast? with
        | none =>
            exact
              absurd (List.getLast?_eq_none_iff.1 hGet) hSome
        | some last => rfl
      constructor
      · rw [hLast]
        exact hReached.strBuf
      · rw [hReached.names, List.length_cons, hFields]
        rfl
      · rw [hReached.obj, List.length_cons, hFields,
          List.dropLast_cons_of_ne_nil hSome]
        rfl
      · refine Or.inr ?_
        have hFits := hReached.fits
        simp only [endField] at hFits
        simp only [List.length_cons] at hNames ⊢
        omega

theorem Reached.last
    {s s' : ReadState}
    {field : List Item}
    (hStrBuf : s'.strBuf = field.map Prod.fst)
    (hNames : s'.names = s.names)
    (hObj : s'.obj = s.obj) :
    Reached s s' [field.map Prod.fst] :=
  { strBuf := by rw [hStrBuf]; rfl
    names := hNames
    obj := hObj
    fits := Or.inl rfl }

/- From a state, the loop reads the first fields of a line,
which the separator in front of it is taken off. -/
def ReadsFrom
    (ifs : Bytes)
    (s : ReadState)
    (field line : List Item) : Prop :=
  Reached s (line.foldl (readItem ifs) s)
    ((firstFields (itemBlank ifs) (itemMark ifs)
        (s.names.length - 1)
        (field ++ pending ifs s.skipCount line)).map
      (·.map Prod.fst))

def ReadsFields (ifs : Bytes) (line : List Item) : Prop :=
  ∀ s field, Holds ifs s field → ReadsFrom ifs s field line

theorem readsFields_nil : ReadsFields ifs [] := by
  intro s field hHolds
  have hNone : pending ifs s.skipCount [] = [] := by
    rcases hHolds.skipCount with hZero | ⟨hNil, hOne | hTwo⟩
    · rw [hZero]
      rfl
    · rw [hOne]
      rfl
    · rw [hTwo]
      rfl
  unfold ReadsFrom
  rw [hNone, List.append_nil]
  have hField :
      firstFields (itemBlank ifs) (itemMark ifs)
          (s.names.length - 1) field =
        [field] := by
    by_cases hNames : 1 < s.names.length
    · exact firstFields_inside _ (hHolds.inside hNames)
    · have hZero : s.names.length - 1 = 0 := by omega
      rw [hZero]
      rfl
  rw [hField]
  exact Reached.last hHolds.strBuf rfl rfl

section Item

variable
  {s : ReadState} {item : Item} {field line : List Item}

theorem reached_skipped
    (hLine : ReadsFields ifs line)
    (hHolds : Holds ifs s field)
    (hStep : readItem ifs s item = s)
    (hPending :
      pending ifs s.skipCount (item :: line) =
        pending ifs s.skipCount line) :
    ReadsFrom ifs s field (item :: line) := by
  unfold ReadsFrom
  rw [List.foldl_cons, hStep, hPending]
  exact hLine s field hHolds

theorem reached_kept
    (hLine : ReadsFields ifs line)
    (hHolds : Holds ifs s field)
    (hStep :
      readItem ifs s item =
        { s with
          skipCount := 0
          strBuf := s.strBuf ++ [item.1] })
    (hInside :
      1 < s.names.length →
        itemBlank ifs item = false ∧ itemMark ifs item = false)
    (hPending :
      pending ifs s.skipCount (item :: line) = item :: line) :
    ReadsFrom ifs s field (item :: line) := by
  have hNext :
      Holds ifs
        { s with
          skipCount := 0
          strBuf := s.strBuf ++ [item.1] }
        (field ++ [item]) := by
    refine ⟨?_, Or.inl rfl, ?_⟩
    · simp [hHolds.strBuf]
    · intro hNames other hMem
      rcases List.mem_append.1 hMem with hOld | hNew
      · exact hHolds.inside hNames other hOld
      · rw [List.mem_singleton.1 hNew]
        exact hInside hNames
  have hReached := hLine _ _ hNext
  unfold ReadsFrom at hReached ⊢
  rw [List.foldl_cons, hStep, hPending]
  rw [List.append_assoc] at hReached
  exact
    ⟨hReached.strBuf, hReached.names, hReached.obj,
      hReached.fits⟩

theorem reached_ended
    (hLine : ReadsFields ifs line)
    (hHolds : Holds ifs s field)
    (hNames : 1 < s.names.length)
    (hStep : readItem ifs s item = endField item.1 s)
    (hSeparator :
      (itemBlank ifs item || itemMark ifs item) = true)
    (hPending :
      pending ifs s.skipCount (item :: line) = item :: line) :
    ReadsFrom ifs s field (item :: line) := by
  have hCount :
      s.names.length - 1 =
        (endField item.1 s).names.length - 1 + 1 := by
    rcases s with ⟨skipCount, strBuf, _ | ⟨name, names⟩, obj⟩
    · exact absurd hNames (Nat.not_lt_zero 1)
    · simp only [endField, List.length_cons] at hNames ⊢
      omega
  have hSome : s.names ≠ [] := by
    intro hNil
    rw [hNil] at hNames
    exact absurd hNames (Nat.not_lt_zero 1)
  have hNext : Holds ifs (endField item.1 s) [] := by
    rcases s with ⟨skipCount, strBuf, _ | ⟨name, names⟩, obj⟩
    · exact absurd rfl hSome
    · refine ⟨rfl, Or.inr ⟨rfl, ?_⟩, ?_⟩
      · cases hSpace : isSpace item.1 with
        | true => exact Or.inr (by simp [endField, hSpace])
        | false => exact Or.inl (by simp [endField, hSpace])
      · intro hMore other hMem
        exact absurd hMem List.not_mem_nil
  have hSkip :
      (endField item.1 s).skipCount =
        if isSpace item.1 then 2 else 1 := by
    rcases s with ⟨skipCount, strBuf, _ | ⟨name, names⟩, obj⟩
    · exact absurd rfl hSome
    · rfl
  have hTaken :
      dropSeparator (itemBlank ifs) (itemMark ifs)
          (item :: line) =
        pending ifs (endField item.1 s).skipCount line := by
    rw [hSkip]
    cases hBlank : itemBlank ifs item with
    | true =>
        rw [(itemBlank_iff.1 hBlank).2]
        exact dropSeparator_blank line hBlank
    | false =>
        rw [hBlank, Bool.false_or] at hSeparator
        rw [(itemMark_iff.1 hSeparator).2]
        exact dropSeparator_mark line hBlank hSeparator
  unfold ReadsFrom
  rw [List.foldl_cons, hStep, hPending, hCount,
    firstFields_separator _ (hHolds.inside hNames) hSeparator,
    hTaken, List.map_cons, ← hHolds.strBuf]
  exact (hLine _ _ hNext).cons hNames

end Item

/- Of the separator in front of a line, an item that is not
taken off is where the line begins. -/
theorem pending_cons
    {skipCount : Nat}
    {item : Item}
    (line : List Item)
    (hBegins :
      skipCount = 0 ∨
        itemBlank ifs item = false ∧
          (skipCount = 1 ∨ itemMark ifs item = false)) :
    pending ifs skipCount (item :: line) = item :: line := by
  rcases hBegins with hZero | ⟨hBlank, hOne | hMark⟩
  · rw [hZero]
    rfl
  · rw [hOne]
    exact List.dropWhile_cons_of_neg (by simp [hBlank])
  · match skipCount with
    | 0 => rfl
    | 1 => exact List.dropWhile_cons_of_neg (by simp [hBlank])
    | skipCount + 2 =>
        exact dropSeparator_inside line hBlank hMark

/- A blank is skipped behind a separator, and otherwise it ends
the field. -/
theorem reached_blank
    {s : ReadState}
    {item : Item}
    {field line : List Item}
    (hLine : ReadsFields ifs line)
    (hHolds : Holds ifs s field)
    (hBlank : itemBlank ifs item = true) :
    ReadsFrom ifs s field (item :: line) := by
  rcases hHolds.skipCount with hZero | ⟨hNil, hSkip⟩
  · have hPending :
        pending ifs s.skipCount (item :: line) = item :: line :=
      pending_cons line (Or.inl hZero)
    have hSeparator :
        (itemBlank ifs item || itemMark ifs item) = true := by
      rw [hBlank, Bool.true_or]
    by_cases hNames : 1 < s.names.length
    · exact
        reached_ended hLine hHolds hNames
          (readItem_ended hNames (Or.inl ⟨hZero, hSeparator⟩))
          hSeparator hPending
    · exact
        reached_kept hLine hHolds
          (readItem_kept
            (Or.inr ⟨Nat.le_of_not_lt hNames, Or.inl hZero⟩))
          (fun hMore => absurd hMore hNames) hPending
  · apply reached_skipped hLine hHolds
    · apply readItem_blank hBlank
      omega
    · rcases hSkip with hOne | hTwo
      · rw [hOne]
        exact List.dropWhile_cons_of_pos hBlank
      · rw [hTwo]
        exact dropSeparator_blank line hBlank

/- A mark belongs to the blanks in front of it, and otherwise
it ends the field. -/
theorem reached_mark
    {s : ReadState}
    {item : Item}
    {field line : List Item}
    (hLine : ReadsFields ifs line)
    (hHolds : Holds ifs s field)
    (hBlank : itemBlank ifs item = false)
    (hMark : itemMark ifs item = true) :
    ReadsFrom ifs s field (item :: line) := by
  by_cases hTwo : s.skipCount = 2
  · have hNil : field = [] := by
      rcases hHolds.skipCount with hZero | ⟨hNil, hSkip⟩
      · omega
      · exact hNil
    have hNext : Holds ifs { s with skipCount := 1 } [] := by
      refine ⟨?_, Or.inr ⟨rfl, Or.inl rfl⟩, ?_⟩
      · rw [← hNil]
        exact hHolds.strBuf
      · intro hNames other hMem
        exact absurd hMem List.not_mem_nil
    have hReached := hLine _ _ hNext
    have hPending :
        pending ifs 2 (item :: line) = pending ifs 1 line :=
      dropSeparator_mark line hBlank hMark
    unfold ReadsFrom
    rw [List.foldl_cons, readItem_absorbed hMark hTwo, hTwo,
      hNil, hPending]
    exact
      ⟨hReached.strBuf, hReached.names, hReached.obj,
        hReached.fits⟩
  · have hSkip : s.skipCount = 0 ∨ s.skipCount = 1 := by
      rcases hHolds.skipCount with hZero | ⟨hNil, hSkip⟩ <;>
        omega
    have hPending :
        pending ifs s.skipCount (item :: line) =
          item :: line := by
      apply pending_cons
      rcases hSkip with hZero | hOne
      · exact Or.inl hZero
      · exact Or.inr ⟨hBlank, Or.inl hOne⟩
    have hSeparator :
        (itemBlank ifs item || itemMark ifs item) = true := by
      rw [hMark, Bool.or_true]
    by_cases hNames : 1 < s.names.length
    · apply
        reached_ended hLine hHolds hNames _ hSeparator hPending
      apply readItem_ended hNames
      rcases hSkip with hZero | hOne
      · exact Or.inl ⟨hZero, hSeparator⟩
      · exact Or.inr ⟨hOne, hMark⟩
    · apply reached_kept hLine hHolds _ _ hPending
      · apply readItem_kept
        refine Or.inr ⟨Nat.le_of_not_lt hNames, ?_⟩
        rcases hSkip with hZero | hOne
        · exact Or.inl hZero
        · exact Or.inr ⟨hOne, hMark⟩
      · intro hMore
        exact absurd hMore hNames

/- By induction on the line, one item after the other. -/
theorem readsFields
    (line : List Item) : ReadsFields ifs line := by
  induction line with
  | nil => exact readsFields_nil
  | cons item line ih =>
      intro s field hHolds
      cases hBlank : itemBlank ifs item with
      | true => exact reached_blank ih hHolds hBlank
      | false =>
          cases hMark : itemMark ifs item with
          | true => exact reached_mark ih hHolds hBlank hMark
          | false =>
              exact
                reached_kept ih hHolds
                  (readItem_kept (Or.inl ⟨hBlank, hMark⟩))
                  (fun _ => ⟨hBlank, hMark⟩)
                  (pending_cons line
                    (Or.inr ⟨hBlank, Or.inr hMark⟩))

end Fields

----
-- Assignments
----

theorem setRest_eq
    (obj : Map)
    (strBuf : Bytes)
    (names : List Bytes) :
    setRest obj strBuf names = assign obj names [strBuf] := by
  induction names generalizing obj strBuf with
  | nil => rfl
  | cons name names ih =>
      rw [setRest, assign, ih]
      cases names with
      | nil => rfl
      | cons next names => rfl

theorem assign_append
    (obj : Map)
    (names first second : List Bytes)
    (hFits : first.length ≤ names.length) :
    assign obj names (first ++ second) =
      assign (assign obj (names.take first.length) first)
        (names.drop first.length) second := by
  induction first generalizing obj names with
  | nil => rfl
  | cons value first ih =>
      cases names with
      | nil => exact absurd hFits (Nat.not_succ_le_zero _)
      | cons name names =>
          simp only [List.cons_append, assign, List.headD_cons,
            List.tail_cons, List.length_cons,
            List.take_succ_cons, List.drop_succ_cons]
          exact ih _ names (Nat.le_of_succ_le_succ hFits)

theorem fields_none
    (ifs : Bytes)
    (line : List Item) :
    fields ifs 0 line =
      [(line.dropWhile (itemBlank ifs)).map Prod.fst] :=
  rfl

/-
  `read` takes one line from its input, and nothing behind it.
  The names get the fields of the line in order, the last name
  what is left of it, and the names behind the fields an empty
  string; spaces at the end are removed where the separators
  have spaces.
-/
theorem builtinRead_assigns
    (backslash : Bool)
    (ifs : Bytes)
    (names : List Bytes)
    (stream : Bytes)
    (hBytes :
      0xFF ∉ (logicalLine backslash false stream).bytes) :
    builtinRead backslash ifs names stream =
      { REPLY :=
          if names = [] then
            (values ifs 0 (items backslash false stream)).headD []
          else []
        reply :=
          assign (fun _ => none) names
            (values ifs names.length
              (items backslash false stream))
        rest := (logicalLine backslash false stream).rest
        status :=
          if (logicalLine backslash false stream).ended then 0
          else 1 } := by
  rcases @readLoop_eq backslash ifs false
      ⟨1, [], names, fun _ => none⟩ stream hBytes with
    ⟨hState, hRest, hStatus⟩
  have hReached :
      Reached ⟨1, [], names, fun _ => none⟩
        ((items backslash false stream).foldl (readItem ifs)
          ⟨1, [], names, fun _ => none⟩)
        (fields ifs names.length
          (items backslash false stream)) :=
    readsFields (items backslash false stream) _ []
      ⟨rfl, Or.inr ⟨rfl, Or.inl rfl⟩, fun _ _ hMem =>
        absurd hMem List.not_mem_nil⟩
  rw [← hState] at hReached
  unfold builtinRead
  rw [Result.mk.injEq]
  refine ⟨?_, ?_, hRest, ?_⟩
  · by_cases hNames : names = []
    · rw [if_pos hNames, if_pos hNames]
      subst hNames
      have hLast := hReached.strBuf
      rw [List.length_nil, fields_none] at hLast
      rw [values, fields_none, ← Option.some.inj hLast]
      rfl
    · rw [if_neg hNames, if_neg hNames]
  · have hFits :
        (fields ifs names.length
              (items backslash false stream)).dropLast.length ≤
          names.length := by
      rw [List.length_dropLast]
      rcases hReached.fits with hOne | hFew
      · omega
      · exact Nat.le_trans (Nat.sub_le _ 1) hFew
    rw [setRest_eq, hReached.obj, hReached.names, values,
      assign_append _ _ _ _ hFits, List.length_dropLast,
      List.getLastD_eq_getLast?, hReached.strBuf]
    rfl
  · cases hEnded :
        (logicalLine backslash false stream).ended with
    | true =>
        rw [if_neg]
        · rfl
        · intro hEof
          rw [hStatus.1 hEof] at hEnded
          exact nomatch hEnded
    | false =>
        rw [if_pos (hStatus.2 hEnded)]
        rfl

/- `a\` and a newline, `b`, a mark, `c` and a blank, for two
names. -/
theorem builtinRead_two :
    builtinRead true [0x3A, 0x20] [[0x78], [0x79]]
        [0x61, 0x5C, 0x0A, 0x62, 0x3A, 0x63, 0x20, 0x0A, 0x64] =
      { REPLY := []
        reply :=
          assign (fun _ => none) [[0x78], [0x79]]
            (values [0x3A, 0x20] 2
              (items true false
                [0x61, 0x5C, 0x0A, 0x62, 0x3A, 0x63, 0x20, 0x0A,
                  0x64]))
        rest := [0x64]
        status := 0 } :=
  builtinRead_assigns true [0x3A, 0x20] [[0x78], [0x79]]
    [0x61, 0x5C, 0x0A, 0x62, 0x3A, 0x63, 0x20, 0x0A, 0x64]
    (by decide)

/- What would be assigned, if all separators were removed from
the end of what is left. -/
def trimmedValues
    (ifs : Bytes)
    (count : Nat)
    (line : List Item) : List Bytes :=
  (fields ifs count line).dropLast ++
    [((fields ifs count line).getLastD []).rdropWhile
      (matchFieldSep ifs)]

/- `a:b:` for two names, `:` being the separator. -/
theorem mark_left :
    (builtinRead true [0x3A] [[0x78], [0x79]]
        [0x61, 0x3A, 0x62, 0x3A, 0x0A]).reply [0x79] ≠
      assign (fun _ => none) [[0x78], [0x79]]
        (trimmedValues [0x3A] 2
          (items true false [0x61, 0x3A, 0x62, 0x3A, 0x0A]))
        [0x79] := by
  decide

end BuiltinRead

end Ydsh
