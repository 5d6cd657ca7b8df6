import Ydsh.Builtin.ArrayMethods
import Ydsh.Misc.GraphemeClusters
import Ydsh.Object.RegexReplace

/-
  The characters of strings.

  Counting, listing and picking characters are loops of their
  own over the scanner, and the iterator takes the scanner apart
  after every character and puts it together again.

  Main declarations:
    * `string_count`
    * `string_chars`
    * `string_charAt`
    * `stringIter_next`
    * `Agree`
    * `walked_iff`
    * `agree_iff`
-/

----
-- Loops over characters
----

namespace Ydsh

namespace Builtin

open Library
open Library.Utf8
open Grapheme
open GraphemeScanner
open RegexObject (Str Bytes)

/- `while (scanner.next(ret))`, for so many rounds. -/
def countLoop
    (build : Build)
    (ref : Bytes) :
    Nat → Scanner → Result → Nat → Faulting Nat
  | 0, _, _, _ => .timeout
  | bound + 1, scanner, ret, count =>
      (next build ref scanner ret).bind fun returned =>
        if returned.found then
          countLoop build ref bound returned.scanner
            returned.result (count + 1)
        else
          .done count

def string_count
    (build : Build)
    (value : Str)
    (bound : Nat) : Faulting Nat :=
  (countLoop build value.1 bound .start .fresh 0).bind
    fun count =>
      if build.asserts ∧ ¬ count ≤ MAX_SIZE then
        .fault
      else
        .done count

def charsLoop
    (build : Build)
    (ref : Bytes) :
    Nat → Scanner → Result → List Bytes →
      Faulting (List Bytes)
  | 0, _, _, _ => .timeout
  | bound + 1, scanner, ret, value =>
      (next build ref scanner ret).bind fun returned =>
        if returned.found then
          charsLoop build ref bound returned.scanner
            returned.result (value ++ [returned.result.ref])
        else
          .done value

def string_chars
    (build : Build)
    (value : Str)
    (bound : Nat) : Faulting (List Bytes) :=
  charsLoop build value.1 bound .start .fresh []

def positionMessage (count : Nat) (pos : Int64) : String :=
  "character count is " ++ toString count ++
    ", but character position is " ++ toString pos.toInt

def charAtLoop
    (build : Build)
    (ref : Bytes)
    (pos : Int64) :
    Nat → Scanner → Result → Nat →
      Faulting (Except RaisedError Bytes)
  | 0, _, _, _ => .timeout
  | bound + 1, scanner, ret, count =>
      (next build ref scanner ret).bind fun returned =>
        if returned.found then
          if Int.ofNat count = pos.toInt then
            .done (.ok returned.result.ref)
          else
            charAtLoop build ref pos bound returned.scanner
              returned.result (count + 1)
        else
          .done
            (.error
              (raiseOutOfRangeError (positionMessage count pos)))

def string_charAt
    (build : Build)
    (value : Str)
    (pos : Int64)
    (bound : Nat) : Faulting (Except RaisedError Bytes) :=
  charAtLoop build value.1 pos bound .start .fresh 0

----
-- Iterator
----

/- `static_cast<uint32_t>` -/
def propertyNumber : BreakProperty → Nat
  | .SOT => 0
  | .Any => 1
  | .CR => 2
  | .LF => 3
  | .Control => 4
  | .Extend => 5
  | .ZWJ => 6
  | .Regional_Indicator => 7
  | .Prepend => 8
  | .SpacingMark => 9
  | .L => 10
  | .V => 11
  | .T => 12
  | .LV => 13
  | .LVT => 14
  | .Extended_Pictographic => 15
  | .Extended_Pictographic_with_ZWJ => 16

/- A number without a property takes the branches that `Any`
   takes. -/
def propertyOf : Nat → BreakProperty
  | 0 => .SOT
  | 2 => .CR
  | 3 => .LF
  | 4 => .Control
  | 5 => .Extend
  | 6 => .ZWJ
  | 7 => .Regional_Indicator
  | 8 => .Prepend
  | 9 => .SpacingMark
  | 10 => .L
  | 11 => .V
  | 12 => .T
  | 13 => .LV
  | 14 => .LVT
  | 15 => .Extended_Pictographic
  | 16 => .Extended_Pictographic_with_ZWJ
  | _ => .Any

structure NumList where
  first : UInt32
  second : UInt32
  third : UInt32

structure StringIter where
  ref : Bytes
  scanner : NumList

def asGraphemeScanner (values : NumList) : Scanner where
  prevPos := values.first.toNat
  curPos := values.second.toNat
  boundary := propertyOf values.third.toNat

def asDSValue (scanner : Scanner) : NumList where
  first := .ofNat scanner.prevPos
  second := .ofNat scanner.curPos
  third := .ofNat (propertyNumber scanner.boundary)

def string_iter (value : Str) : StringIter where
  ref := value.1
  scanner := asDSValue .start

def stringIter_hasNext (iter : StringIter) : Bool :=
  hasNext iter.ref (asGraphemeScanner iter.scanner)

def stringIter_next
    (build : Build)
    (iter : StringIter) : Faulting (Bytes × StringIter) :=
  (next build iter.ref (asGraphemeScanner iter.scanner)
    .fresh).bind fun returned =>
      if build.asserts ∧ returned.found = false then
        .fault
      else
        .done
          (returned.result.ref,
            { iter with scanner := asDSValue returned.scanner })

/- A loop over an iterator, for so many rounds. -/
def iterate
    (build : Build) :
    Nat → StringIter → List Bytes → Faulting (List Bytes)
  | 0, _, _ => .timeout
  | bound + 1, iter, taken =>
      if stringIter_hasNext iter then
        (stringIter_next build iter).bind fun step =>
          iterate build bound step.2 (taken ++ [step.1])
      else
        .done taken

/- The character at a position of all characters. -/
def charOf
    (parts : List Bytes)
    (pos : Int64) : Except RaisedError Bytes :=
  if 0 ≤ pos.toInt ∧ pos.toInt < parts.length then
    .ok (parts.getD pos.toInt.toNat [])
  else
    .error
      (raiseOutOfRangeError (positionMessage parts.length pos))

/- All methods come to an end and see the same characters. -/
def Agree
    (build : Build)
    (value : Str)
    (parts : List Bytes) : Prop :=
  ∃ enough, ∀ bound, enough ≤ bound →
    string_chars build value bound = .done parts ∧
      string_count build value bound = .done parts.length ∧
      (∀ pos,
        string_charAt build value pos bound =
          .done (charOf parts pos)) ∧
      iterate build bound (string_iter value) [] = .done parts

/- The characters of a string, none of them empty, put together
   are the string. -/
def Walked (build : Build) (value : Str) : Prop :=
  ∃ parts : List Bytes,
    (∀ part ∈ parts, part ≠ []) ∧
      parts.flatten = value.1 ∧ Agree build value parts

----
-- Strings that go through
----

variable {build : Build}
variable {ref : Bytes}

/- The clusters as parts of the string. -/
def slices : Bytes → List (List Piece) → List Bytes
  | _, [] => []
  | bytes, first :: more =>
      bytes.take (width first) ::
        slices (bytes.drop (width first)) more

theorem length_slices
    (bytes : Bytes)
    (left : List (List Piece)) :
    (slices bytes left).length = left.length := by
  induction left generalizing bytes with
  | nil => rfl
  | cons first more ih =>
      exact congrArg (· + 1) (ih _)

theorem slices_flatten
    {bytes : Bytes}
    {left : List (List Piece)}
    (hAligned : width left.flatten = bytes.length) :
    (slices bytes left).flatten = bytes := by
  induction left generalizing bytes with
  | nil =>
      exact (List.length_eq_zero_iff.mp hAligned.symm).symm
  | cons first more ih =>
      rw [List.flatten_cons, width_append] at hAligned
      have hMore :
          (slices (bytes.drop (width first)) more).flatten =
            bytes.drop (width first) := by
        apply ih
        rw [List.length_drop]
        omega
      simp only [slices, List.flatten_cons, hMore,
        List.take_append_drop]

/- A scanner with nothing ahead. -/
theorem next_nil
    {scanner : Scanner}
    (hAhead : Ahead build ref scanner [])
    (hSmooth : Smooth build ref scanner [])
    (old : Result) :
    ∃ returned,
      next build ref scanner old = .done returned ∧
        returned.found = false := by
  rcases next_smooth hAhead hSmooth old with
    ⟨_, returned, hNext, hFound, _⟩ |
      ⟨_, _, _, hLeft, _⟩
  · exact ⟨returned, hNext, hFound⟩
  · cases hLeft

/- A scanner with a cluster ahead. -/
theorem next_cons
    {scanner : Scanner}
    {first : List Piece}
    {more : List (List Piece)}
    (hAhead : Ahead build ref scanner (first :: more))
    (hSmooth : Smooth build ref scanner (first :: more))
    (old : Result) :
    ∃ returned,
      next build ref scanner old = .done returned ∧
        returned.found = true ∧
        returned.result.ref =
          (ref.drop scanner.prevPos).take (width first) ∧
        ref.drop returned.scanner.prevPos =
          (ref.drop scanner.prevPos).drop (width first) ∧
        0 < width first ∧
        Ahead build ref returned.scanner more ∧
        Smooth build ref returned.scanner more := by
  rcases next_smooth hAhead hSmooth old with
    ⟨hLeft, _⟩ | ⟨_, _, returned, hLeft, hNext, hYields, hMore⟩
  · cases hLeft
  · cases hLeft
    refine
      ⟨returned, hNext, hYields.found, hYields.slice, ?_,
        hYields.nonempty, hYields.ahead, hMore⟩
    rw [hYields.prevPos, List.drop_drop]

theorem countLoop_smooth
    {left : List (List Piece)}
    {scanner : Scanner}
    (hAhead : Ahead build ref scanner left)
    (hSmooth : Smooth build ref scanner left)
    {bound : Nat}
    (hBound : left.length < bound)
    (ret : Result)
    (count : Nat) :
    countLoop build ref bound scanner ret count =
      .done (count + left.length) := by
  induction left generalizing scanner bound ret count with
  | nil =>
      rcases next_nil hAhead hSmooth ret with
        ⟨returned, hNext, hFound⟩
      cases bound with
      | zero => exact absurd hBound (Nat.not_lt_zero _)
      | succ bound => simp [countLoop, hNext, hFound]
  | cons first more ih =>
      rcases next_cons hAhead hSmooth ret with
        ⟨returned, hNext, hFound, _, _, _, hMore, hRest⟩
      cases bound with
      | zero => exact absurd hBound (Nat.not_lt_zero _)
      | succ bound =>
          have hLoop :=
            ih hMore hRest
              (Nat.lt_of_succ_lt_succ hBound)
              returned.result (count + 1)
          simp [countLoop, hNext, hFound, hLoop, Nat.add_assoc,
            Nat.add_comm 1]

theorem charsLoop_smooth
    {left : List (List Piece)}
    {scanner : Scanner}
    (hAhead : Ahead build ref scanner left)
    (hSmooth : Smooth build ref scanner left)
    {bound : Nat}
    (hBound : left.length < bound)
    (ret : Result)
    (value : List Bytes) :
    charsLoop build ref bound scanner ret value =
      .done
        (value ++ slices (ref.drop scanner.prevPos) left) := by
  induction left generalizing scanner bound ret value with
  | nil =>
      rcases next_nil hAhead hSmooth ret with
        ⟨returned, hNext, hFound⟩
      cases bound with
      | zero => exact absurd hBound (Nat.not_lt_zero _)
      | succ bound => simp [charsLoop, hNext, hFound, slices]
  | cons first more ih =>
      rcases next_cons hAhead hSmooth ret with
        ⟨returned, hNext, hFound, hPart, hDrop, _, hMore,
          hRest⟩
      cases bound with
      | zero => exact absurd hBound (Nat.not_lt_zero _)
      | succ bound =>
          have hLoop :=
            ih hMore hRest
              (Nat.lt_of_succ_lt_succ hBound)
              returned.result (value ++ [returned.result.ref])
          rw [hDrop, hPart, List.append_assoc] at hLoop
          simp only [charsLoop, hNext, Faulting.bind_done,
            hFound, if_true, hPart]
          exact hLoop

theorem charAtLoop_smooth
    {left : List (List Piece)}
    {scanner : Scanner}
    (hAhead : Ahead build ref scanner left)
    (hSmooth : Smooth build ref scanner left)
    {bound : Nat}
    (hBound : left.length < bound)
    (pos : Int64)
    (ret : Result)
    (before : List Bytes)
    (hBefore :
      ¬ (0 ≤ pos.toInt ∧ pos.toInt < before.length)) :
    charAtLoop build ref pos bound scanner ret before.length =
      .done
        (charOf
          (before ++ slices (ref.drop scanner.prevPos) left)
          pos) := by
  induction left generalizing scanner bound ret before with
  | nil =>
      rcases next_nil hAhead hSmooth ret with
        ⟨returned, hNext, hFound⟩
      cases bound with
      | zero => exact absurd hBound (Nat.not_lt_zero _)
      | succ bound =>
          simp only [charAtLoop, hNext, Faulting.bind_done,
            hFound, Bool.false_eq_true, if_false, slices,
            List.append_nil, charOf]
          rw [if_neg hBefore]
  | cons first more ih =>
      rcases next_cons hAhead hSmooth ret with
        ⟨returned, hNext, hFound, hPart, hDrop, _, hMore,
          hRest⟩
      cases bound with
      | zero => exact absurd hBound (Nat.not_lt_zero _)
      | succ bound =>
          simp only [charAtLoop, hNext, Faulting.bind_done,
            hFound, if_true, slices]
          by_cases hPos : Int.ofNat before.length = pos.toInt
          · rw [if_pos hPos, hPart]
            have hNat : pos.toInt.toNat = before.length := by
              rw [← hPos]
              rfl
            have hIn :
                0 ≤ pos.toInt ∧
                  pos.toInt <
                    (before ++
                      (ref.drop scanner.prevPos).take
                          (width first) ::
                        slices
                          ((ref.drop scanner.prevPos).drop
                            (width first)) more).length := by
              rw [← hPos, List.length_append, List.length_cons]
              constructor
              · exact Int.natCast_nonneg _
              · show
                  (before.length : Int) <
                    ((_ + (_ + 1) : Nat) : Int)
                omega
            unfold charOf
            rw [if_pos hIn, hNat]
            simp [List.getD_eq_getElem?_getD]
          · rw [if_neg hPos]
            have hLoop :=
              ih hMore hRest
                (Nat.lt_of_succ_lt_succ hBound)
                returned.result
                (before ++ [returned.result.ref]) (by
                  rw [List.length_append, List.length_singleton]
                  have : (before.length : Int) ≠ pos.toInt :=
                    hPos
                  omega)
            rw [List.length_append, List.length_singleton,
              hDrop, hPart, List.append_assoc] at hLoop
            exact hLoop

----
-- The scanner taken apart and put together
----

theorem propertyOf_number (property : BreakProperty) :
    propertyOf (UInt32.ofNat (propertyNumber property)).toNat =
      property := by
  cases property <;> rfl

theorem asGraphemeScanner_asDSValue
    {scanner : Scanner}
    (hPrev : scanner.prevPos ≤ MAX_SIZE)
    (hCur : scanner.curPos ≤ MAX_SIZE) :
    asGraphemeScanner (asDSValue scanner) = scanner := by
  rcases scanner with ⟨prevPos, curPos, boundary⟩
  dsimp only at hPrev hCur
  unfold asGraphemeScanner asDSValue
  dsimp only
  rw [propertyOf_number, UInt32.toNat_ofNat_of_lt',
    UInt32.toNat_ofNat_of_lt']
  · exact Nat.lt_of_le_of_lt hCur (by decide)
  · exact Nat.lt_of_le_of_lt hPrev (by decide)

/- The scanner has not gone beyond the end. -/
theorem positions_le
    {scanner : Scanner}
    {left : List (List Piece)}
    (hAhead : Ahead build ref scanner left)
    (hSmooth : Smooth build ref scanner left) :
    scanner.prevPos ≤ scanner.curPos ∧
      scanner.curPos ≤ ref.length := by
  rcases hAhead with ⟨current, rest, hReady, hLeft⟩
  have hAligned := hSmooth.2
  unfold AlignedAt at hAligned
  rw [← hLeft, clusters_flatten, width_append] at hAligned
  have hCur := hReady.cur
  omega

theorem iterate_smooth
    {left : List (List Piece)}
    {scanner : Scanner}
    (hSize : ref.length ≤ MAX_SIZE)
    (hAhead : Ahead build ref scanner left)
    (hSmooth : Smooth build ref scanner left)
    {bound : Nat}
    (hBound : left.length < bound)
    (taken : List Bytes) :
    iterate build bound
        { ref := ref, scanner := asDSValue scanner } taken =
      .done
        (taken ++ slices (ref.drop scanner.prevPos) left) := by
  induction left generalizing scanner bound taken with
  | nil =>
      have hPositions := positions_le hAhead hSmooth
      have hScanner :=
        @asGraphemeScanner_asDSValue scanner
          (by omega) (by omega)
      have hEnd : ¬ scanner.prevPos < ref.length := by
        have hAligned := hSmooth.2
        unfold AlignedAt at hAligned
        rw [List.flatten_nil, width_nil] at hAligned
        omega
      cases bound with
      | zero => exact absurd hBound (Nat.not_lt_zero _)
      | succ bound =>
          simp [iterate, stringIter_hasNext, hasNext, hScanner,
            hEnd, slices]
  | cons first more ih =>
      have hPositions := positions_le hAhead hSmooth
      have hScanner :=
        @asGraphemeScanner_asDSValue scanner
          (by omega) (by omega)
      rcases next_cons hAhead hSmooth Result.fresh with
        ⟨returned, hNext, hFound, hPart, hDrop, hWidth, hMore,
          hRest⟩
      have hInside : scanner.prevPos < ref.length := by
        have hAligned := hSmooth.2
        unfold AlignedAt at hAligned
        rw [List.flatten_cons, width_append] at hAligned
        omega
      cases bound with
      | zero => exact absurd hBound (Nat.not_lt_zero _)
      | succ bound =>
          have hLoop :=
            ih hMore hRest
              (Nat.lt_of_succ_lt_succ hBound)
              (taken ++ [returned.result.ref])
          rw [hDrop, hPart, List.append_assoc] at hLoop
          have hHas :
              stringIter_hasNext
                  { ref := ref
                    scanner := asDSValue scanner } =
                true := by
            simp [stringIter_hasNext, hasNext, hScanner,
              hPositions.1, hInside]
          have hStep :
              stringIter_next build
                  { ref := ref
                    scanner := asDSValue scanner } =
                .done
                  ((ref.drop scanner.prevPos).take
                      (width first),
                    { ref := ref
                      scanner :=
                        asDSValue returned.scanner }) := by
            simp [stringIter_next, hScanner, hNext, hFound,
              hPart]
          simp only [iterate, hHas, if_true, hStep,
            Faulting.bind_done]
          exact hLoop

----
-- Strings that do not go through
----

/- A loop that once was stuck does not end. -/
theorem countLoop_stuck
    {scanner : Scanner}
    (hStuck : Stuck ref scanner)
    (bound : Nat)
    (ret : Result)
    (count : Nat) :
    countLoop build ref bound scanner ret count = .timeout := by
  induction bound generalizing ret count with
  | zero => rfl
  | succ bound ih =>
      rcases @next_stuck build ref scanner hStuck ret with
        ⟨codePoint, hNext⟩
      simp only [countLoop, hNext, Faulting.bind_done, if_true]
      exact ih _ _

theorem countLoop_rough
    {left : List (List Piece)}
    {scanner : Scanner}
    (hAhead : Ahead build ref scanner left)
    (hRough : ¬ Smooth build ref scanner left)
    (bound : Nat)
    (ret : Result)
    (count number : Nat) :
    countLoop build ref bound scanner ret count ≠
      .done number := by
  induction bound generalizing left scanner ret count with
  | zero =>
      intro hDone
      cases hDone
  | succ bound ih =>
      simp only [countLoop]
      rcases next_rough hAhead hRough ret with
        hFault |
          ⟨_, returned, hNext, hFound, _, _, _, hStuck⟩ |
          ⟨_, _, returned, _, hNext, hYields, hMore⟩
      · rw [hFault]
        intro hDone
        cases hDone
      · simp only [hNext, Faulting.bind_done, hFound, if_true]
        rw [countLoop_stuck hStuck]
        intro hDone
        cases hDone
      · simp only [hNext, Faulting.bind_done, hYields.found,
          if_true]
        exact ih hYields.ahead hMore _ _

theorem not_agree
    {value : Str}
    (hRough :
      ¬ Smooth build value.1 .start
          (clustersOf build value.1))
    (parts : List Bytes) :
    ¬ Agree build value parts := by
  rintro ⟨enough, hAgree⟩
  have hCount := (hAgree enough (Nat.le_refl _)).2.1
  unfold string_count at hCount
  cases hLoop :
      countLoop build value.1 enough .start .fresh 0 with
  | done number =>
      exact countLoop_rough ahead_start hRough _ _ _ _ hLoop
  | fault | timeout =>
      rw [hLoop] at hCount
      cases hCount

/- No character is empty. -/
theorem slices_ne_nil
    {left : List (List Piece)}
    {scanner : Scanner}
    (hAhead : Ahead build ref scanner left)
    (hSmooth : Smooth build ref scanner left)
    {part : Bytes}
    (hPart : part ∈ slices (ref.drop scanner.prevPos) left) :
    part ≠ [] := by
  induction left generalizing scanner with
  | nil => cases hPart
  | cons first more ih =>
      rcases next_cons hAhead hSmooth Result.fresh with
        ⟨returned, _, _, _, hDrop, hWidth, hMore, hRest⟩
      simp only [slices, List.mem_cons] at hPart
      rcases hPart with rfl | hPart
      · have hAligned := hSmooth.2
        unfold AlignedAt at hAligned
        rw [List.flatten_cons, width_append] at hAligned
        apply List.ne_nil_of_length_pos
        rw [List.length_take, List.length_drop]
        omega
      · rw [← hDrop] at hPart
        exact ih hMore hRest hPart

theorem length_le_flatten
    {parts : List Bytes}
    (hParts : ∀ part ∈ parts, part ≠ []) :
    parts.length ≤ parts.flatten.length := by
  induction parts with
  | nil => exact Nat.le_refl _
  | cons part parts ih =>
      have hPart :=
        List.length_pos_iff.mpr (hParts part List.mem_cons_self)
      have hRest :=
        ih
          (fun other hMem =>
            hParts other (List.mem_cons_of_mem _ hMem))
      rw [List.flatten_cons, List.length_append,
        List.length_cons]
      omega

/- The characters of a string that goes through. -/
theorem walked_of_smooth
    {value : Str}
    (hSmooth :
      Smooth build value.1 .start
        (clustersOf build value.1)) :
    Walked build value := by
  have hAhead := @ahead_start build value.1
  have hParts :
      ∀ part ∈ slices value.1 (clustersOf build value.1),
        part ≠ [] :=
    fun _ hMem => slices_ne_nil hAhead hSmooth hMem
  have hFlatten :
      (slices value.1 (clustersOf build value.1)).flatten =
        value.1 := by
    have hAligned := hSmooth.2
    unfold AlignedAt at hAligned
    exact slices_flatten ((Nat.zero_add _).symm.trans hAligned)
  have hCount :
      (clustersOf build value.1).length ≤ MAX_SIZE := by
    have hLength := length_le_flatten hParts
    rw [hFlatten, length_slices] at hLength
    exact Nat.le_trans hLength value.2
  refine
    ⟨slices value.1 (clustersOf build value.1), hParts,
      hFlatten, (clustersOf build value.1).length + 1, ?_⟩
  intro bound hBound
  have hLess : (clustersOf build value.1).length < bound :=
    hBound
  refine ⟨?_, ?_, ?_, ?_⟩
  · exact charsLoop_smooth hAhead hSmooth hLess _ _
  · unfold string_count
    rw [countLoop_smooth hAhead hSmooth hLess _ 0, Nat.zero_add,
      Faulting.bind_done, if_neg (fun h => h.2 hCount),
      length_slices]
  · intro pos
    exact
      charAtLoop_smooth hAhead hSmooth hLess pos _ []
        (by simp)
  · exact iterate_smooth value.2 hAhead hSmooth hLess []

/- All methods come to an end and see the same characters,
which are the string, exactly when the clusters fit into the
buffer and no code point is cut off. -/
theorem walked_iff (build : Build) (value : Str) :
    Walked build value ↔
      Fits build.asserts (clustersOf build value.1) ∧
        Aligned build value.1 := by
  rw [← smooth_start]
  constructor
  · rintro ⟨parts, _, _, hAgree⟩
    by_contra hRough
    exact not_agree hRough parts hAgree
  · exact walked_of_smooth

/- A lead byte without what it announces. -/
def cutOff : Str :=
  ⟨[0xE3], by decide⟩

theorem not_walked_cutOff : ¬ Walked release cutOff := by
  rintro ⟨parts, _, _, hAgree⟩
  apply not_agree _ parts hAgree
  intro hSmooth
  exact absurd (alignedAt_start.mp hSmooth.2) (by decide)

/- Of a valid string only a cluster can be too large. -/
theorem agree_iff
    (build : Build)
    (value : Str)
    (hValid : Valid value.1) :
    (∃ parts, Agree build value parts) ↔
      Fits build.asserts (clustersOf build value.1) := by
  have hAligned : Aligned build value.1 :=
    aligned_of_valid build hValid
  constructor
  · rintro ⟨parts, hAgree⟩
    by_contra hFits
    refine not_agree ?_ parts hAgree
    intro hSmooth
    exact hFits hSmooth.1
  · intro hFits
    rcases
      walked_of_smooth
        (smooth_start.mpr ⟨hFits, hAligned⟩) with
      ⟨parts, _, _, hAgree⟩
    exact ⟨parts, hAgree⟩

/- A letter with thirty-two marks. -/
def marked : Str :=
  ⟨marks 32, by decide⟩

theorem valid_marks (count : Nat) : Valid (marks count) := by
  refine
    ⟨[0x61] :: List.replicate count [0xCC, 0x80], ?_, rfl⟩
  intro seq hMem
  rcases List.mem_cons.mp hMem with rfl | hMem
  · decide
  · rw [List.eq_of_mem_replicate hMem]
    decide

theorem not_agree_marked :
    Valid marked.1 ∧
      ¬ ∃ parts, Agree release marked parts := by
  refine ⟨valid_marks 32, ?_⟩
  rintro ⟨parts, enough, hAgree⟩
  have hChars := (hAgree (enough + 1) (Nat.le_succ _)).1
  unfold string_chars charsLoop at hChars
  rw [show marked.1 = marks 32 from rfl, next_marks] at hChars
  cases hChars

/- A letter with a single mark is one character. -/
theorem agree_single :
    ∃ parts, Agree release ⟨marks 1, by decide⟩ parts :=
  (agree_iff release ⟨marks 1, by decide⟩
    (valid_marks 1)).mpr (by decide +kernel)

end Builtin

end Ydsh
