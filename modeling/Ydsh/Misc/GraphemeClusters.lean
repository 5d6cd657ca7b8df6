import Ydsh.Misc.GraphemeScanner

/-
  What the calls of the grapheme scanner return.

  A scanner stands at a cluster of which it has read no code
  point or one.  A call returns the cluster that is next, unless
  the buffer is too small for it or its last code point is cut
  off; from there on nothing moves any more.

  Main declarations:
    * `clusters`
    * `Fits`
    * `next_outcome`
    * `recorded_iff`
    * `aligned_of_valid`
-/

----
-- Clusters
----

namespace Ydsh

namespace GraphemeScanner

open Library
open Library.Utf8
open Unicode
open Grapheme

/- The clusters of a list of code points, of which the first
   is already begun. -/
def clusters (table : BreakTable) :
    BreakProperty → List Piece → List Piece → List (List Piece)
  | _, current, [] => if current = [] then [] else [current]
  | state, current, piece :: rest =>
      let found := scanBoundary table state piece.codePoint
      if found.1 then
        current :: clusters table found.2 [piece] rest
      else
        clusters table found.2 (current ++ [piece]) rest

def clustersOf
    (build : Build)
    (ref : List UInt8) : List (List Piece) :=
  clusters build.table .SOT [] (pieces build ref)

/- The clusters fit into the buffer.  Where another cluster
   follows, `assert` asks for room that is not needed. -/
def Fits (asserts : Bool) : List (List Piece) → Prop
  | [] => True
  | [last] => last.length ≤ MAX_GRAPHEME_CODE_POINTS
  | first :: more =>
      first.length + (if asserts then 1 else 0) ≤
          MAX_GRAPHEME_CODE_POINTS ∧
        Fits asserts more

instance (asserts : Bool) :
    ∀ found : List (List Piece), Decidable (Fits asserts found)
  | [] => .isTrue trivial
  | [_] => inferInstanceAs (Decidable (_ ≤ _))
  | _ :: second :: more =>
      have := instDecidableFits asserts (second :: more)
      inferInstanceAs (Decidable (_ ∧ _))

variable {build : Build}
variable {ref : List UInt8}

----
-- Clusters of pieces
----

/- A cluster that is begun only grows. -/
theorem clusters_cons
    (table : BreakTable)
    (state : BreakProperty)
    {current : List Piece}
    (rest : List Piece)
    (hCurrent : current ≠ []) :
    ∃ first more,
      clusters table state current rest = first :: more ∧
        current.length ≤ first.length := by
  induction rest generalizing state current with
  | nil =>
      simp only [clusters]
      rw [if_neg hCurrent]
      exact ⟨current, [], rfl, Nat.le_refl _⟩
  | cons piece rest ih =>
      simp only [clusters]
      split_ifs
      · exact ⟨current, _, rfl, Nat.le_refl _⟩
      · rcases
          ih
            (scanBoundary table state piece.codePoint).2
            (show current ++ [piece] ≠ [] by simp) with
          ⟨first, more, hClusters, hLength⟩
        refine ⟨first, more, hClusters, ?_⟩
        rw [List.length_append] at hLength
        omega

theorem not_fits
    {asserts : Bool}
    {first : List Piece}
    {more : List (List Piece)}
    (hLong : MAX_GRAPHEME_CODE_POINTS < first.length) :
    ¬ Fits asserts (first :: more) := by
  intro hFits
  cases more with
  | nil => exact absurd hFits (Nat.not_le.mpr hLong)
  | cons second more =>
      exact
        absurd (Nat.le_trans (Nat.le_add_right _ _) hFits.1)
          (Nat.not_le.mpr hLong)

/- The buffer is full and another code point joins. -/
theorem not_fits_joined
    {asserts : Bool}
    (table : BreakTable)
    (state : BreakProperty)
    {current : List Piece}
    (piece : Piece)
    (rest : List Piece)
    (hFull : ¬ current.length < MAX_GRAPHEME_CODE_POINTS) :
    ¬ Fits asserts
        (clusters table state (current ++ [piece]) rest) := by
  rcases
    clusters_cons table state rest
      (show current ++ [piece] ≠ [] by simp) with
    ⟨first, more, hClusters, hLength⟩
  rw [List.length_append, List.length_singleton] at hLength
  rw [hClusters]
  exact not_fits (by omega)

/- The loop stops at the end, after the first cluster, or where
   the buffer is full. -/
theorem scanPieces_cases
    (state : BreakProperty)
    {current : List Piece}
    (rest : List Piece)
    (hCurrent : current ≠ [])
    (hRoom : current.length ≤ MAX_GRAPHEME_CODE_POINTS) :
    (∃ after,
        scanPieces build state current rest =
            .done (current ++ rest, after, []) ∧
          clusters build.table state current rest =
            [current ++ rest] ∧
          (current ++ rest).length ≤
            MAX_GRAPHEME_CODE_POINTS) ∨
      (∃ first after piece more,
        scanPieces build state current rest =
            .done (first, after, piece :: more) ∧
          current ++ rest = first ++ piece :: more ∧
          first ≠ [] ∧
          clusters build.table state current rest =
            first ::
              clusters build.table after [piece] more ∧
          first.length + (if build.asserts then 1 else 0) ≤
            MAX_GRAPHEME_CODE_POINTS) ∨
      (scanPieces build state current rest = .fault ∧
        ¬ Fits build.asserts
            (clusters build.table state current rest)) := by
  induction rest generalizing state current with
  | nil =>
      left
      refine ⟨state, ?_, ?_, ?_⟩
      · simp only [scanPieces, List.append_nil]
      · simp only [clusters, List.append_nil]
        rw [if_neg hCurrent]
      · rw [List.append_nil]
        exact hRoom
  | cons piece rest ih =>
      simp only [scanPieces, clusters]
      cases hFound :
          (scanBoundary build.table state
            piece.codePoint).1 with
      | true =>
          simp only [if_true]
          by_cases hFull :
              build.asserts = true ∧
                ¬ current.length < MAX_GRAPHEME_CODE_POINTS
          · right; right
            rw [if_pos hFull]
            refine ⟨rfl, ?_⟩
            rcases
              clusters_cons build.table
                (scanBoundary build.table state
                  piece.codePoint).2
                rest (show [piece] ≠ [] by simp) with
              ⟨second, more, hClusters, _⟩
            rw [hClusters]
            intro hFits
            have hFirst := hFits.1
            rw [if_pos hFull.1] at hFirst
            omega
          · right; left
            rw [if_neg hFull]
            refine
              ⟨current, _, piece, rest, rfl, rfl, hCurrent,
                rfl, ?_⟩
            by_cases hAsserts : build.asserts = true
            · have hLess := Decidable.not_not.mp
                (fun h => hFull ⟨hAsserts, h⟩)
              rw [if_pos hAsserts]
              exact hLess
            · rw [if_neg hAsserts]
              exact hRoom
      | false =>
          simp only [Bool.false_eq_true, if_false]
          by_cases hSpace :
              current.length < MAX_GRAPHEME_CODE_POINTS
          · have hNext :=
              ih
                (scanBoundary build.table state
                  piece.codePoint).2
                (show current ++ [piece] ≠ [] by simp)
                (by
                  rw [List.length_append,
                    List.length_singleton]
                  exact hSpace)
            rw [if_neg (fun hFull => hFull.2 hSpace),
              if_pos hSpace]
            rw [List.append_assoc] at hNext
            exact hNext
          · right; right
            refine ⟨?_, not_fits_joined _ _ _ _ hSpace⟩
            rw [if_neg hSpace, ite_self]

----
-- The states of the scanner
----

/- The scanner stands at a cluster, of which it has read no
   code point or one. -/
structure Ready
    (build : Build)
    (ref : List UInt8)
    (scanner : Scanner)
    (current rest : List Piece) : Prop where
  pieces :
    pieces build (ref.drop scanner.prevPos) = current ++ rest
  cur : scanner.curPos = scanner.prevPos + width current
  inside : scanner.prevPos ≤ ref.length
  one : current.length ≤ 1
  begins : current = [] → scanner.boundary = .SOT ∨ rest = []

theorem ready_start :
    Ready build ref Scanner.start [] (pieces build ref) where
  pieces := rfl
  cur := rfl
  inside := Nat.zero_le _
  one := Nat.zero_le _
  begins _ := .inl rfl

theorem next_eq
    {scanner : Scanner}
    {current rest : List Piece}
    (hReady : Ready build ref scanner current rest)
    (old : Result) :
    next build ref scanner old =
      (scanPieces build scanner.boundary current rest).map
        (returned ref scanner.prevPos old.ref) := by
  rcases scanner with ⟨prevPos, curPos, boundary⟩
  have hPieces := hReady.pieces
  have hCur := hReady.cur
  dsimp only at hPieces hCur
  subst hCur
  have hRest :
      pieces build (ref.drop (prevPos + width current)) =
        rest := by
    rw [← List.drop_drop]
    exact pieces_drop hPieces
  have hRounds : rest.length < ref.length + 1 := by
    have hLength :=
      @length_pieces_le build
        (ref.drop (prevPos + width current))
    rw [hRest, List.length_drop] at hLength
    omega
  have hLoop :=
    @nextLoop_eq build ref rest current prevPos boundary old.ref
      (ref.length + 1) hRest hRounds
  unfold next
  dsimp only
  match current, hReady.one with
  | [], _ =>
      rw [if_neg (fun hNe => hNe (Nat.add_zero prevPos).symm)]
      exact hLoop
  | [piece], _ =>
      have hSize : 0 < piece.size :=
        @size_pos_of_mem build (ref.drop prevPos) piece
          (hPieces ▸ List.mem_cons_self)
      rcases read_piece hPieces with ⟨_, _, _, hCodePoint, _⟩
      rw [if_pos (by simp; omega), hCodePoint,
        Faulting.bind_done]
      exact hLoop

----
-- One call
----

/- The clusters that were not returned yet. -/
def Ahead
    (build : Build)
    (ref : List UInt8)
    (scanner : Scanner)
    (left : List (List Piece)) : Prop :=
  ∃ current rest,
    Ready build ref scanner current rest ∧
      clusters build.table scanner.boundary current rest = left

theorem ahead_start :
    Ahead build ref Scanner.start (clustersOf build ref) :=
  ⟨[], pieces build ref, ready_start, rfl⟩

/- The last code point was read, and its size led beyond the
   end. -/
def Stuck
    (ref : List UInt8)
    (scanner : Scanner) : Prop :=
  scanner.prevPos < ref.length ∧ ref.length < scanner.curPos

/- A cluster is returned. -/
structure Yields
    (build : Build)
    (ref : List UInt8)
    (scanner : Scanner)
    (first : List Piece)
    (more : List (List Piece))
    (returned : Returned) : Prop where
  found : returned.found = true
  slice :
    returned.result.ref =
      substr ref scanner.prevPos (width first)
  codePoints :
    returned.result.codePoints = first.map Piece.codePoint
  prevPos :
    returned.scanner.prevPos = scanner.prevPos + width first
  inside : scanner.prevPos + width first ≤ ref.length
  nonempty : 0 < width first
  count :
    (pieces build returned.result.ref).length = first.length
  room : first.length ≤ MAX_GRAPHEME_CODE_POINTS
  ahead : Ahead build ref returned.scanner more

/- What a call can do, where so many clusters are left. -/
inductive Outcome
    (build : Build)
    (ref : List UInt8)
    (scanner : Scanner)
    (old : Result) :
    List (List Piece) → Faulting Returned → Prop where
  | ended {returned : Returned}
      (hEnd : scanner.prevPos = ref.length)
      (hFound : returned.found = false)
      (hScanner : returned.scanner = scanner) :
      Outcome build ref scanner old [] (.done returned)
  | yielded {first : List Piece} {more : List (List Piece)}
      {returned : Returned}
      (hYields : Yields build ref scanner first more returned)
      (hFits :
        Fits build.asserts (first :: more) ↔
          Fits build.asserts more) :
      Outcome build ref scanner old (first :: more)
        (.done returned)
  | cutOff {last : List Piece} {returned : Returned}
      (hBeyond : ref.length < scanner.prevPos + width last)
      (hFound : returned.found = true)
      (hRef : returned.result.ref = old.ref)
      (hCodePoints :
        returned.result.codePoints = last.map Piece.codePoint)
      (hNonempty : last ≠ [])
      (hStuck : Stuck ref returned.scanner) :
      Outcome build ref scanner old [last] (.done returned)
  | overflow {left : List (List Piece)}
      (hFits : ¬ Fits build.asserts left) :
      Outcome build ref scanner old left .fault

/- The first code point never ends a cluster. -/
theorem Ready.begun
    {scanner : Scanner}
    {current rest : List Piece}
    (hReady : Ready build ref scanner current rest) :
    (current = [] ∧ rest = []) ∨
      ∃ state begun after,
        begun ≠ [] ∧
          begun.length ≤ MAX_GRAPHEME_CODE_POINTS ∧
          current ++ rest = begun ++ after ∧
          scanPieces build scanner.boundary current rest =
            scanPieces build state begun after ∧
          clusters build.table scanner.boundary current rest =
            clusters build.table state begun after := by
  by_cases hCurrent : current = []
  · subst hCurrent
    rcases hReady.begins rfl with hStart | hRest
    · cases rest with
      | nil => exact .inl ⟨rfl, rfl⟩
      | cons piece rest =>
          right
          refine
            ⟨getBreakProperty build.table piece.codePoint,
              [piece], rest, by simp, ?_, rfl, ?_, ?_⟩
          · exact Nat.succ_le_succ (Nat.zero_le _)
          · simp [scanPieces, hStart, scanBoundary, scan]
          · simp [clusters, hStart, scanBoundary, scan]
    · exact .inl ⟨rfl, hRest⟩
  · right
    exact
      ⟨scanner.boundary, current, rest, hCurrent,
        Nat.le_trans hReady.one
          (Nat.succ_le_succ (Nat.zero_le _)),
        rfl, rfl, rfl⟩

theorem width_pos
    {first back : List Piece}
    (hPieces : pieces build ref = first ++ back)
    (hFirst : first ≠ []) :
    0 < width first := by
  cases first with
  | nil => exact absurd rfl hFirst
  | cons piece first =>
      have hSize : 0 < piece.size :=
        @size_pos_of_mem build ref piece
          (hPieces ▸ List.mem_cons_self)
      rw [width_cons]
      omega

/- The last cluster, up to the end. -/
theorem yields_last
    {scanner : Scanner}
    {last : List Piece}
    (state : BreakProperty)
    (old : List UInt8)
    (hPieces :
      pieces build (ref.drop scanner.prevPos) = last)
    (hInside : scanner.prevPos ≤ ref.length)
    (hLast : last ≠ [])
    (hRoom : last.length ≤ MAX_GRAPHEME_CODE_POINTS)
    (hAligned : scanner.prevPos + width last = ref.length) :
    Yields build ref scanner last []
      (returned ref scanner.prevPos old (last, state, [])) := by
  have hSplit :
      pieces build (ref.drop scanner.prevPos) = last ++ [] := by
    rw [hPieces, List.append_nil]
  have hReturned :
      returned ref scanner.prevPos old (last, state, []) =
        { found := last.length > 0
          scanner :=
            { prevPos := ref.length
              curPos := ref.length
              boundary := state }
          result :=
            { ref := substr ref scanner.prevPos (width last)
              codePoints := last.map Piece.codePoint } } := by
    simp [returned, atEnd, Result.codePointCount, ← hAligned]
  rw [hReturned]
  exact
    { found :=
        decide_eq_true (List.length_pos_iff.mpr hLast)
      slice := rfl
      codePoints := rfl
      prevPos := hAligned.symm
      inside := Nat.le_of_eq hAligned
      nonempty := width_pos hSplit hLast
      count :=
        length_pieces_take hSplit (by
          rw [List.length_drop]
          omega)
      room := hRoom
      ahead :=
        ⟨[], [],
          { pieces := by
              rw [List.drop_length]
              rfl
            cur := rfl
            inside := Nat.le_refl _
            one := Nat.zero_le _
            begins := fun _ => .inr rfl }, rfl⟩ }

/- A cluster with another one behind it. -/
theorem yields_first
    {scanner : Scanner}
    {first more : List Piece}
    {piece : Piece}
    (state : BreakProperty)
    (old : List UInt8)
    (hPieces :
      pieces build (ref.drop scanner.prevPos) =
        first ++ piece :: more)
    (hFirst : first ≠ [])
    (hRoom : first.length ≤ MAX_GRAPHEME_CODE_POINTS) :
    Yields build ref scanner first
      (clusters build.table state [piece] more)
      (returned ref scanner.prevPos old
        (first, state, piece :: more)) := by
  have hWidth := width_lt hPieces
  have hInside := Nat.le_of_lt hWidth
  rw [List.length_drop] at hWidth
  exact
    { found := rfl
      slice := rfl
      codePoints := rfl
      prevPos := rfl
      inside := by omega
      nonempty := width_pos hPieces hFirst
      count := length_pieces_take hPieces hInside
      room := hRoom
      ahead :=
        ⟨[piece], more,
          { pieces := by
              show
                pieces build
                    (ref.drop (scanner.prevPos + width first)) =
                  _
              rw [← List.drop_drop]
              exact pieces_drop hPieces
            cur := rfl
            inside := by
              show scanner.prevPos + width first ≤ ref.length
              omega
            one := Nat.le_refl _
            begins := fun hNil => by cases hNil }, rfl⟩ }

theorem next_outcome
    {scanner : Scanner}
    {left : List (List Piece)}
    (hAhead : Ahead build ref scanner left)
    (old : Result) :
    Outcome build ref scanner old left
      (next build ref scanner old) := by
  rcases hAhead with ⟨current, rest, hReady, hLeft⟩
  have hPieces := hReady.pieces
  have hInside := hReady.inside
  rw [next_eq hReady old]
  rcases hReady.begun with
    ⟨hCurrent, hRest⟩ |
      ⟨state, begun, after, hBegun, hRoom, hSame, hScan, hCut⟩
  · subst hCurrent hRest
    have hEnd : scanner.prevPos = ref.length :=
      Nat.le_antisymm hInside
        (List.drop_eq_nil_iff.mp (pieces_eq_nil hPieces))
    have hCur : scanner.curPos = ref.length :=
      hReady.cur.trans hEnd
    have hNil : left = [] := hLeft.symm
    subst hNil
    refine .ended hEnd ?_ ?_
    · simp [returned, atEnd, Result.codePointCount, hEnd]
    · rcases scanner with ⟨prevPos, curPos, boundary⟩
      simp_all [returned, atEnd]
  rw [hScan]
  rw [hCut] at hLeft
  rw [hSame] at hPieces
  rcases @scanPieces_cases build state begun after
      hBegun hRoom with
    ⟨last, hScanned, hClusters, hLength⟩ |
      ⟨first, last, piece, more, hScanned, hSplit, hFirst,
        hClusters, hLength⟩ |
        ⟨hScanned, hFits⟩
  · rw [hScanned, Faulting.map_done]
    rw [hClusters] at hLeft
    subst hLeft
    have hNonempty : begun ++ after ≠ [] := by
      simp [hBegun]
    by_cases hAligned :
        scanner.prevPos + width (begun ++ after) = ref.length
    · exact
        .yielded
          (yields_last last old.ref hPieces hInside hNonempty
            hLength hAligned)
          (iff_of_true hLength trivial)
    · have hWidth :=
        @length_le_width build (ref.drop scanner.prevPos)
      rw [hPieces, List.length_drop] at hWidth
      have hBeyond :
          ref.length < scanner.prevPos + width (begun ++ after) :=
        by omega
      have hLt : scanner.prevPos < ref.length := by
        by_contra hLe
        rw [List.drop_of_length_le (Nat.le_of_not_lt hLe)]
          at hPieces
        exact hNonempty hPieces.symm
      simp only [returned, atEnd]
      rw [if_neg hAligned]
      exact
        .cutOff hBeyond
          (decide_eq_true (by
            show 0 < (List.map _ _).length
            rw [List.length_map]
            exact List.length_pos_iff.mpr hNonempty))
          rfl rfl hNonempty ⟨hLt, hBeyond⟩
  · rw [hScanned, Faulting.map_done]
    rw [hClusters] at hLeft
    rw [hSplit] at hPieces
    subst hLeft
    refine
      .yielded
        (yields_first last old.ref hPieces hFirst
          (Nat.le_trans (Nat.le_add_right _ _) hLength)) ?_
    rcases
      clusters_cons build.table last more
        (show [piece] ≠ [] by simp) with
      ⟨second, further, hNext, _⟩
    rw [hNext]
    exact and_iff_right hLength
  · rw [hScanned]
    rw [← hLeft]
    exact .overflow hFits

/- Beyond the end nothing moves any more. -/
theorem next_stuck
    {scanner : Scanner}
    (hStuck : Stuck ref scanner)
    (old : Result) :
    ∃ codePoint,
      next build ref scanner old =
        .done
          { found := true
            scanner := scanner
            result :=
              { ref := old.ref
                codePoints := [codePoint] } } := by
  rcases hStuck with ⟨hPrev, hCur⟩
  cases hDrop : ref.drop scanner.prevPos with
  | nil =>
      exact
        absurd (List.drop_eq_nil_iff.mp hDrop)
          (Nat.not_le.mpr hPrev)
  | cons b rest =>
      refine ⟨codePointOf build b rest, ?_⟩
      unfold next
      dsimp only
      rw [if_pos (by omega), toCodePoint_eq hDrop,
        Faulting.bind_done]
      simp only [nextLoop]
      rw [if_neg (by omega)]
      simp only [atEnd]
      rw [if_neg (by omega)]
      rfl

----
-- All calls
----

/- The clusters that are left end where the string ends. -/
def AlignedAt
    (ref : List UInt8)
    (scanner : Scanner)
    (left : List (List Piece)) : Prop :=
  scanner.prevPos + width left.flatten = ref.length

theorem clusters_flatten
    (table : BreakTable)
    (state : BreakProperty)
    (current rest : List Piece) :
    (clusters table state current rest).flatten =
      current ++ rest := by
  induction rest generalizing state current with
  | nil =>
      simp only [clusters]
      split_ifs with hCurrent
      · rw [hCurrent]
        rfl
      · simp
  | cons piece rest ih =>
      simp only [clusters]
      split_ifs
      · rw [List.flatten_cons, ih]
        rfl
      · rw [ih, List.append_assoc]
        rfl

theorem alignedAt_start :
    AlignedAt ref Scanner.start (clustersOf build ref) ↔
      Aligned build ref := by
  unfold AlignedAt Aligned clustersOf
  rw [clusters_flatten]
  exact iff_of_eq (congrArg (· = _) (Nat.zero_add _))

theorem Yields.alignedAt
    {scanner : Scanner}
    {first : List Piece}
    {more : List (List Piece)}
    {returned : Returned}
    (hYields : Yields build ref scanner first more returned) :
    AlignedAt ref returned.scanner more ↔
      AlignedAt ref scanner (first :: more) := by
  unfold AlignedAt
  rw [hYields.prevPos, List.flatten_cons, width_append,
    Nat.add_assoc]

/- What `next` is to go through without a fault. -/
def Smooth
    (build : Build)
    (ref : List UInt8)
    (scanner : Scanner)
    (left : List (List Piece)) : Prop :=
  Fits build.asserts left ∧ AlignedAt ref scanner left

theorem smooth_start :
    Smooth build ref Scanner.start (clustersOf build ref) ↔
      Fits build.asserts (clustersOf build ref) ∧
        Aligned build ref :=
  and_congr_right (fun _ => alignedAt_start)

/- The states that calls of `next` lead to, whatever results
   they are given. -/
inductive Reached
    (build : Build)
    (ref : List UInt8) : Scanner → Prop where
  | start : Reached build ref Scanner.start
  | next {scanner : Scanner} {old : Result}
      {returned : Returned}
      (hReached : Reached build ref scanner)
      (hNext :
        next build ref scanner old = .done returned) :
      Reached build ref returned.scanner

/- No call writes outside of the buffer, and the count is that
   of the cluster it returns or the size of the buffer. -/
def Recorded (build : Build) (ref : List UInt8) : Prop :=
  ∀ (scanner : Scanner) (old : Result),
    Reached build ref scanner →
      ∃ returned,
        next build ref scanner old = .done returned ∧
          (returned.found = true →
            returned.result.codePointCount =
              min (pieces build returned.result.ref).length
                MAX_GRAPHEME_CODE_POINTS)

/- One call of a scanner that has a smooth way ahead. -/
theorem next_smooth
    {scanner : Scanner}
    {left : List (List Piece)}
    (hAhead : Ahead build ref scanner left)
    (hSmooth : Smooth build ref scanner left)
    (old : Result) :
    (left = [] ∧
        ∃ returned,
          next build ref scanner old = .done returned ∧
            returned.found = false ∧
            returned.scanner = scanner) ∨
      ∃ first more returned,
        left = first :: more ∧
          next build ref scanner old = .done returned ∧
          Yields build ref scanner first more returned ∧
          Smooth build ref returned.scanner more := by
  have hOutcome := next_outcome hAhead old
  generalize next build ref scanner old = outcome at hOutcome ⊢
  cases hOutcome with
  | ended _ hFound hScanner =>
      exact .inl ⟨rfl, _, rfl, hFound, hScanner⟩
  | yielded hYields hFits =>
      right
      exact
        ⟨_, _, _, rfl, rfl, hYields, hFits.mp hSmooth.1,
          hYields.alignedAt.mpr hSmooth.2⟩
  | cutOff hBeyond =>
      have hAligned := hSmooth.2
      unfold AlignedAt at hAligned
      rw [List.flatten_cons, List.flatten_nil,
        List.append_nil] at hAligned
      omega
  | overflow hFits => exact absurd hSmooth.1 hFits

/- One call of a scanner that has none. -/
theorem next_rough
    {scanner : Scanner}
    {left : List (List Piece)}
    (hAhead : Ahead build ref scanner left)
    (hRough : ¬ Smooth build ref scanner left)
    (old : Result) :
    next build ref scanner old = .fault ∨
      (∃ last returned,
        next build ref scanner old = .done returned ∧
          returned.found = true ∧
          returned.result.ref = old.ref ∧
          returned.result.codePoints =
            List.map Piece.codePoint last ∧
          last ≠ [] ∧ Stuck ref returned.scanner) ∨
      ∃ first more returned,
        left = first :: more ∧
          next build ref scanner old = .done returned ∧
          Yields build ref scanner first more returned ∧
          ¬ Smooth build ref returned.scanner more := by
  have hOutcome := next_outcome hAhead old
  generalize next build ref scanner old = outcome at hOutcome ⊢
  cases hOutcome with
  | ended hEnd _ _ =>
      refine absurd ⟨trivial, ?_⟩ hRough
      exact hEnd
  | yielded hYields hFits =>
      right; right
      refine ⟨_, _, _, rfl, rfl, hYields, ?_⟩
      intro hSmooth
      exact
        hRough
          ⟨hFits.mpr hSmooth.1,
            hYields.alignedAt.mp hSmooth.2⟩
  | cutOff hBeyond hFound hRef hCodePoints hNonempty hStuck =>
      right; left
      exact
        ⟨_, _, rfl, hFound, hRef, hCodePoints, hNonempty,
          hStuck⟩
  | overflow hFits => exact .inl rfl

theorem reached_smooth
    (hSmooth :
      Smooth build ref Scanner.start (clustersOf build ref))
    {scanner : Scanner}
    (hReached : Reached build ref scanner) :
    ∃ left,
      Ahead build ref scanner left ∧
        Smooth build ref scanner left := by
  induction hReached with
  | start => exact ⟨_, ahead_start, hSmooth⟩
  | @next _ old _ _ hNext ih =>
      rcases ih with ⟨left, hAhead, hLeft⟩
      rcases next_smooth hAhead hLeft old with
        ⟨hNil, returned, hEnd, hFound, hScanner⟩ |
          ⟨first, more, returned, _, hYield, hYields, hMore⟩
      · cases Faulting.done.inj (hNext.symm.trans hEnd)
        rw [hScanner]
        exact ⟨left, hAhead, hLeft⟩
      · cases Faulting.done.inj (hNext.symm.trans hYield)
        exact ⟨more, hYields.ahead, hMore⟩

theorem not_recorded
    {scanner : Scanner}
    {left : List (List Piece)}
    (hAhead : Ahead build ref scanner left)
    (hRough : ¬ Smooth build ref scanner left)
    (hReached : Reached build ref scanner) :
    ¬ Recorded build ref := by
  intro hRecorded
  induction left generalizing scanner with
  | nil =>
      have hOutcome := next_outcome hAhead Result.fresh
      generalize hNext :
        next build ref scanner Result.fresh = outcome at hOutcome
      cases hOutcome with
      | ended hEnd _ _ => exact hRough ⟨trivial, hEnd⟩
      | overflow hFits => exact hFits trivial
  | cons _ left ih =>
      rcases hRecorded scanner Result.fresh hReached with
        ⟨returned, hNext, hCount⟩
      rcases next_rough hAhead hRough Result.fresh with
        hFault |
          ⟨last, found, hCut, hFound, hRef, hCodePoints,
            hNonempty, _⟩ |
          ⟨first, more, found, hLeft, hYield, hYields, hMore⟩
      · rw [hFault] at hNext
        cases hNext
      · cases Faulting.done.inj (hNext.symm.trans hCut)
        have hZero := hCount hFound
        rw [hRef] at hZero
        unfold Result.codePointCount at hZero
        rw [hCodePoints, List.length_map] at hZero
        exact
          hNonempty
            (List.length_eq_zero_iff.mp
              (hZero.trans (Nat.zero_min _)))
      · cases List.cons.inj hLeft with
        | intro _ hMoreEq =>
            subst hMoreEq
            exact
              ih hYields.ahead hMore
                (hReached.next hYield)

theorem recorded_of_smooth
    (hSmooth :
      Smooth build ref Scanner.start (clustersOf build ref)) :
    Recorded build ref := by
  intro scanner old hReached
  rcases reached_smooth hSmooth hReached with
    ⟨left, hAhead, hLeft⟩
  rcases next_smooth hAhead hLeft old with
    ⟨_, returned, hEnd, hFound, _⟩ |
      ⟨first, more, returned, _, hYield, hYields, _⟩
  · refine ⟨returned, hEnd, ?_⟩
    intro hTrue
    rw [hFound] at hTrue
    cases hTrue
  · refine ⟨returned, hYield, ?_⟩
    intro _
    unfold Result.codePointCount
    rw [hYields.codePoints, List.length_map, hYields.count,
      Nat.min_eq_left hYields.room]

/- Every call stays within the buffer and counts the cluster
   it returns exactly when the clusters fit into the buffer and
   no code point is cut off. -/
theorem recorded_iff (build : Build) (ref : List UInt8) :
    Recorded build ref ↔
      Fits build.asserts (clustersOf build ref) ∧
        Aligned build ref := by
  rw [← smooth_start]
  constructor
  · intro hRecorded
    by_contra hRough
    exact not_recorded ahead_start hRough .start hRecorded
  · exact recorded_of_smooth

/- The rows of the table up to the combining marks. -/
def firstRows : BreakTable where
  rows :=
    [⟨0x0000, 0x0009, .Control⟩,
      ⟨0x000A, 0x000A, .LF⟩,
      ⟨0x000B, 0x000C, .Control⟩,
      ⟨0x000D, 0x000D, .CR⟩,
      ⟨0x000E, 0x001F, .Control⟩,
      ⟨0x007F, 0x009F, .Control⟩,
      ⟨0x00A9, 0x00A9, .Extended_Pictographic⟩,
      ⟨0x00AD, 0x00AD, .Control⟩,
      ⟨0x00AE, 0x00AE, .Extended_Pictographic⟩,
      ⟨0x0300, 0x036F, .Extend⟩]
  proper := by
    intro row hRow
    simp only [List.mem_cons, List.not_mem_nil, or_false]
      at hRow
    rcases hRow with
      rfl | rfl | rfl | rfl | rfl | rfl | rfl | rfl | rfl | rfl
    all_goals rfl

/- Without `assert`. -/
def release : Build where
  table := firstRows
  asserts := false
  signedChar := true

/- A letter with so many combining marks. -/
def marks (count : Nat) : List UInt8 :=
  0x61 :: (List.replicate count [0xCC, 0x80]).flatten

/- The cluster has one code point more than the buffer. -/
theorem next_marks :
    next release (marks 32) Scanner.start Result.fresh =
      .fault := by
  decide +kernel

theorem not_recorded_marks :
    ¬ Recorded release (marks 32) := by
  intro hRecorded
  rcases hRecorded Scanner.start Result.fresh .start with
    ⟨returned, hNext, _⟩
  rw [next_marks] at hNext
  cases hNext

----
-- Valid strings
----

theorem utf8NextPos_wellFormed
    {b : UInt8}
    {seq : List UInt8}
    (hFormed : WellFormed (b :: seq)) :
    utf8NextPos 0 b = seq.length + 1 := by
  have hSize : utf8ByteSize b = seq.length + 1 := by
    have hCases := utf8ByteSize_cases b
    generalize hBytes : b :: seq = bytes at hFormed
    cases hFormed using WellFormed.by_length with
    | one a hFormed =>
        cases hBytes
        have hLow := (wellFormed_one b).mp hFormed
        simp only [List.length_nil]
        omega
    | two a c hFormed =>
        cases hBytes
        have hBounds := (wellFormed_two b c).mp hFormed
        simp only [List.length_cons, List.length_nil]
        omega
    | three a c d hFormed =>
        cases hBytes
        have hBounds := (wellFormed_three b c d).mp hFormed
        simp only [List.length_cons, List.length_nil]
        omega
    | four a c d e hFormed =>
        cases hBytes
        have hBounds := (wellFormed_four b c d e).mp hFormed
        simp only [List.length_cons, List.length_nil]
        omega
  simp only [utf8NextPos, hSize]
  rw [if_pos (Nat.succ_pos _), Nat.zero_add]

/- In valid strings no code point is cut off. -/
theorem aligned_of_valid
    (build : Build)
    {bytes : List UInt8}
    (hValid : Valid bytes) :
    Aligned build bytes := by
  rcases hValid with ⟨seqs, hFormed, rfl⟩
  unfold Aligned
  induction seqs with
  | nil => rfl
  | cons seq seqs ih =>
      have hRest :=
        ih
          (fun seq hMem =>
            hFormed seq (List.mem_cons_of_mem _ hMem))
      cases seq with
      | nil =>
          rw [List.flatten_cons, List.nil_append]
          exact hRest
      | cons b seq =>
          have hSize :=
            utf8NextPos_wellFormed
              (hFormed _ List.mem_cons_self)
          have hDrop :
              (b :: (seq ++ seqs.flatten)).drop
                  (utf8NextPos 0 b) =
                seqs.flatten := by
            rw [hSize, List.drop_succ_cons, List.drop_left]
          rw [List.flatten_cons, List.cons_append, pieces_cons,
            hDrop, width_cons, hRest]
          simp only [pieceOf, hSize, List.length_cons,
            List.length_append]
          omega

end GraphemeScanner

end Ydsh
