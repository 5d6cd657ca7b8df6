import Ydsh.Misc.Grapheme
import Ydsh.Misc.Unicode

/-
  Cutting a string into grapheme clusters.

  The scanner reads one code point more than the cluster it
  returns, and keeps it for the next call.  A string is read as
  a list of code points with their sizes, of which the last
  size may reach beyond the end.

  Main declarations:
    * `next`
    * `pieces`
    * `Aligned`
    * `nextLoop_eq`
-/

----
-- Code points
----

namespace Ydsh

namespace GraphemeScanner

open Library
open Unicode
open Grapheme

/- What the compiler and its options settle. -/
structure Build where
  table : BreakTable
  -- `assert` is compiled in
  asserts : Bool
  -- `char` is a signed type
  signedChar : Bool

/- A `char` as an `int`. -/
def charValue (build : Build) (b : UInt8) : Int :=
  if build.signedChar ∧ b ≥ 0x80 then
    Int.ofNat b.toNat - 0x100
  else
    Int.ofNat b.toNat

/- If b is an illegal start byte of UTF-8, skip it. -/
def utf8NextPos (pos : Nat) (b : UInt8) : Nat :=
  let size := utf8ByteSize b
  pos + (if size > 0 then size else 1)

def toCodePoint
    (build : Build)
    (ref : List UInt8)
    (pos : Nat) : Faulting Int :=
  (utf8ToCodePoint (ref.drop pos)).bind
    (fun found =>
      if found.2 < 0 then
        -- broken encoding
        (byteAt ref pos).map (charValue build)
      else
        .done found.2)

----
-- Scanner
----

abbrev MAX_GRAPHEME_CODE_POINTS : Nat := 32

structure Scanner where
  prevPos : Nat
  curPos : Nat
  boundary : BreakProperty
  deriving DecidableEq

/- The scanner in front of a string. -/
def Scanner.start : Scanner where
  prevPos := 0
  curPos := 0
  boundary := .SOT

def hasNext (ref : List UInt8) (scanner : Scanner) : Bool :=
  scanner.prevPos ≤ scanner.curPos &&
    scanner.prevPos < ref.length

/- `codePoints` is the part of the buffer that is in use. -/
structure Result where
  ref : List UInt8
  codePoints : List Int
  deriving DecidableEq

def Result.codePointCount (result : Result) : Nat :=
  result.codePoints.length

/- A result that nothing was written to. -/
def Result.fresh : Result where
  ref := []
  codePoints := []

/- A write to the next entry of the buffer. -/
def record
    (codePoints : List Int)
    (codePoint : Int) : Faulting (List Int) :=
  if codePoints.length < MAX_GRAPHEME_CODE_POINTS then
    .done (codePoints ++ [codePoint])
  else
    .fault

def checkRoom
    (build : Build)
    (codePoints : List Int) : Faulting PUnit :=
  if build.asserts ∧
      ¬ codePoints.length < MAX_GRAPHEME_CODE_POINTS then
    .fault
  else
    .done ()

/- `substr` -/
def substr
    (ref : List UInt8)
    (pos size : Nat) : List UInt8 :=
  (ref.drop pos).take size

/- What `next` returns and leaves behind. -/
structure Returned where
  found : Bool
  scanner : Scanner
  result : Result
  deriving DecidableEq

/- After the loop. -/
def atEnd
    (ref : List UInt8)
    (startPos : Nat)
    (scanner : Scanner)
    (result : Result) : Returned :=
  if scanner.curPos = ref.length then
    { found := result.codePointCount > 0
      scanner := { scanner with prevPos := scanner.curPos }
      result :=
        { result with
          ref :=
            substr ref startPos
              (scanner.curPos - scanner.prevPos) } }
  else
    { found := result.codePointCount > 0
      scanner := scanner
      result := result }

/- The loop, for so many rounds. -/
def nextLoop
    (build : Build)
    (ref : List UInt8)
    (startPos : Nat) :
    Nat → Scanner → Result → Faulting Returned
  | 0, _, _ => .timeout
  | rounds + 1, scanner, result =>
      if scanner.curPos < ref.length then
        (byteAt ref scanner.curPos).bind fun b =>
        (toCodePoint build ref scanner.curPos).bind
          fun codePoint =>
        (checkRoom build result.codePoints).bind fun _ =>
          let pos := scanner.curPos
          let found :=
            scanBoundary build.table scanner.boundary codePoint
          let scanner :=
            { scanner with
              curPos := utf8NextPos pos b
              boundary := found.2 }
          if found.1 then
            .done
              { found := true
                scanner := { scanner with prevPos := pos }
                result :=
                  { result with
                    ref :=
                      substr ref startPos
                        (pos - scanner.prevPos) } }
          else
            (record result.codePoints codePoint).bind
              fun codePoints =>
            nextLoop build ref startPos rounds scanner
              { result with codePoints := codePoints }
      else
        .done (atEnd ref startPos scanner result)

/- A round moves on by one byte at least. -/
def next
    (build : Build)
    (ref : List UInt8)
    (scanner : Scanner)
    (result : Result) : Faulting Returned :=
  let startPos := scanner.prevPos
  if scanner.prevPos ≠ scanner.curPos then
    (toCodePoint build ref scanner.prevPos).bind fun codePoint =>
      nextLoop build ref startPos (ref.length + 1) scanner
        { result with codePoints := [codePoint] }
  else
    nextLoop build ref startPos (ref.length + 1) scanner
      { result with codePoints := [] }

----
-- Pieces
----

/- A code point and the size that its first byte announces. -/
structure Piece where
  codePoint : Int
  size : Nat
  deriving DecidableEq

/- The first code point of what is not empty. -/
def codePointOf
    (build : Build)
    (b : UInt8)
    (rest : List UInt8) : Int :=
  match utf8ToCodePoint (b :: rest) with
  | .done found =>
      if found.2 < 0 then charValue build b else found.2
  | _ => 0

def pieceOf
    (build : Build)
    (b : UInt8)
    (rest : List UInt8) : Piece where
  codePoint := codePointOf build b rest
  size := utf8NextPos 0 b

def piecesWithin (build : Build) :
    Nat → List UInt8 → List Piece
  | 0, _ => []
  | _, [] => []
  | bound + 1, b :: rest =>
      pieceOf build b rest ::
        piecesWithin build bound
          ((b :: rest).drop (utf8NextPos 0 b))

/- The code points of a string, with their sizes. -/
def pieces
    (build : Build)
    (ref : List UInt8) : List Piece :=
  piecesWithin build ref.length ref

def width (found : List Piece) : Nat :=
  found.foldr (fun piece sum => piece.size + sum) 0

/- The last code point is not cut off. -/
def Aligned (build : Build) (ref : List UInt8) : Prop :=
  width (pieces build ref) = ref.length

instance (build : Build) (ref : List UInt8) :
    Decidable (Aligned build ref) :=
  inferInstanceAs (Decidable (_ = _))

----
-- Reading code points
----

variable {build : Build}
variable {ref : List UInt8}

theorem utf8NextPos_eq (pos : Nat) (b : UInt8) :
    utf8NextPos pos b = pos + utf8NextPos 0 b := by
  simp [utf8NextPos]

theorem utf8NextPos_pos (b : UInt8) :
    0 < utf8NextPos 0 b := by
  unfold utf8NextPos
  dsimp only
  split_ifs <;> omega

/- Decoding reads nothing beyond the end. -/
theorem utf8ToCodePoint_done (buf : List UInt8) :
    ∃ found, utf8ToCodePoint buf = .done found := by
  rcases utf8ValidateChar_cases buf with
    hNone | ⟨seq, rest, hBuf, hFormed, _⟩
  · exact ⟨_, utf8ToCodePoint_invalid hNone⟩
  · rw [hBuf]
    exact ⟨_, utf8ToCodePoint_wellFormed hFormed rest⟩

theorem toCodePoint_eq
    {pos : Nat}
    {b : UInt8}
    {rest : List UInt8}
    (hDrop : ref.drop pos = b :: rest) :
    toCodePoint build ref pos =
      .done (codePointOf build b rest) := by
  rcases utf8ToCodePoint_done (b :: rest) with ⟨found, hFound⟩
  have hByte : byteAt ref pos = .done b := by
    have hGet : ref[pos]? = some b := by
      rw [← List.head?_drop, hDrop]
      rfl
    simp only [byteAt, hGet]
  unfold toCodePoint codePointOf
  rw [hDrop, hFound, Faulting.bind_done]
  simp only [hByte, Faulting.map_done]
  by_cases hNegative : found.2 < 0
  · rw [if_pos hNegative, if_pos hNegative]
  · rw [if_neg hNegative, if_neg hNegative]

theorem piecesWithin_eq
    {first second : Nat}
    {bytes : List UInt8}
    (hFirst : bytes.length ≤ first)
    (hSecond : bytes.length ≤ second) :
    piecesWithin build first bytes =
      piecesWithin build second bytes := by
  induction first generalizing second bytes with
  | zero =>
      have hNil := List.length_eq_zero_iff.mp
        (Nat.le_zero.mp hFirst)
      subst hNil
      cases second <;> rfl
  | succ first ih =>
      cases bytes with
      | nil => cases second <;> rfl
      | cons b rest =>
          cases second with
          | zero => exact absurd hSecond (Nat.not_succ_le_zero _)
          | succ second =>
              have hPos := utf8NextPos_pos b
              have hLength :
                  ((b :: rest).drop (utf8NextPos 0 b)).length ≤
                    rest.length := by
                rw [List.length_drop, List.length_cons]
                omega
              simp only [List.length_cons] at hFirst hSecond
              simp only [piecesWithin]
              exact
                congrArg (pieceOf build b rest :: ·)
                  (ih
                    (Nat.le_trans hLength
                      (Nat.le_of_succ_le_succ hFirst))
                    (Nat.le_trans hLength
                      (Nat.le_of_succ_le_succ hSecond)))

theorem pieces_cons (b : UInt8) (rest : List UInt8) :
    pieces build (b :: rest) =
      pieceOf build b rest ::
        pieces build ((b :: rest).drop (utf8NextPos 0 b)) := by
  have hPos := utf8NextPos_pos b
  have hLength :
      ((b :: rest).drop (utf8NextPos 0 b)).length ≤
        rest.length := by
    rw [List.length_drop, List.length_cons]
    omega
  have hRest :=
    @piecesWithin_eq build _ _ _ hLength (Nat.le_refl _)
  exact congrArg (pieceOf build b rest :: ·) hRest

theorem pieces_eq_nil
    (hPieces : pieces build ref = []) :
    ref = [] := by
  cases ref with
  | nil => rfl
  | cons b rest =>
      rw [pieces_cons] at hPieces
      cases hPieces

@[simp]
theorem width_nil : width [] = 0 :=
  rfl

@[simp]
theorem width_cons (piece : Piece) (rest : List Piece) :
    width (piece :: rest) = piece.size + width rest :=
  rfl

@[simp]
theorem width_append (front back : List Piece) :
    width (front ++ back) = width front + width back := by
  induction front with
  | nil => simp
  | cons piece front ih =>
      simp only [List.cons_append, width_cons,
        ih, Nat.add_assoc]

/- Every code point has a size. -/
theorem size_pos_of_mem
    {piece : Piece}
    (hMem : piece ∈ pieces build ref) :
    0 < piece.size := by
  induction hLength : ref.length using Nat.strong_induction_on
    generalizing ref with
  | _ length ih =>
      cases ref with
      | nil => cases hMem
      | cons b rest =>
          have hPos := utf8NextPos_pos b
          rw [pieces_cons] at hMem
          cases hMem with
          | head => exact hPos
          | tail _ hMem =>
              refine ih _ ?_ hMem rfl
              rw [← hLength, List.length_drop,
                List.length_cons]
              omega

/- What follows the first code points. -/
theorem pieces_drop
    {front back : List Piece}
    (hPieces : pieces build ref = front ++ back) :
    pieces build (ref.drop (width front)) = back := by
  induction front generalizing ref with
  | nil => exact hPieces
  | cons piece front ih =>
      cases ref with
      | nil => cases hPieces
      | cons b rest =>
          rw [pieces_cons, List.cons_append] at hPieces
          rcases List.cons.inj hPieces with ⟨hPiece, hRest⟩
          have hDrop := ih hRest
          rw [List.drop_drop] at hDrop
          rw [width_cons, ← hPiece]
          exact hDrop

/- The first of what is ahead, and what follows it. -/
theorem read_piece
    {pos : Nat}
    {piece : Piece}
    {rest : List Piece}
    (hPieces :
      pieces build (ref.drop pos) = piece :: rest) :
    ∃ b,
      pos < ref.length ∧
        byteAt ref pos = .done b ∧
        toCodePoint build ref pos = .done piece.codePoint ∧
        utf8NextPos pos b = pos + piece.size ∧
        pieces build (ref.drop (pos + piece.size)) = rest := by
  cases hDrop : ref.drop pos with
  | nil =>
      rw [hDrop] at hPieces
      cases hPieces
  | cons b tail =>
      have hLt : pos < ref.length := by
        by_contra hLe
        rw [List.drop_of_length_le
          (Nat.le_of_not_lt hLe)] at hDrop
        cases hDrop
      have hGet : ref[pos]? = some b := by
        rw [← List.head?_drop, hDrop]
        rfl
      rw [hDrop, pieces_cons] at hPieces
      rcases List.cons.inj hPieces with ⟨hPiece, hTail⟩
      subst hPiece
      refine ⟨b, hLt, ?_, toCodePoint_eq hDrop,
        utf8NextPos_eq pos b, ?_⟩
      · simp only [byteAt, hGet]
      · rw [← List.drop_drop, hDrop]
        exact hTail

/- Where a string is cut decides nothing in front of it. -/
theorem length_pieces_take
    {front back : List Piece}
    (hPieces : pieces build ref = front ++ back)
    (hInside : width front ≤ ref.length) :
    (pieces build (ref.take (width front))).length =
      front.length := by
  induction front generalizing ref with
  | nil => rfl
  | cons piece front ih =>
      cases ref with
      | nil => cases hPieces
      | cons b rest =>
          have hPos := utf8NextPos_pos b
          rw [pieces_cons, List.cons_append] at hPieces
          rcases List.cons.inj hPieces with ⟨hPiece, hRest⟩
          have hSize : piece.size = utf8NextPos 0 b := by
            rw [← hPiece]
            rfl
          rw [width_cons, hSize] at hInside
          have hTake :
              (b :: rest).take (width (piece :: front)) =
                b :: rest.take (width (piece :: front) - 1) := by
            rw [width_cons, hSize, List.take_cons (by omega)]
          have hDrop :
              ((b :: rest).take (width (piece :: front))).drop
                  (utf8NextPos 0 b) =
                ((b :: rest).drop (utf8NextPos 0 b)).take
                  (width front) := by
            rw [List.drop_take, width_cons, hSize,
              Nat.add_sub_cancel_left]
          have hLength := ih hRest (by
            rw [List.length_drop]
            omega)
          rw [← hDrop, hTake] at hLength
          rw [hTake, pieces_cons, List.length_cons, hLength,
            List.length_cons]

/- No code point begins beyond the end. -/
theorem width_lt
    {front back : List Piece}
    {piece : Piece}
    (hPieces : pieces build ref = front ++ piece :: back) :
    width front < ref.length := by
  have hBack := pieces_drop hPieces
  by_contra hLe
  rw [List.drop_of_length_le (Nat.le_of_not_lt hLe)] at hBack
  cases hBack

/- Only the last code point can be cut off. -/
theorem length_le_width : ref.length ≤ width (pieces build ref) := by
  have hRest :=
    @pieces_drop build ref (pieces build ref) []
      (List.append_nil _).symm
  exact List.drop_eq_nil_iff.mp (pieces_eq_nil hRest)

----
-- The loop over pieces
----

/- The loop: a cluster, the state, and what was not taken.
   The first of what was not taken is read already. -/
def scanPieces
    (build : Build) :
    BreakProperty → List Piece → List Piece →
      Faulting (List Piece × BreakProperty × List Piece)
  | state, current, [] => .done (current, state, [])
  | state, current, piece :: rest =>
      let found :=
        scanBoundary build.table state piece.codePoint
      if build.asserts ∧
          ¬ current.length < MAX_GRAPHEME_CODE_POINTS then
        .fault
      else if found.1 then
        .done (current, found.2, piece :: rest)
      else if current.length < MAX_GRAPHEME_CODE_POINTS then
        scanPieces build found.2 (current ++ [piece]) rest
      else
        .fault

/- What the caller sees of it. -/
def returned
    (ref : List UInt8)
    (prevPos : Nat)
    (old : List UInt8)
    (scanned : List Piece × BreakProperty × List Piece) :
    Returned :=
  let codePoints := scanned.1.map Piece.codePoint
  let curPos := prevPos + width scanned.1
  match scanned.2.2 with
  | [] =>
      atEnd ref prevPos
        { prevPos := prevPos
          curPos := curPos
          boundary := scanned.2.1 }
        { ref := old
          codePoints := codePoints }
  | piece :: _ =>
      { found := true
        scanner :=
          { prevPos := curPos
            curPos := curPos + piece.size
            boundary := scanned.2.1 }
        result :=
          { ref := substr ref prevPos (width scanned.1)
            codePoints := codePoints } }

theorem nextLoop_eq
    {rest : List Piece}
    (current : List Piece)
    {prevPos : Nat}
    (state : BreakProperty)
    {old : List UInt8}
    {rounds : Nat}
    (hRest :
      pieces build (ref.drop (prevPos + width current)) = rest)
    (hRounds : rest.length < rounds) :
    nextLoop build ref prevPos rounds
        { prevPos := prevPos
          curPos := prevPos + width current
          boundary := state }
        { ref := old
          codePoints := current.map Piece.codePoint } =
      (scanPieces build state current rest).map
        (returned ref prevPos old) := by
  induction rest generalizing current state rounds with
  | nil =>
      cases rounds with
      | zero => exact absurd hRounds (Nat.not_lt_zero _)
      | succ rounds =>
          have hEnd := List.drop_eq_nil_iff.mp (pieces_eq_nil hRest)
          simp only [nextLoop]
          rw [if_neg (Nat.not_lt.mpr hEnd)]
          rfl
  | cons piece rest ih =>
      cases rounds with
      | zero => exact absurd hRounds (Nat.not_lt_zero _)
      | succ rounds =>
          rcases read_piece hRest with
            ⟨b, hLt, hByte, hCodePoint, hSize, hNext⟩
          have hWidth :
              prevPos + width current + piece.size =
                prevPos + width (current ++ [piece]) := by
            rw [width_append, Nat.add_assoc]
            rfl
          rw [hWidth] at hSize hNext
          simp only [nextLoop, scanPieces]
          rw [if_pos hLt, hByte, Faulting.bind_done, hCodePoint,
            Faulting.bind_done]
          simp only [checkRoom, List.length_map]
          by_cases hRoom :
              build.asserts = true ∧
                ¬ current.length < MAX_GRAPHEME_CODE_POINTS
          · rw [if_pos hRoom, if_pos hRoom]
            rfl
          · rw [if_neg hRoom, if_neg hRoom,
              Faulting.bind_done]
            cases hFound :
                (scanBoundary build.table state
                  piece.codePoint).1 with
            | true =>
                simp only [if_true, Faulting.map_done,
                  returned, hSize, width_append, width_cons,
                  width_nil, Nat.add_zero, Nat.add_assoc,
                  Nat.add_sub_cancel_left]
            | false =>
                simp only [Bool.false_eq_true, if_false,
                  record, List.length_map]
                by_cases hSpace :
                    current.length <
                      MAX_GRAPHEME_CODE_POINTS
                · rw [if_pos hSpace, if_pos hSpace,
                    Faulting.bind_done, hSize]
                  have hLoop :=
                    ih
                      (current ++ [piece])
                      (scanBoundary build.table state
                        piece.codePoint).2 hNext
                      (Nat.lt_of_succ_lt_succ hRounds)
                  rw [List.map_append] at hLoop
                  exact hLoop
                · rw [if_neg hSpace, if_neg hSpace]
                  rfl

theorem length_pieces_le :
    (pieces build ref).length ≤ ref.length := by
  induction hLength : ref.length using Nat.strong_induction_on
    generalizing ref with
  | _ length ih =>
      cases ref with
      | nil => exact Nat.zero_le _
      | cons b rest =>
          have hPos := utf8NextPos_pos b
          have hDrop :
              ((b :: rest).drop (utf8NextPos 0 b)).length <
                length := by
            rw [← hLength, List.length_drop, List.length_cons]
            omega
          have hRest := ih _ hDrop rfl
          rw [pieces_cons, List.length_cons]
          omega

end GraphemeScanner

end Ydsh
