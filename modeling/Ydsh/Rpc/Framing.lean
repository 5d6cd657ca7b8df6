import Ydsh.Rpc.Transport

/-
  Messages are read back as they were written.

  The size of a payload is written as an unsigned int and read
  as an int, and a size out of range is read as 0.

  Main declarations:
    * `Frame`
    * `ReadsBack`
    * `payloads_readBack_iff`
    * `framing_iff`
-/

----
-- Lines
----

namespace Ydsh

namespace Rpc

open Json (ascii decimal isDigit isDigit_decimal)

/- A header line without its end. -/
structure HeaderLine where
  text : List UInt8
  nonempty : text ≠ []
  unbroken : ¬CRLF <:+: text

theorem not_crlf_infix
    {text : List UInt8}
    (hText : CR ∉ text) :
    ¬CRLF <:+: text := by
  intro hInfix
  exact hText (hInfix.subset List.mem_cons_self)

/- The end of a line is found, since it is nowhere before. -/
theorem readHeader_text
    {prev : UInt8}
    {text : List UInt8}
    (hText : ¬CRLF <:+: prev :: text)
    (header rest : List UInt8) :
    readHeader prev header (text ++ CRLF ++ rest) =
      some (header ++ text, rest) := by
  induction text generalizing prev header with
  | nil =>
      have hFirst : ¬(CR = LF ∧ prev = CR) :=
        fun hBoth => absurd hBoth.1 (by decide)
      show readHeader prev header (CR :: LF :: rest) = _
      rw [readHeader, if_neg hFirst, readHeader,
        if_pos ⟨rfl, rfl⟩, List.dropLast_concat, List.append_nil]
  | cons ch text ih =>
      have hEnd : ¬(ch = LF ∧ prev = CR) := by
        rintro ⟨rfl, rfl⟩
        exact hText ⟨[], text, rfl⟩
      have hRest : ¬CRLF <:+: ch :: text := by
        intro hInfix
        exact hText (List.infix_cons hInfix)
      rw [List.cons_append, List.cons_append, readHeader,
        if_neg hEnd, ih hRest, List.append_assoc,
        List.singleton_append]

namespace HeaderLine

def bytes (line : HeaderLine) : List UInt8 :=
  line.text ++ CRLF

theorem readHeader_bytes
    (line : HeaderLine)
    (rest : List UInt8) :
    readHeader 0 [] (line.bytes ++ rest) =
      some (line.text, rest) := by
  unfold bytes
  apply readHeader_text
  intro hInfix
  rcases List.infix_cons_iff.mp hInfix with hPrefix | hInfix
  · exact absurd (List.cons_prefix_cons.mp hPrefix).1 (by decide)
  · exact line.unbroken hInfix

end HeaderLine

theorem readHeader_empty (rest : List UInt8) :
    readHeader 0 [] (CRLF ++ rest) = some ([], rest) :=
  rfl

theorem recvSize_of_readHeader
    {input : List UInt8}
    {found : List UInt8 × List UInt8}
    (hFound : readHeader 0 [] input = some found)
    (size : Nat) :
    recvSize size input =
      if found.1 = [] then
        ((size : Int), found.2)
      else
        recvSize (readLength size found.1) found.2 := by
  rw [recvSize.eq_def]
  split
  · rename_i hNone
    rw [hFound] at hNone
    cases hNone
  · rename_i other hOther
    rw [hFound] at hOther
    rw [Option.some.inj hOther]

/- The size that the lines of a header leave. -/
def sizeAfter
    (size : Nat)
    (lines : List HeaderLine) : Nat :=
  (lines.map HeaderLine.text).foldl readLength size

theorem recvSize_lines
    (size : Nat)
    (lines : List HeaderLine)
    (rest : List UInt8) :
    recvSize size
        (lines.flatMap HeaderLine.bytes ++ CRLF ++ rest) =
      ((sizeAfter size lines : Int), rest) := by
  induction lines generalizing size with
  | nil =>
      exact recvSize_of_readHeader (readHeader_empty rest) size
  | cons line lines ih =>
      have hLine :=
        line.readHeader_bytes
          (lines.flatMap HeaderLine.bytes ++ CRLF ++ rest)
      have hText :
          (line :: lines).flatMap HeaderLine.bytes ++ CRLF ++
              rest =
            line.bytes ++
              (lines.flatMap HeaderLine.bytes ++ CRLF ++
                rest) := by
        rw [List.flatMap_cons, List.append_assoc,
          List.append_assoc, List.append_assoc]
      rw [hText, recvSize_of_readHeader hLine,
        if_neg line.nonempty, ih]
      rfl

----
-- Lengths
----

namespace Payload

/- The size is in the range of an int. -/
def Fits (payload : Payload) : Prop :=
  payload.size < 0x80000000

instance (payload : Payload) : Decidable payload.Fits :=
  inferInstanceAs (Decidable (payload.size < 0x80000000))

/- The size that is read. -/
def readSize (payload : Payload) : Nat :=
  if payload.Fits then payload.size else 0

def lengthText (payload : Payload) : List UInt8 :=
  HEADER_LENGTH ++ decimal payload.size

theorem mem_lengthText
    {payload : Payload}
    {b : UInt8}
    (hMem : b ∈ payload.lengthText) :
    b ≠ CR ∧ b ≠ 0 := by
  rcases List.mem_append.mp hMem with hHeader | hDigit
  · have hAll :
        HEADER_LENGTH.all (fun b => b ≠ CR && b ≠ 0) = true := by
      decide
    have hByte := List.all_eq_true.mp hAll b hHeader
    simpa using hByte
  · have hDigit := isDigit_decimal hDigit
    exact
      ⟨Json.isDigit_ne hDigit rfl, Json.isDigit_ne hDigit rfl⟩

def lengthLine (payload : Payload) : HeaderLine :=
  { text := payload.lengthText
    nonempty := by
      unfold lengthText HEADER_LENGTH ascii
      simp
    unbroken :=
      not_crlf_infix (fun hMem => (mem_lengthText hMem).1 rfl) }

theorem isContentLength_lengthText (payload : Payload) :
    isContentLength payload.lengthText = true := by
  have hPrefix :
      HEADER_LENGTH.isPrefixOf payload.lengthText = true :=
    List.isPrefixOf_iff_prefix.mpr (List.prefix_append _ _)
  have hNull : payload.lengthText.contains 0 = false := by
    rw [List.contains_eq_mem, decide_eq_false_iff_not]
    intro hMem
    exact (mem_lengthText hMem).2 rfl
  unfold isContentLength
  rw [hPrefix, hNull]
  rfl

theorem parseContentLength_lengthText (payload : Payload) :
    parseContentLength payload.lengthText = payload.readSize := by
  have hNum := NumUtil.convertToNum_decimal payload.size_lt
  unfold parseContentLength lengthText readSize
  rw [List.drop_left]
  by_cases hFits : payload.Fits
  · have hLe : payload.data.length ≤ UINT_RANGE / 2 - 1 :=
      Nat.le_sub_one_of_lt hFits
    rw [if_pos hLe] at hNum
    simp only [size, hNum, if_pos hFits]
    rw [if_pos (Int.natCast_nonneg _), Int.toNat_natCast]
  · have hLt : ¬payload.data.length ≤ UINT_RANGE / 2 - 1 := by
      intro hLe
      exact hFits (Nat.lt_of_le_pred (by decide) hLe)
    rw [if_neg hLt] at hNum
    simp only [size, hNum, if_neg hFits]

end Payload

----
-- Frames
----

/-
  Whatever is in the lines before the last length line, it does
  not count.
-/
structure Frame where
  before : List HeaderLine
  after : List HeaderLine
  others :
    ∀ line ∈ after, isContentLength line.text = false
  payload : Payload

namespace Frame

def lines (frame : Frame) : List HeaderLine :=
  frame.before ++ frame.payload.lengthLine :: frame.after

def bytes (frame : Frame) : List UInt8 :=
  frame.lines.flatMap HeaderLine.bytes ++ CRLF ++
    frame.payload.data

/- The frame that `send` writes. -/
def plain (payload : Payload) : Frame :=
  { before := []
    after := []
    others := fun _ hMem => absurd hMem List.not_mem_nil
    payload := payload }

theorem send_eq (payload : Payload) :
    send payload = (plain payload).bytes := by
  unfold send bytes lines plain
  simp [Payload.lengthLine, Payload.lengthText,
    HeaderLine.bytes]

theorem sizeAfter_others
    {lines : List HeaderLine}
    (hOthers :
      ∀ line ∈ lines, isContentLength line.text = false)
    (size : Nat) :
    sizeAfter size lines = size := by
  unfold sizeAfter
  induction lines with
  | nil => rfl
  | cons line lines ih =>
      have hLine := hOthers line List.mem_cons_self
      have hStep : readLength size line.text = size := by
        unfold readLength
        rw [hLine]
        rfl
      rw [List.map_cons, List.foldl_cons, hStep]
      apply ih
      intro other hMem
      exact hOthers other (List.mem_cons_of_mem _ hMem)

theorem recvSize_bytes
    (frame : Frame)
    (rest : List UInt8) :
    recvSize 0 (frame.bytes ++ rest) =
      ((frame.payload.readSize : Int),
        frame.payload.data ++ rest) := by
  have hLength (size : Nat) :
      readLength size frame.payload.lengthLine.text =
        frame.payload.readSize := by
    unfold readLength
    rw [← frame.payload.parseContentLength_lengthText]
    exact if_pos frame.payload.isContentLength_lengthText
  unfold bytes
  rw [List.append_assoc, recvSize_lines]
  have hSize :
      sizeAfter 0 frame.lines = frame.payload.readSize := by
    rw [← sizeAfter_others frame.others frame.payload.readSize]
    unfold lines sizeAfter
    rw [List.map_append, List.map_cons, List.foldl_append,
      List.foldl_cons, hLength]
  rw [hSize]

end Frame

----
-- Bodies
----

/- A piece of the message is read while there is enough. -/
theorem recvMessage_piece
    {remainSize : Nat}
    (hSome : remainSize ≠ 0)
    {input : List UInt8}
    (hInput : remainSize ≤ input.length) :
    ∃ need, 0 < need ∧ need ≤ remainSize ∧
      ∀ fuel buf,
        recvMessage (fuel + 1) remainSize buf input =
          recvMessage fuel (remainSize - need)
            (buf ++ input.take need) (input.drop need) := by
  have hNeed :
      ∃ need,
        need =
            (if remainSize < BUF_SIZE then remainSize
              else BUF_SIZE) ∧
          0 < need ∧ need ≤ remainSize := by
    refine ⟨_, rfl, ?_⟩
    by_cases hSmall : remainSize < BUF_SIZE
    · rw [if_pos hSmall]
      omega
    · rw [if_neg hSmall]
      unfold BUF_SIZE at hSmall ⊢
      omega
  rcases hNeed with ⟨need, hNeed, hPos, hLe⟩
  refine ⟨need, hPos, hLe, fun fuel buf => ?_⟩
  have hTake : (input.take need).length = need := by
    rw [List.length_take]
    omega
  rw [recvMessage, if_neg hSome]
  simp only [← hNeed, recv, hTake]

theorem recvMessage_eq
    {fuel remainSize : Nat}
    (hFuel : remainSize < fuel)
    {input : List UInt8}
    (hInput : remainSize ≤ input.length)
    (buf : List UInt8) :
    recvMessage fuel remainSize buf input =
      some (buf ++ input.take remainSize,
        input.drop remainSize) := by
  induction fuel generalizing remainSize buf input with
  | zero => exact absurd hFuel (Nat.not_lt_zero _)
  | succ fuel ih =>
      by_cases hZero : remainSize = 0
      · rw [recvMessage, if_pos hZero, hZero, List.take_zero,
          List.drop_zero, List.append_nil]
      · rcases recvMessage_piece hZero hInput with
          ⟨need, hPos, hLe, hPiece⟩
        have hSum : need + (remainSize - need) = remainSize := by
          omega
        rw [hPiece, ih (by omega) (by rw [List.length_drop]; omega),
          List.append_assoc, ← List.take_add, List.drop_drop, hSum]

/- However many pieces there are, the message is the same. -/
theorem recvMessage_some
    {fuel remainSize : Nat}
    {input buf : List UInt8}
    (hInput : remainSize ≤ input.length)
    {got : List UInt8 × List UInt8}
    (hGot : recvMessage fuel remainSize buf input = some got) :
    got =
      (buf ++ input.take remainSize, input.drop remainSize) := by
  induction fuel generalizing remainSize buf input with
  | zero => cases hGot
  | succ fuel ih =>
      by_cases hZero : remainSize = 0
      · rw [recvMessage, if_pos hZero] at hGot
        rw [hZero, List.take_zero, List.drop_zero, List.append_nil]
        exact (Option.some.inj hGot).symm
      · rcases recvMessage_piece hZero hInput with
          ⟨need, _, hLe, hPiece⟩
        have hSum : need + (remainSize - need) = remainSize := by
          omega
        rw [hPiece] at hGot
        rw [ih (by rw [List.length_drop]; omega) hGot,
          List.append_assoc, ← List.take_add, List.drop_drop, hSum]

theorem receive_eq
    (frame : Frame)
    {fuel : Nat}
    (hFuel : frame.payload.readSize < fuel)
    (rest : List UInt8) :
    receive fuel (frame.bytes ++ rest) =
      some (frame.payload.data.take frame.payload.readSize,
        frame.payload.data.drop frame.payload.readSize ++
          rest) := by
  have hLe :
      frame.payload.readSize ≤ frame.payload.data.length := by
    unfold Payload.readSize
    by_cases hFits : frame.payload.Fits
    · rw [if_pos hFits]
      exact Nat.le_refl _
    · rw [if_neg hFits]
      exact Nat.zero_le _
  unfold receive
  simp only [frame.recvSize_bytes]
  rw [if_neg (Int.not_lt.mpr (Int.natCast_nonneg _)),
    Int.toNat_natCast, recvMessage_eq hFuel, List.nil_append,
    List.take_append_of_le_length hLe,
    List.drop_append_of_le_length hLe]
  rw [List.length_append]
  exact Nat.le_trans hLe (Nat.le_add_right _ _)

----
-- Reading Back
----

/- The frame is read as its payload and nothing after it. -/
def Frame.ReadsPast (frame : Frame) : Prop :=
  ∀ rest,
    ∃ enough,
      ∀ fuel,
        enough ≤ fuel →
          receive fuel (frame.bytes ++ rest) =
            some (frame.payload.data, rest)

/- What was sent is what is read, whatever comes after it. -/
def ReadsBack (payloads : List Payload) : Prop :=
  ∀ rest,
    ∃ enough,
      ∀ fuel,
        enough ≤ fuel →
          receiveAll fuel payloads.length
              (payloads.flatMap send ++ rest) =
            some (payloads.map Payload.data, rest)

theorem Frame.receive_of_fits
    {frame : Frame}
    (hFits : frame.payload.Fits)
    {fuel : Nat}
    (hFuel : frame.payload.size < fuel)
    (rest : List UInt8) :
    receive fuel (frame.bytes ++ rest) =
      some (frame.payload.data, rest) := by
  have hSize : frame.payload.readSize = frame.payload.size :=
    if_pos hFits
  rw [receive_eq frame (hSize ▸ hFuel), hSize]
  unfold Payload.size
  rw [List.take_length, List.drop_length, List.nil_append]

/- A longer payload is read as the empty one. -/
theorem Frame.fits_of_receive
    {frame : Frame}
    {fuel : Nat}
    (hFuel : frame.payload.size < fuel)
    {rest : List UInt8}
    {got : List UInt8 × List UInt8}
    (hReceive :
      receive fuel (frame.bytes ++ rest) = some got)
    (hData : got.1 = frame.payload.data) :
    frame.payload.Fits := by
  by_contra hLong
  have hSize : frame.payload.readSize = 0 :=
    if_neg hLong
  rw [receive_eq frame (hSize ▸ Nat.zero_lt_of_lt hFuel),
    hSize, List.take_zero] at hReceive
  rw [← Option.some.inj hReceive] at hData
  apply hLong
  unfold Payload.Fits Payload.size
  rw [← hData]
  exact Nat.zero_lt_succ _

theorem Frame.readsPast_iff (frame : Frame) :
    frame.ReadsPast ↔ frame.payload.Fits := by
  constructor
  · intro hReads
    rcases hReads [] with ⟨enough, hReads⟩
    have hReceive :=
      hReads (enough + (frame.payload.size + 1))
        (Nat.le_add_right _ _)
    have hFuel :
        frame.payload.size < enough + (frame.payload.size + 1) := by
      omega
    exact fits_of_receive hFuel hReceive rfl
  · intro hFits rest
    exact
      ⟨frame.payload.size + 1,
        fun _ hFuel => receive_of_fits hFits hFuel rest⟩

/- How many pieces are enough for each of the payloads. -/
def enoughFor (payloads : List Payload) : Nat :=
  (payloads.map Payload.size).sum + 1

theorem size_lt_of_enoughFor
    {payload : Payload}
    {payloads : List Payload}
    {fuel : Nat}
    (hFuel : enoughFor (payload :: payloads) ≤ fuel) :
    payload.size < fuel ∧ enoughFor payloads ≤ fuel := by
  unfold enoughFor at hFuel ⊢
  rw [List.map_cons, List.sum_cons] at hFuel
  omega

/- The first payload and the others. -/
theorem receiveAll_cons
    (fuel : Nat)
    (payload : Payload)
    (payloads : List Payload)
    (rest : List UInt8) :
    receiveAll fuel (payload :: payloads).length
        ((payload :: payloads).flatMap send ++ rest) =
      (receive fuel
          ((Frame.plain payload).bytes ++
            (payloads.flatMap send ++ rest))).bind
        (fun got =>
          (receiveAll fuel payloads.length got.2).map
            (fun more => (got.1 :: more.1, more.2))) := by
  rw [List.length_cons, List.flatMap_cons, List.append_assoc,
    Frame.send_eq]
  rfl

theorem receiveAll_of_fits
    {payloads : List Payload}
    (hFits : ∀ payload ∈ payloads, payload.Fits)
    {fuel : Nat}
    (hFuel : enoughFor payloads ≤ fuel)
    (rest : List UInt8) :
    receiveAll fuel payloads.length
        (payloads.flatMap send ++ rest) =
      some (payloads.map Payload.data, rest) := by
  induction payloads with
  | nil => rfl
  | cons payload payloads ih =>
      rcases size_lt_of_enoughFor hFuel with ⟨hSize, hMore⟩
      have hFirst : (Frame.plain payload).payload.Fits :=
        hFits payload List.mem_cons_self
      have hRest :=
        ih
          (fun other hMem =>
            hFits other (List.mem_cons_of_mem _ hMem))
          hMore
      rw [receiveAll_cons, Frame.receive_of_fits hFirst hSize,
        Option.bind_some, hRest]
      rfl

theorem fits_of_receiveAll
    {payloads : List Payload}
    {fuel : Nat}
    (hFuel : enoughFor payloads ≤ fuel)
    {rest : List UInt8}
    (hReceive :
      receiveAll fuel payloads.length
          (payloads.flatMap send ++ rest) =
        some (payloads.map Payload.data, rest)) :
    ∀ payload ∈ payloads, payload.Fits := by
  induction payloads with
  | nil =>
      intro payload hMem
      cases hMem
  | cons payload payloads ih =>
      rcases size_lt_of_enoughFor hFuel with ⟨hSize, hMore⟩
      rw [receiveAll_cons] at hReceive
      rcases Option.bind_eq_some_iff.mp hReceive with
        ⟨got, hGot, hTail⟩
      rcases Option.map_eq_some_iff.mp hTail with
        ⟨more, hTail, hBoth⟩
      rcases Prod.mk.inj hBoth with ⟨hCons, hRest⟩
      rcases List.cons.inj hCons with ⟨hFirst, hOthers⟩
      have hFits : (Frame.plain payload).payload.Fits :=
        Frame.fits_of_receive hSize hGot hFirst
      rw [Frame.receive_of_fits hFits hSize] at hGot
      rw [← Option.some.inj hGot] at hTail
      have hMoreEq :
          more = (payloads.map Payload.data, rest) :=
        Prod.ext hOthers hRest
      rw [hMoreEq] at hTail
      intro other hMem
      rcases List.mem_cons.mp hMem with rfl | hMem
      · exact hFits
      · exact ih hMore hTail other hMem

theorem payloads_readBack_iff (payloads : List Payload) :
    ReadsBack payloads ↔ ∀ payload ∈ payloads, payload.Fits := by
  constructor
  · intro hReads
    rcases hReads [] with ⟨enough, hReads⟩
    have hReceive :=
      hReads (enough + enoughFor payloads) (Nat.le_add_right _ _)
    exact fits_of_receiveAll (Nat.le_add_left _ _) hReceive
  · intro hFits rest
    exact
      ⟨enoughFor payloads,
        fun _ hFuel => receiveAll_of_fits hFits hFuel rest⟩

/-
  Payloads sent are read back, and a frame with other lines in
  its header is read past, exactly if no payload is too long for
  an int.
-/
theorem framing_iff
    (payloads : List Payload)
    (frame : Frame) :
    (ReadsBack payloads ↔
        ∀ payload ∈ payloads, payload.Fits) ∧
      (frame.ReadsPast ↔ frame.payload.Fits) := by
  constructor
  · exact payloads_readBack_iff payloads
  · exact frame.readsPast_iff

/- As many null bytes as an int cannot count. -/
def longPayload : Payload :=
  { data := List.replicate 0x80000000 0
    size_lt := by
      rw [List.length_replicate]
      decide }

theorem not_readsBack_longPayload :
    ¬ReadsBack [longPayload] := by
  intro hReads
  have hFits :=
    (payloads_readBack_iff [longPayload]).mp hReads longPayload
      List.mem_cons_self
  unfold Payload.Fits Payload.size longPayload at hFits
  rw [List.length_replicate] at hFits
  exact absurd hFits (by decide)

end Rpc

end Ydsh
