import Ydsh.Misc.NumUtil

/-
  Messages of the language server on a byte stream.

  A message is a header, which ends with an empty line, and as
  many bytes as the header says.

  Main declarations:
    * `send`
    * `recvSize`
    * `receive`
-/

----
-- Writing
----

namespace Ydsh

namespace Rpc

open Json (ascii decimal)

abbrev CR : UInt8 := 0x0D

abbrev LF : UInt8 := 0x0A

abbrev CRLF : List UInt8 := [CR, LF]

/- The number of values of an unsigned int. -/
abbrev UINT_RANGE : Nat := 0x100000000

/- `Content-Length: ` -/
def HEADER_LENGTH : List UInt8 :=
  ascii
    ['C', 'o', 'n', 't', 'e', 'n', 't', '-', 'L', 'e', 'n', 'g',
      't', 'h', ':', ' ']

/- The bytes whose size is given to `send` as an unsigned int. -/
structure Payload where
  data : List UInt8
  size_lt : data.length < UINT_RANGE

def Payload.size (payload : Payload) : Nat :=
  payload.data.length

/- The size of a text is cut to an unsigned int. -/
def Payload.cut (text : List UInt8) : Payload :=
  { data := text.take (text.length % UINT_RANGE)
    size_lt := by
      have hLt : text.length % UINT_RANGE < UINT_RANGE :=
        Nat.mod_lt _ (by decide)
      rw [List.length_take]
      omega }

/- The first of the two writes of `send`. -/
def header (payload : Payload) : List UInt8 :=
  HEADER_LENGTH ++ decimal payload.size ++ CRLF ++ CRLF

/- What is written onto the stream. -/
def send (payload : Payload) : List UInt8 :=
  HEADER_LENGTH ++ decimal payload.size ++ CRLF ++ CRLF ++
    payload.data

----
-- Reading
----

/-
  A line without its end, and the stream after it.  No result:
  the stream ends within the line.
-/
def readHeader
    (prev : UInt8)
    (header : List UInt8) :
    List UInt8 → Option (List UInt8 × List UInt8)
  | [] => none
  | ch :: input =>
      if ch = LF ∧ prev = CR then
        some (header.dropLast, input)
      else
        readHeader ch (header ++ [ch]) input

theorem readHeader_length
    {prev : UInt8}
    {header input : List UInt8}
    {found : List UInt8 × List UInt8}
    (hFound : readHeader prev header input = some found) :
    found.2.length < input.length := by
  induction input generalizing prev header with
  | nil => cases hFound
  | cons ch input ih =>
      rw [List.length_cons]
      rw [readHeader] at hFound
      by_cases hEnd : ch = LF ∧ prev = CR
      · rw [if_pos hEnd] at hFound
        rw [← Option.some.inj hFound]
        exact Nat.lt_succ_self _
      · rw [if_neg hEnd] at hFound
        exact Nat.lt_succ_of_lt (ih hFound)

/- A null byte would end the line early. -/
def isContentLength (line : List UInt8) : Bool :=
  HEADER_LENGTH.isPrefixOf line && !line.contains 0

/- 0 if the length is broken. -/
def parseContentLength (line : List UInt8) : Nat :=
  match
    NumUtil.convertToNum UINT_RANGE 0
      (line.drop HEADER_LENGTH.length)
  with
  | some value => if 0 ≤ value then value.toNat else 0
  | none => 0

/- The size found so far after another line. -/
def readLength
    (size : Nat)
    (line : List UInt8) : Nat :=
  if isContentLength line then parseContentLength line else size

/-
  The size a header gives to its message, or -1 if the stream
  ends within the header, and the stream after the header.
-/
def recvSize
    (size : Nat)
    (input : List UInt8) : Int × List UInt8 :=
  match _hFound : readHeader 0 [] input with
  | none => (-1, [])
  | some found =>
      if found.1 = [] then
        (size, found.2)
      else
        recvSize (readLength size found.1) found.2
termination_by input.length
decreasing_by exact readHeader_length _hFound

/- The bytes read, which are fewer at the end of the stream. -/
def recv
    (size : Nat)
    (input : List UInt8) : List UInt8 × List UInt8 :=
  (input.take size, input.drop size)

abbrev BUF_SIZE : Nat := 256

/-
  The loop of `dispatch` that reads a message in pieces.  At the
  end of the stream it goes on without end.
-/
def recvMessage :
    Nat →
      Nat →
        List UInt8 →
          List UInt8 → Option (List UInt8 × List UInt8)
  | 0, _, _, _ => none
  | fuel + 1, remainSize, buf, input =>
      if remainSize = 0 then
        some (buf, input)
      else
        let needSize :=
          if remainSize < BUF_SIZE then remainSize else BUF_SIZE
        let got := recv needSize input
        recvMessage fuel (remainSize - got.1.length)
          (buf ++ got.1) got.2

/- One message, as `dispatch` reads it. -/
def receive
    (fuel : Nat)
    (input : List UInt8) :
    Option (List UInt8 × List UInt8) :=
  let found := recvSize 0 input
  if found.1 < 0 then
    none
  else
    recvMessage fuel found.1.toNat [] found.2

/- As many messages, one after another. -/
def receiveAll
    (fuel : Nat) :
    Nat →
      List UInt8 → Option (List (List UInt8) × List UInt8)
  | 0, input => some ([], input)
  | count + 1, input =>
      (receive fuel input).bind
        (fun got =>
          (receiveAll fuel count got.2).map
            (fun more => (got.1 :: more.1, more.2)))

end Rpc

end Ydsh
