import Ydsh.Json.Lexer

/-
  What the parser makes of the text of a token.

  A string token is read byte by byte: a byte that starts no
  escape is itself taken for a code point.

  Main declarations:
    * `convertToNum`
    * `unescape`
    * `unescapeStr`
-/

----
-- Numbers
----

namespace Ydsh

namespace Json

def hexToNum (ch : UInt8) : Nat :=
  if 0x30 ≤ ch.toNat ∧ ch.toNat ≤ 0x39 then
    ch.toNat - 0x30
  else if 0x61 ≤ ch.toNat ∧ ch.toNat ≤ 0x66 then
    10 + (ch.toNat - 0x61)
  else if 0x41 ≤ ch.toNat ∧ ch.toNat ≤ 0x46 then
    10 + (ch.toNat - 0x41)
  else
    0

/- One digit more, unless it is none or 64 bits overflow. -/
def pushDigit
    (base ret : Nat)
    (ch : UInt8) : Option Nat :=
  if isHex ch ∧ hexToNum ch < base then
    if ret * base < 2 ^ 64 ∧ ret * base + hexToNum ch < 2 ^ 64 then
      some (ret * base + hexToNum ch)
    else
      none
  else
    none

def parseOctalOrHex
    (base : Nat)
    (bytes : List UInt8) : Option Nat :=
  if bytes = [] then
    none
  else
    bytes.foldlM (pushDigit base) 0

def parseDecimal : List UInt8 → Option Nat
  | [] => none
  | ch :: bytes =>
      if ch = 0x30 then
        if bytes = [] then some 0 else none
      else
        (ch :: bytes).foldlM (pushDigit 10) 0

/- `parseBase`, and the digits in the base it finds. -/
def parseUnsigned : List UInt8 → Option Nat
  | [] => none
  | ch :: bytes =>
      if ch = 0x30 then
        match bytes with
        | [] => parseOctalOrHex 8 [ch]
        | mark :: digits =>
            if mark ∈ ascii ['x', 'X'] then
              parseOctalOrHex 16 digits
            else if mark ∈ ascii ['o', 'O'] then
              parseOctalOrHex 8 digits
            else
              parseOctalOrHex 8 (mark :: digits)
      else
        parseDecimal (ch :: bytes)

def makeSigned
    (v : Nat)
    (negate : Bool) : Option Int64 :=
  if negate then
    if v ≤ 2 ^ 63 then some (Int64.ofInt (-v)) else none
  else
    if v ≤ 2 ^ 63 - 1 then some (Int64.ofInt v) else none

/- `convertToNum<int64_t>` -/
def convertToNum : List UInt8 → Option Int64
  | [] => none
  | ch :: bytes =>
      if ch = 0x2D then
        (parseUnsigned bytes).bind (makeSigned · true)
      else
        (parseUnsigned (ch :: bytes)).bind (makeSigned · false)

def isFloat (bytes : List UInt8) : Bool :=
  bytes.any (fun ch => ch ∈ ascii ['.', 'e', 'E'])

----
-- Code Points
----

def isHighSurrogate (v : Nat) : Bool :=
  0xD800 ≤ v && v ≤ 0xDBFF

def isLowSurrogate (v : Nat) : Bool :=
  0xDC00 ≤ v && v ≤ 0xDFFF

def utf16ToCodePoint
    (high low : Nat) : Nat :=
  (high - 0xD800) <<< 10 + (low - 0xDC00) + 0x10000

def codePointToUtf8 (codePoint : Nat) : List UInt8 :=
  if codePoint ≤ 0x7F then
    [UInt8.ofNat codePoint]
  else if codePoint ≤ 0x7FF then
    [UInt8.ofNat (0xC0 ||| (codePoint >>> 6)),
      UInt8.ofNat (0x80 ||| (codePoint &&& 0x3F))]
  else if codePoint ≤ 0xFFFF then
    [UInt8.ofNat (0xE0 ||| (codePoint >>> 12)),
      UInt8.ofNat (0x80 ||| ((codePoint >>> 6) &&& 0x3F)),
      UInt8.ofNat (0x80 ||| (codePoint &&& 0x3F))]
  else if codePoint ≤ 0x10FFFF then
    [UInt8.ofNat (0xF0 ||| (codePoint >>> 18)),
      UInt8.ofNat (0x80 ||| ((codePoint >>> 12) &&& 0x3F)),
      UInt8.ofNat (0x80 ||| ((codePoint >>> 6) &&& 0x3F)),
      UInt8.ofNat (0x80 ||| (codePoint &&& 0x3F))]
  else
    []

/- The lexer has seen to it that the digits are there. -/
def parseHex :
    List UInt8 → Option (Nat × List UInt8)
  | a :: b :: c :: d :: rest =>
      some
        (((hexToNum a * 16 + hexToNum b) * 16 + hexToNum c) * 16 +
            hexToNum d,
          rest)
  | _ => none

/- The low half of a pair, which must follow at once. -/
def lowSurrogate
    (high : Nat) : List UInt8 → Option (Nat × List UInt8)
  | slash :: mark :: rest =>
      if slash = BACKSLASH ∧ mark = 0x75 then
        (parseHex rest).bind
          (fun low =>
            if isLowSurrogate low.1 then
              some (utf16ToCodePoint high low.1, low.2)
            else
              none)
      else
        none
  | _ => none

/- The escape named by the byte after the backslash. -/
def unescapeMark
    (next : UInt8)
    (rest : List UInt8) : Option (Nat × List UInt8) :=
  if next ∈ ascii ['"', '\\', '/'] then
    some (next.toNat, rest)
  else if next ∈ ascii ['b'] then
    some (0x08, rest)
  else if next ∈ ascii ['f'] then
    some (0x0C, rest)
  else if next ∈ ascii ['n'] then
    some (0x0A, rest)
  else if next ∈ ascii ['r'] then
    some (0x0D, rest)
  else if next ∈ ascii ['t'] then
    some (0x09, rest)
  else if next ∈ ascii ['u'] then
    (parseHex rest).bind
      (fun found =>
        if isLowSurrogate found.1 then
          none
        else if isHighSurrogate found.1 then
          lowSurrogate found.1 found.2
        else
          some found)
  else
    none

/- The next code point of a string token. -/
def unescape : List UInt8 → Option (Nat × List UInt8)
  | [] => none
  | ch :: rest =>
      if ch = BACKSLASH then
        match rest with
        | [] => none
        | next :: rest => unescapeMark next rest
      else
        some (ch.toNat, rest)

theorem parseHex_length
    {bytes : List UInt8}
    {found : Nat × List UInt8}
    (hFound : parseHex bytes = some found) :
    found.2.length < bytes.length := by
  unfold parseHex at hFound
  split at hFound
  · cases hFound
    simp only [List.length_cons]
    omega
  · cases hFound

theorem lowSurrogate_length
    {high : Nat}
    {bytes : List UInt8}
    {found : Nat × List UInt8}
    (hFound : lowSurrogate high bytes = some found) :
    found.2.length < bytes.length := by
  unfold lowSurrogate at hFound
  split at hFound
  · rename_i slash mark rest
    by_cases hMark : slash = BACKSLASH ∧ mark = 0x75
    · rw [if_pos hMark] at hFound
      rcases Option.bind_eq_some_iff.mp hFound with
        ⟨low, hLow, hPair⟩
      have hLength := parseHex_length hLow
      by_cases hIs : isLowSurrogate low.1 = true
      · rw [if_pos hIs] at hPair
        cases hPair
        simp only [List.length_cons]
        omega
      · rw [if_neg hIs] at hPair
        cases hPair
    · rw [if_neg hMark] at hFound
      cases hFound
  · cases hFound

/- What is chosen by the first mark that applies. -/
@[elab_as_elim]
theorem of_choice
    {α : Type}
    {motive : α → Prop}
    {mark : Prop} [Decidable mark]
    {own found : α}
    {other : Option α}
    (hFound : (if mark then some own else other) = some found)
    (hOwn : motive own)
    (hOther : other = some found → motive found) :
    motive found := by
  by_cases hMark : mark
  · rw [if_pos hMark] at hFound
    rw [← Option.some.inj hFound]
    exact hOwn
  · rw [if_neg hMark] at hFound
    exact hOther hFound

theorem unescapeMark_length
    {next : UInt8}
    {bytes : List UInt8}
    {found : Nat × List UInt8}
    (hFound : unescapeMark next bytes = some found) :
    found.2.length ≤ bytes.length := by
  unfold unescapeMark at hFound
  refine of_choice hFound (Nat.le_refl _) fun hFound => ?_
  refine of_choice hFound (Nat.le_refl _) fun hFound => ?_
  refine of_choice hFound (Nat.le_refl _) fun hFound => ?_
  refine of_choice hFound (Nat.le_refl _) fun hFound => ?_
  refine of_choice hFound (Nat.le_refl _) fun hFound => ?_
  refine of_choice hFound (Nat.le_refl _) fun hFound => ?_
  by_cases hMark : next ∈ ascii ['u']
  · rw [if_pos hMark] at hFound
    rcases Option.bind_eq_some_iff.mp hFound with
      ⟨hex, hHex, hPair⟩
    have hLength := parseHex_length hHex
    split_ifs at hPair with hLow hHigh
    · have hPairLength := lowSurrogate_length hPair
      omega
    · cases hPair
      omega
  · rw [if_neg hMark] at hFound
    cases hFound

theorem unescape_length
    {bytes : List UInt8}
    {found : Nat × List UInt8}
    (hFound : unescape bytes = some found) :
    found.2.length < bytes.length := by
  unfold unescape at hFound
  split at hFound
  · cases hFound
  · rename_i ch rest
    by_cases hSlash : ch = BACKSLASH
    · rw [if_pos hSlash] at hFound
      split at hFound
      · cases hFound
      · have hLength := unescapeMark_length hFound
        simp only [List.length_cons]
        omega
    · rw [if_neg hSlash] at hFound
      cases hFound
      simp

/- The text between the quotes of a string token. -/
def unescapeStr (bytes : List UInt8) : Option (List UInt8) :=
  if bytes = [] then
    some []
  else
    match _hFound : unescape bytes with
    | none => none
    | some found =>
        (unescapeStr found.2).map
          (fun str => codePointToUtf8 found.1 ++ str)
termination_by bytes.length
decreasing_by exact unescape_length _hFound

end Json

end Ydsh
