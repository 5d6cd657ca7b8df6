import Ydsh.Library.Search
import Ydsh.Object.RegexReplaced

/-
  Splitting, joining and replacing in strings.

  Splitting and replacing are loops of their own over the same
  search.  A replacement that becomes too long for a string is
  an error, while joining knows no limit.

  Main declarations:
    * `string_split`
    * `string_replace`
    * `array_join`
    * `split_replace`
-/

----
-- Strings
----

namespace Ydsh

namespace Builtin

open Library
open RegexObject (Str Bytes ReplaceResult appendAsStr
  appendAsStr_of_le appendAsStr_of_gt afterAppend joined
  joined_cons limited limited_of_le limited_of_gt)

/- `none` is `npos`. -/
def find
    (ref target : Bytes)
    (pos : Nat) : Option Nat :=
  if pos > ref.length then
    none
  else if target.length = 0 then
    some pos
  else
    -- `memmem`
    (search target (ref.drop pos)).map (pos + ·)

/- `startIndex` is inclusive and `stopIndex` exclusive. -/
def sliceStr
    (ref : Bytes)
    (startIndex : Nat)
    (stopIndex : Option Nat) : Bytes :=
  match stopIndex with
  | some stop => (ref.drop startIndex).take (stop - startIndex)
  | none => ref.drop startIndex

/- The loop, for so many rounds. -/
def splitLoop
    (thisStr delimStr : Bytes) :
    Nat → Nat → List Bytes → Option (List Bytes)
  | 0, _, _ => none
  | rounds + 1, pos, ptr =>
      let ret := find thisStr delimStr pos
      let ptr := ptr ++ [sliceStr thisStr pos ret]
      match ret with
      | some ret =>
          splitLoop thisStr delimStr rounds
            (ret + delimStr.length) ptr
      | none => some ptr

def string_split
    (value delim : Str)
    (rounds : Nat) : Option (List Bytes) :=
  if delim.1 = [] then
    some [value.1]
  else
    splitLoop value.1 delim.1 rounds 0 []

/- The loop, for so many rounds. -/
def replaceLoop
    (thisStr delimStr repStr : Bytes) :
    Nat → Nat → Bytes → Option ReplaceResult
  | 0, _, _ => none
  | rounds + 1, pos, buf =>
      let ret := find thisStr delimStr pos
      let value := sliceStr thisStr pos ret
      afterAppend (appendAsStr buf value) fun buf =>
        match ret with
        | some ret =>
            afterAppend (appendAsStr buf repStr) fun buf =>
              replaceLoop thisStr delimStr repStr rounds
                (ret + delimStr.length) buf
        | none => some (.replaced buf)

def string_replace
    (value target rep : Str)
    (rounds : Nat) : Option ReplaceResult :=
  if target.1 = [] then
    some (.replaced value.1)
  else
    replaceLoop value.1 target.1 rep.1 rounds 0 []

----
-- Joining
----

def joinLoop
    (delim : Bytes) : Nat → Bytes → List Bytes → Bytes
  | _, toStrBuf, [] => toStrBuf
  | count, toStrBuf, e :: values =>
      let toStrBuf :=
        if count > 0 then toStrBuf ++ delim else toStrBuf
      joinLoop delim (count + 1) (toStrBuf ++ e) values

/- The method for an array of strings, and the buffer
   afterwards. -/
def array_join
    (toStrBuf : Bytes)
    (values : List Bytes)
    (delim : Bytes) : Option Bytes × Bytes :=
  let hasRet := toStrBuf.isEmpty
  let toStrBuf := joinLoop delim 0 toStrBuf values
  if hasRet then
    (some toStrBuf, [])
  else
    -- dummy
    (none, toStrBuf)

theorem joinLoop_succ
    (delim : Bytes)
    (count : Nat)
    (toStrBuf e : Bytes)
    (values : List Bytes) :
    joinLoop delim count.succ toStrBuf (e :: values) =
      toStrBuf ++ delim ++ joined delim (e :: values) := by
  induction values generalizing count toStrBuf e with
  | nil =>
      simp only [joinLoop, joined]
      rw [if_pos (Nat.succ_pos count)]
  | cons second values ih =>
      have hRest :=
        ih (count + 1) (toStrBuf ++ delim ++ e)
          second
      unfold joinLoop
      simp only
      rw [if_pos (Nat.succ_pos count), hRest,
        joined_cons delim e (List.cons_ne_nil _ _)]
      simp only [List.append_assoc]

/- From an empty buffer. -/
theorem array_join_eq
    (values : List Bytes)
    (delim : Bytes) :
    array_join [] values delim =
      (some (joined delim values), []) := by
  have hLoop :
      joinLoop delim 0 [] values = joined delim values := by
    match values with
    | [] => rfl
    | [e] => rfl
    | e :: second :: values =>
        have hRest := joinLoop_succ delim 0 e second values
        rw [joined_cons delim e (List.cons_ne_nil _ _),
          ← hRest]
        rfl
  unfold array_join
  rw [hLoop]
  rfl

----
-- Pieces
----

variable {delim text : Bytes}
variable {pieces : List Bytes}

theorem find_append
    (hDelim : delim ≠ [])
    (before text : Bytes) :
    find (before ++ text) delim before.length =
      (search delim text).map (before.length + ·) := by
  unfold find
  rw [if_neg, if_neg, List.drop_left]
  · intro hLength
    exact hDelim (List.length_eq_zero_iff.mp hLength)
  · rw [List.length_append]
    omega

/- The delimiter between the pieces. -/
theorem joined_splits
    (hSplits : Splits delim text pieces) :
    joined delim pieces = text := by
  induction hSplits with
  | last => rfl
  | next hFirst hMore ih =>
      rw [joined_cons delim _ hMore.ne_nil, ih]

theorem splitLoop_eq
    (hDelim : delim ≠ [])
    (hSplits : Splits delim text pieces)
    (before : Bytes)
    {rounds : Nat}
    (hRounds : pieces.length ≤ rounds)
    (ptr : List Bytes) :
    splitLoop (before ++ text) delim rounds before.length ptr =
      some (ptr ++ pieces) := by
  induction hSplits generalizing before rounds ptr with
  | @last text hNone =>
      cases rounds with
      | zero => exact absurd hRounds (Nat.not_succ_le_zero _)
      | succ rounds =>
          simp only [splitLoop, find_append hDelim,
            search_eq_none.mpr hNone, Option.map_none,
            sliceStr, List.drop_left]
  | @next front back pieces hFirst _ ih =>
      cases rounds with
      | zero => exact absurd hRounds (Nat.not_succ_le_zero _)
      | succ rounds =>
          rw [List.append_assoc] at hFirst
          have hRest :=
            ih (before ++ front ++ delim)
              (Nat.le_of_succ_le_succ hRounds)
              (ptr ++ [front])
          simp only [List.append_assoc, List.length_append,
            List.singleton_append] at hRest
          simp only [splitLoop, find_append hDelim, hFirst,
            Option.map_some, sliceStr, List.drop_left,
            Nat.add_sub_cancel_left, List.append_assoc,
            List.take_left]
          rw [Nat.add_assoc]
          exact hRest

/- One more append, which may be the one that is too much. -/
theorem afterAppend_limited
    {buf value more : Bytes}
    {next : Bytes → Option ReplaceResult}
    (hValue : value.length ≤ RegexObject.MAX_SIZE)
    (hNext :
      (buf ++ value).length ≤ RegexObject.MAX_SIZE →
        next (buf ++ value) =
          some (limited (buf ++ value ++ more))) :
    afterAppend (appendAsStr buf value) next =
      some (limited (buf ++ value ++ more)) := by
  by_cases hLength :
      (buf ++ value).length ≤ RegexObject.MAX_SIZE
  · rw [appendAsStr_of_le hLength]
    exact hNext hLength
  · have hGt := Nat.lt_of_not_le hLength
    rw [appendAsStr_of_gt hValue hGt, limited_of_gt hGt]
    rfl

theorem replaceLoop_eq
    (hDelim : delim ≠ [])
    (hSplits : Splits delim text pieces)
    {rep : Bytes}
    (hRep : rep.length ≤ RegexObject.MAX_SIZE)
    (before : Bytes)
    (hText : text.length ≤ RegexObject.MAX_SIZE)
    {rounds : Nat}
    (hRounds : pieces.length ≤ rounds)
    (buf : Bytes) :
    replaceLoop (before ++ text) delim rep rounds before.length
        buf =
      some (limited (buf ++ joined rep pieces)) := by
  induction hSplits generalizing before rounds buf with
  | @last text hNone =>
      cases rounds with
      | zero => exact absurd hRounds (Nat.not_succ_le_zero _)
      | succ rounds =>
          have hAppend :=
            @afterAppend_limited buf text []
              (fun buf => some (.replaced buf)) hText
              (fun hLength => by
                rw [List.append_nil, limited_of_le hLength])
          rw [List.append_nil] at hAppend
          simp only [replaceLoop, find_append hDelim,
            search_eq_none.mpr hNone, Option.map_none,
            sliceStr, List.drop_left]
          exact hAppend
  | @next front back pieces hFirst hMore ih =>
      cases rounds with
      | zero => exact absurd hRounds (Nat.not_succ_le_zero _)
      | succ rounds =>
          simp only [List.length_append] at hText
          rw [List.append_assoc] at hFirst
          have hJoined :
              buf ++ joined rep (front :: pieces) =
                buf ++ front ++ (rep ++ joined rep pieces) := by
            rw [joined_cons rep front hMore.ne_nil]
            simp only [List.append_assoc]
          simp only [replaceLoop, find_append hDelim, hFirst,
            Option.map_some, sliceStr, List.drop_left,
            Nat.add_sub_cancel_left, List.append_assoc,
            List.take_left]
          rw [hJoined]
          apply afterAppend_limited (by omega)
          intro _
          rw [← List.append_assoc (buf ++ front)]
          apply afterAppend_limited hRep
          intro _
          have hRest :=
            ih (before ++ front ++ delim)
              (by omega) (Nat.le_of_succ_le_succ hRounds)
              (buf ++ front ++ rep)
          simp only [List.append_assoc, List.length_append]
            at hRest ⊢
          rw [Nat.add_assoc]
          exact hRest

/- Splitting and joining with the delimiter gives the string
   back, no piece has the delimiter in it, and replacing is
   joining with the replacement, unless that is too long for a
   string. -/
theorem split_replace
    (value delim rep : Str)
    (hDelim : delim.1 ≠ []) :
    ∃ (pieces : List Bytes) (text : Bytes) (enough : Nat),
      array_join [] pieces delim.1 = (some value.1, []) ∧
        (∀ piece ∈ pieces, ¬ delim.1 <:+: piece) ∧
        array_join [] pieces rep.1 = (some text, []) ∧
        ∀ rounds, enough ≤ rounds →
          string_split value delim rounds = some pieces ∧
            string_replace value delim rep rounds =
              some (limited text) := by
  rcases Splits.total hDelim value.1 with ⟨pieces, hSplits, _⟩
  refine
    ⟨pieces, joined rep.1 pieces, pieces.length, ?_,
      hSplits.not_infix hDelim, array_join_eq _ _, ?_⟩
  · rw [array_join_eq, joined_splits hSplits]
  · intro rounds hRounds
    have hSplit :=
      splitLoop_eq hDelim hSplits [] hRounds []
    have hReplace :=
      replaceLoop_eq hDelim hSplits rep.2 [] value.2 hRounds []
    constructor
    · unfold string_split
      rw [if_neg hDelim]
      exact hSplit
    · unfold string_replace
      rw [if_neg hDelim]
      exact hReplace

theorem letter_length :
    ([0x61] : Bytes).length ≤ RegexObject.MAX_SIZE := by
  decide

def letter : Str :=
  ⟨[0x61], letter_length⟩

def letters : Str :=
  ⟨[0x61, 0x61], by decide⟩

theorem split_replace_letters :
    ∃ (pieces : List Bytes) (text : Bytes) (enough : Nat),
      array_join [] pieces letter.1 = (some letters.1, []) ∧
        (∀ piece ∈ pieces, ¬ letter.1 <:+: piece) ∧
        array_join [] pieces letters.1 = (some text, []) ∧
        ∀ rounds, enough ≤ rounds →
          string_split letters letter rounds = some pieces ∧
            string_replace letters letter letters rounds =
              some (limited text) :=
  split_replace letters letter letters (by decide)

/- Replacing is joining with the replacement. -/
def Same (value delim rep : Str) : Prop :=
  ∃ (pieces : List Bytes) (text : Bytes) (enough : Nat),
    array_join [] pieces rep.1 = (some text, []) ∧
      ∀ rounds, enough ≤ rounds →
        string_split value delim rounds = some pieces ∧
          string_replace value delim rep rounds =
            some (.replaced text)

/- Two letters are replaced by texts too long for both. -/
theorem string_replace_letters
    (rep : Str)
    (hRep : RegexObject.MAX_SIZE ≤ rep.1.length)
    (rounds : Nat) :
    string_replace letters letter rep (rounds + 3) =
      some (.raised RegexObject.raiseSizeLimit) := by
  have hSplit : Splits letter.1 letter.1 [[], []] :=
    @Splits.next _ _ letter.1 [] [] [[]] (by decide)
      (.last (by decide))
  have hSplits : Splits letter.1 letters.1 [[], [], []] :=
    @Splits.next _ _ letter.1 [] letter.1 _ (by decide) hSplit
  have hDelim : letter.1 ≠ [] := by
    decide
  have hLoop :=
    replaceLoop_eq hDelim hSplits rep.2 [] letters.2
      (show 3 ≤ rounds + 3 from Nat.le_add_left 3 rounds) []
  have hText : joined rep.1 [[], [], []] = rep.1 ++ rep.1 := by
    simp [joined]
  have hLong :
      ¬ (rep.1 ++ rep.1).length ≤ RegexObject.MAX_SIZE := by
    have hPos : 0 < RegexObject.MAX_SIZE := by
      decide
    rw [List.length_append]
    omega
  unfold string_replace
  rw [if_neg hDelim]
  rw [List.nil_append, hText] at hLoop
  exact hLoop.trans (congrArg some (if_neg hLong))

/- As long as a string can be. -/
def longest : Str :=
  ⟨List.replicate RegexObject.MAX_SIZE 0x62,
    Nat.le_of_eq List.length_replicate⟩

theorem length_longest :
    RegexObject.MAX_SIZE ≤ longest.1.length :=
  Nat.le_of_eq List.length_replicate.symm

theorem not_same : ¬ Same letters letter longest := by
  rintro ⟨_, _, enough, _, hAll⟩
  have hSame := (hAll (enough + 3) (Nat.le_add_right _ _)).2
  rw [string_replace_letters longest length_longest] at hSame
  cases hSame

end Builtin

end Ydsh
