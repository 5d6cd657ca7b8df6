import Ydsh.Library.ShortOptions

/-
  The option parser of the builtin commands.

  A call reports one option.  Until a cluster of options has
  been read, its argument stays the next one.

  Main declarations:
    * `GetOptState`
    * `parseOption`
    * `next`
    * `Conforms`
    * `getOpt_conforms`
-/

----
-- One Call
----

namespace Ydsh

namespace Opt

open Library.ShortOptions

abbrev Bytes := List UInt8

abbrev hyphen : UInt8 := 0x2D
abbrev colon : UInt8 := 0x3A
abbrev question : UInt8 := 0x3F

/- A `char` is signed when it becomes an `int`. -/
def charToInt (c : UInt8) : Int :=
  if c < 0x80 then c.toNat else c.toNat - 0x100

/- A reference that is null is empty in `nextChar`, where
nothing tells the two apart, and `none` in `optArg`. -/
structure State where
  nextChar : Bytes
  optArg : Option Bytes
  optOpt : UInt8

/- `strchr`: a null pointer is the empty list. -/
def find
    (ref : Bytes)
    (ch : UInt8) : Bytes :=
  ref.dropWhile (fun x => x ≠ ch)

/- `*ptr`, where a string ends with a null character. -/
def deref (ptr : Bytes) : UInt8 :=
  ptr.headD 0

/- `opt::GetOptState::operator()`, with the arguments from
`begin` to `end` before and after. -/
def parseOption
    (nextChar : Bytes)
    (optStr : Bytes) :
    List Bytes → Int × State × List Bytes
  | [] => (-1, ⟨[], none, 0⟩, [])
  | arg :: rest =>
      if arg.head? ≠ some hyphen ∨ arg = [hyphen] then
        (-1, ⟨[], none, 0⟩, arg :: rest)
      else if arg = [hyphen, hyphen] then
        (-1, ⟨[], none, 0⟩, rest)
      else
        let nextChar :=
          if nextChar = [] then arg.tail else nextChar
        let ch := deref nextChar
        let ptr := find optStr ch
        if ptr ≠ [] ∧ deref ptr ≠ colon then
          if deref ptr.tail = colon then
            let optArg := nextChar.tail
            if optArg = [] then
              if deref ptr.tail.tail ≠ colon then
                match rest with
                | [] =>
                    (charToInt
                        (if deref optStr = colon then colon
                          else question),
                      ⟨[], none, deref ptr⟩, [])
                | arg :: rest =>
                    (charToInt (deref ptr), ⟨[], some arg, 0⟩,
                      rest)
              else
                (charToInt (deref ptr), ⟨[], none, 0⟩, rest)
            else
              (charToInt (deref ptr), ⟨[], some optArg, 0⟩,
                rest)
          else
            (charToInt (deref ptr), ⟨nextChar.tail, none, 0⟩,
              if nextChar.tail = [] then rest
              else arg :: rest)
        else
          (charToInt question, ⟨nextChar, none, ch⟩,
            arg :: rest)

/- The state of a builtin command with its arguments. -/
structure GetOptState extends State where
  index : Nat

/- `GetOptState::operator()` -/
def next
    (obj : List Bytes)
    (optStr : Bytes)
    (st : GetOptState) : Int × GetOptState :=
  let r := parseOption st.nextChar optStr (obj.drop st.index)
  (r.1, ⟨r.2.1, obj.length - r.2.2.length⟩)

/- `GetOptState optState(index)` -/
def init (index : Nat) : GetOptState :=
  ⟨⟨[], none, 0⟩, index⟩

----
-- What the Calls Shall Say
----

/- The options of a command line and its operands. -/
def reference
    (optStr : Bytes)
    (args : List Bytes) :
    List (Event UInt8) × List Bytes :=
  getopts hyphen (fun c => arityIn colon c optStr) [] args

/- What a call returns and stores for an event. -/
def report
    (optStr : Bytes) :
    Event UInt8 → Int × Option Bytes × UInt8
  | .option c arg => (charToInt c, arg, 0)
  | .missing c =>
      (charToInt
          (if deref optStr = colon then colon else question),
        none, c)
  | .unknown c => (charToInt question, none, c)

/- What has not been read, with the ends of the arguments. -/
def unread
    (nextChar : Bytes)
    (args : List Bytes) : Nat :=
  if nextChar = [] then args.flatten.length + args.length
  else nextChar.length + args.tail.flatten.length + args.length

/-
  The calls from a state report some events one by one, and
  each of them leaves less to be read.
-/
def Yields
    (obj : List Bytes)
    (optStr : Bytes)
    (done : GetOptState → Prop) :
    GetOptState → List (Event UInt8) → Prop
  | st, [] => done st
  | st, event :: events =>
      let r := next obj optStr st
      (r.1, r.2.optArg, r.2.optOpt) = report optStr event ∧
        unread r.2.nextChar (obj.drop r.2.index) <
          unread st.nextChar (obj.drop st.index) ∧
        Yields obj optStr done r.2 events

/- The next call reports the end, with the operands left. -/
def Ends
    (obj : List Bytes)
    (optStr : Bytes)
    (operands : List Bytes)
    (st : GetOptState) : Prop :=
  (next obj optStr st).1 = -1 ∧
    (next obj optStr st).2.index =
      obj.length - operands.length

/-
  The next call and each one after it report the same unknown
  option, and stay at the argument that has it.
-/
def Stays
    (obj : List Bytes)
    (optStr : Bytes)
    (event : Event UInt8)
    (st : GetOptState) : Prop :=
  let r := next obj optStr st
  (r.1, r.2.optArg, r.2.optOpt) = report optStr event ∧
    next obj optStr r.2 = r ∧
    ∃ arg front,
      obj[r.2.index]? = some arg ∧
        arg = front ++ r.2.nextChar ∧
        r.2.nextChar.head? = some r.2.optOpt

/- What the calls say is what the command line says. -/
def Conforms
    (optStr : Bytes)
    (skipped args : List Bytes) : Prop :=
  Yields (skipped ++ args) optStr
    (Ends (skipped ++ args) optStr (reference optStr args).2)
    (init skipped.length)
    (reference optStr args).1

/- What the calls say up to the first unknown option. -/
def ConformsToUnknown
    (obj : List Bytes)
    (optStr : Bytes)
    (said : List (Event UInt8) × List Bytes)
    (st : GetOptState) : Prop :=
  Yields obj optStr
    (fun st =>
      match said.1.dropWhile (fun event => !event.isUnknown) with
      | [] => Ends obj optStr said.2 st
      | event :: _ => Stays obj optStr event st)
    st
    (said.1.takeWhile (fun event => !event.isUnknown))

----
-- Letters
----

theorem colon_ne_zero : (0 : UInt8) ≠ colon := by
  decide

@[simp] theorem deref_cons
    (x : UInt8)
    (ptr : Bytes) :
    deref (x :: ptr) = x :=
  rfl

theorem arityOf_eq (ptr : Bytes) :
    arityOf colon ptr =
      if deref ptr = colon then
        if deref ptr.tail = colon then .optional
        else .required
      else
        .flag := by
  cases ptr with
  | nil => rfl
  | cons x rest =>
      cases rest with
      | nil =>
          by_cases hColon : x = colon
          · simp [arityOf, deref, hColon, colon_ne_zero]
          · simp [arityOf, deref, hColon]
      | cons y rest => rfl

/- A letter that is not found is no option. -/
theorem arityIn_of_find_nil
    {optStr : Bytes}
    {ch : UInt8}
    (hFind : find optStr ch = []) :
    arityIn colon ch optStr = none := by
  unfold find at hFind
  rw [arityIn_eq, hFind]

/- A pointer to a letter that is found points to it, and the
arity of the letter stands behind it. -/
theorem find_cons
    {optStr : Bytes}
    {ch x : UInt8}
    {rest : Bytes}
    (hFind : find optStr ch = x :: rest) :
    x = ch ∧
      arityIn colon ch optStr =
        if ch = colon then none
        else some (arityOf colon rest) := by
  unfold find at hFind
  constructor
  · have hHead :=
      List.head?_dropWhile_not (fun x => decide (x ≠ ch))
        optStr
    rw [hFind] at hHead
    simpa using hHead
  · rw [arityIn_eq, hFind]

theorem cluster_eq
    {arg full : Bytes}
    (hWord : wordOf hyphen arg = .cluster full) :
    arg = hyphen :: full ∧ full ≠ [] ∧ full ≠ [hyphen] := by
  cases arg with
  | nil => simp [wordOf] at hWord
  | cons x rest =>
      simp only [wordOf] at hWord
      by_cases hHyphen : x = hyphen
      · rw [if_pos hHyphen] at hWord
        by_cases hNil : rest = []
        · simp [hNil] at hWord
        · by_cases hTwo : rest = [hyphen]
          · simp [hTwo] at hWord
          · simp only [if_neg hNil, if_neg hTwo,
              Word.cluster.injEq] at hWord
            subst hWord
            exact ⟨by rw [hHyphen], hNil, hTwo⟩
      · simp [hHyphen] at hWord

/- A cluster that has not been begun is begun. -/
theorem parseOption_fresh
    {arg full : Bytes}
    (hWord : wordOf hyphen arg = .cluster full)
    (optStr : Bytes)
    (words : List Bytes) :
    parseOption [] optStr (arg :: words) =
      parseOption full optStr (arg :: words) := by
  rcases cluster_eq hWord with ⟨rfl, hNil, _⟩
  simp [parseOption, hNil]

/- A call inside a cluster reports its next letter. -/
theorem parseOption_letter
    {arg full : Bytes}
    (hWord : wordOf hyphen arg = .cluster full)
    (optStr : Bytes)
    (c : UInt8)
    (letters : Bytes)
    (words : List Bytes) :
    parseOption (c :: letters) optStr (arg :: words) =
      match arityIn colon c optStr with
      | none =>
          (charToInt question, ⟨c :: letters, none, c⟩,
            arg :: words)
      | some .flag =>
          (charToInt c, ⟨letters, none, 0⟩,
            if letters = [] then words else arg :: words)
      | some .optional =>
          (charToInt c,
            ⟨[], if letters = [] then none else some letters,
              0⟩, words)
      | some .required =>
          if letters = [] then
            match words with
            | [] =>
                (charToInt
                    (if deref optStr = colon then colon
                      else question),
                  ⟨[], none, c⟩, [])
            | word :: rest =>
                (charToInt c, ⟨[], some word, 0⟩, rest)
          else
            (charToInt c, ⟨[], some letters, 0⟩, words) := by
  rcases cluster_eq hWord with ⟨rfl, hNil, hTwo⟩
  have hHead : ¬ ((hyphen :: full).head? ≠ some hyphen ∨
      hyphen :: full = [hyphen]) := by
    simp [hNil]
  have hTwo : hyphen :: full ≠ [hyphen, hyphen] := by
    simpa using hTwo
  simp only [parseOption, if_neg hHead, if_neg hTwo,
    if_neg (List.cons_ne_nil c letters), List.tail_cons]
  cases hFind : find optStr c with
  | nil =>
      rw [arityIn_of_find_nil hFind]
      simp [hFind]
  | cons x ptr =>
      rcases find_cons hFind with ⟨rfl, hArity⟩
      simp only [deref_cons, hFind, List.tail_cons]
      rw [hArity, arityOf_eq]
      by_cases hColon : x = colon
      · simp [hColon]
      · rw [if_neg hColon, if_pos ⟨List.cons_ne_nil _ _, hColon⟩]
        by_cases hTakes : deref ptr = colon
        · by_cases hOptional : deref ptr.tail = colon
          · by_cases hAttached : letters = []
            · simp [hTakes, hOptional, hAttached]
            · simp [hTakes, hOptional, hAttached]
          · simp only [if_pos hTakes, if_neg hOptional,
              if_pos (Ne.intro hOptional)]
        · simp only [if_neg hTakes]

----
-- Runs
----

variable {obj : List Bytes}
variable {optStr : Bytes}

theorem drop_index
    {iter : List Bytes}
    (hSuffix : iter <:+ obj) :
    obj.drop (obj.length - iter.length) = iter :=
  (List.suffix_iff_eq_drop.mp hSuffix).symm

/-
  A cluster is being read: some letters of it are left, and
  they are stored unless the cluster has just been reached.
-/
structure Inside
    (nextChar : Bytes)
    (begin : List Bytes)
    (arg front letters : Bytes)
    (words : List Bytes) : Prop where
  word : wordOf hyphen arg = .cluster (front ++ letters)
  begin_eq : begin = arg :: words
  stored : nextChar = letters ∨ (nextChar = [] ∧ front = [])

/- Where the calls are in the command line. -/
def Reading
    (nextChar : Bytes)
    (begin : List Bytes)
    (letters : Bytes)
    (words : List Bytes) : Prop :=
  if letters = [] then
    nextChar = [] ∧ begin = words
  else
    ∃ arg front, Inside nextChar begin arg front letters words

theorem Inside.parseOption_eq
    {nextChar : Bytes}
    {begin words : List Bytes}
    {arg front letters : Bytes}
    (hInside : Inside nextChar begin arg front letters words)
    (optStr : Bytes) :
    parseOption nextChar optStr begin =
      parseOption letters optStr (arg :: words) := by
  rw [hInside.begin_eq]
  rcases hInside.stored with hStored | ⟨hNil, hFront⟩
  · rw [hStored]
  · have hWord := hInside.word
    rw [hFront, List.nil_append] at hWord
    rw [hNil, parseOption_fresh hWord]

theorem Inside.le_unread
    {nextChar : Bytes}
    {begin words : List Bytes}
    {arg front letters : Bytes}
    (hInside : Inside nextChar begin arg front letters words) :
    letters.length + words.flatten.length + words.length + 1 ≤
      unread nextChar begin := by
  have hLength :
      arg.length = front.length + letters.length + 1 := by
    rw [(cluster_eq hInside.word).1]
    simp
  rw [hInside.begin_eq]
  unfold unread
  rcases hInside.stored with hStored | ⟨hNil, _⟩
  · by_cases hNil : nextChar = []
    · rw [if_pos hNil]
      simp only [List.flatten_cons, List.length_append,
        List.length_cons]
      omega
    · rw [if_neg hNil, hStored]
      simp only [List.tail_cons, List.length_cons]
      omega
  · rw [if_pos hNil]
    simp only [List.flatten_cons, List.length_append,
      List.length_cons]
    omega

/- The rest of a cluster is inside it. -/
theorem Inside.tail
    {nextChar : Bytes}
    {begin words : List Bytes}
    {arg front letters : Bytes}
    {c : UInt8}
    (hInside :
      Inside nextChar begin arg front (c :: letters) words) :
    Inside letters (arg :: words) arg (front ++ [c]) letters
      words where
  word := by
    rw [List.append_assoc, List.singleton_append]
    exact hInside.word
  begin_eq := rfl
  stored := Or.inl rfl

theorem unread_nil
    (words : List Bytes) :
    unread [] words = words.flatten.length + words.length :=
  rfl

/- A call that reports what is said is followed by the calls
for what is said next. -/
theorem ConformsToUnknown.cons
    {event : Event UInt8}
    {more : List (Event UInt8) × List Bytes}
    {st : GetOptState}
    (hKnown : event.isUnknown = false)
    (hReport :
      ((next obj optStr st).1, (next obj optStr st).2.optArg,
        (next obj optStr st).2.optOpt) = report optStr event)
    (hUnread :
      unread (next obj optStr st).2.nextChar
          (obj.drop (next obj optStr st).2.index) <
        unread st.nextChar (obj.drop st.index))
    (hMore :
      ConformsToUnknown obj optStr more
        (next obj optStr st).2) :
    ConformsToUnknown obj optStr (event :: more.1, more.2)
      st := by
  unfold ConformsToUnknown
  rw [List.takeWhile_cons_of_pos (by simp [hKnown]),
    List.dropWhile_cons_of_pos (by simp [hKnown])]
  exact ⟨hReport, hUnread, hMore⟩

/- A call for a letter leads to the state with the arguments
that it leaves. -/
theorem next_of_parseOption
    {st : GetOptState}
    {ret : Int}
    {state : State}
    {iter : List Bytes}
    (hParse :
      parseOption st.nextChar optStr (obj.drop st.index) =
        (ret, state, iter))
    (hSuffix : iter <:+ obj) :
    next obj optStr st =
        (ret, ⟨state, obj.length - iter.length⟩) ∧
      obj.drop (next obj optStr st).2.index = iter := by
  have hNext :
      next obj optStr st =
        (ret, ⟨state, obj.length - iter.length⟩) := by
    unfold next
    rw [hParse]
  exact ⟨hNext, by rw [hNext]; exact drop_index hSuffix⟩

/- The calls in some place of a command line conform to what
it says from there on. -/
def Good
    (obj : List Bytes)
    (optStr : Bytes)
    (letters : Bytes)
    (words : List Bytes)
    (said : List (Event UInt8) × List Bytes) : Prop :=
  ∀ st : GetOptState,
    Reading st.nextChar (obj.drop st.index) letters words →
      ConformsToUnknown obj optStr said st

/-
  A letter that is reported is followed by what is said next.
  What is left after the call may depend on the argument that
  the letter stands in.
-/
theorem good_letter
    {c : UInt8}
    {letters more : Bytes}
    {words rest : List Bytes}
    {event : Event UInt8}
    {said : List (Event UInt8) × List Bytes}
    (state : State)
    (iter : Bytes → List Bytes)
    (hKnown : event.isUnknown = false)
    (hParse :
      ∀ arg full,
        wordOf hyphen arg = .cluster full →
          parseOption (c :: letters) optStr (arg :: words) =
            ((report optStr event).1, state, iter arg))
    (hStored :
      (state.optArg, state.optOpt) = (report optStr event).2)
    (hIter : ∀ arg, iter arg <:+ arg :: words)
    (hUnread :
      ∀ arg,
        unread state.nextChar (iter arg) <
          letters.length + words.flatten.length +
            words.length + 2)
    (hReading :
      ∀ arg front,
        Inside (c :: letters) (arg :: words) arg front
            (c :: letters) words →
          Reading state.nextChar (iter arg) more rest)
    (hMore : Good obj optStr more rest said) :
    Good obj optStr (c :: letters) words
      (event :: said.1, said.2) := by
  intro st hSt
  unfold Reading at hSt
  rw [if_neg (List.cons_ne_nil c letters)] at hSt
  rcases hSt with ⟨arg, front, hInside⟩
  have hLe := hInside.le_unread
  rw [List.length_cons] at hLe
  have hLetter :=
    (hInside.parseOption_eq optStr).trans
      (hParse arg _ hInside.word)
  have hSuffix : iter arg <:+ obj := by
    apply (hIter arg).trans
    rw [← hInside.begin_eq]
    exact List.drop_suffix _ _
  rcases next_of_parseOption hLetter hSuffix with
    ⟨hNext, hDrop⟩
  apply ConformsToUnknown.cons hKnown
  · rw [hNext]
    exact Prod.ext rfl hStored
  · rw [hDrop, hNext]
    exact Nat.lt_of_lt_of_le (hUnread arg) (by omega)
  · apply hMore
    rw [hDrop, hNext]
    exact
      hReading arg front ⟨hInside.word, rfl, Or.inl rfl⟩

/- The words that are left are read from their start. -/
theorem reading_words (words : List Bytes) :
    Reading [] words [] words := by
  unfold Reading
  exact ⟨rfl, rfl⟩

theorem good_flag
    {c : UInt8}
    {letters : Bytes}
    {words : List Bytes}
    {said : List (Event UInt8) × List Bytes}
    (hArity : arityIn colon c optStr = some .flag)
    (hMore : Good obj optStr letters words said) :
    Good obj optStr (c :: letters) words
      (.option c none :: said.1, said.2) := by
  apply
    good_letter ⟨letters, none, 0⟩
      (fun arg => if letters = [] then words else arg :: words)
      _ _ _ _ _ _ hMore
  · rfl
  · intro arg full hWord
    rw [parseOption_letter hWord, hArity]
    rfl
  · rfl
  · intro arg
    by_cases hNil : letters = []
    · simp [hNil]
    · simp [hNil]
  · intro arg
    by_cases hNil : letters = []
    · simp only [hNil, if_true, unread_nil]
      omega
    · simp only [hNil, if_false, unread, List.tail_cons,
        List.length_cons]
      omega
  · intro arg front hInside
    unfold Reading
    by_cases hNil : letters = []
    · simp [hNil]
    · rw [if_neg hNil, if_neg hNil]
      exact ⟨arg, _, hInside.tail⟩

theorem unread_suffix
    {rest words : List Bytes}
    (hRest : rest <:+ words) :
    unread [] rest ≤ words.flatten.length + words.length := by
  rcases hRest with ⟨front, rfl⟩
  rw [unread_nil]
  simp only [List.flatten_append, List.length_append]
  omega

/- A letter that takes an argument is the last of its
cluster. -/
theorem good_last
    {c : UInt8}
    {letters : Bytes}
    {words rest : List Bytes}
    {event : Event UInt8}
    {said : List (Event UInt8) × List Bytes}
    (hKnown : event.isUnknown = false)
    (hParse :
      ∀ arg full,
        wordOf hyphen arg = .cluster full →
          parseOption (c :: letters) optStr (arg :: words) =
            ((report optStr event).1,
              ⟨[], (report optStr event).2.1,
                (report optStr event).2.2⟩, rest))
    (hRest : rest <:+ words)
    (hMore : Good obj optStr [] rest said) :
    Good obj optStr (c :: letters) words
      (event :: said.1, said.2) := by
  apply good_letter _ (fun _ => rest) hKnown hParse _ _ _ _ hMore
  · rfl
  · exact fun arg => hRest.trans (List.suffix_cons arg words)
  · intro arg
    have hLe := unread_suffix hRest
    show unread [] rest < _
    omega
  · intro arg front hInside
    exact reading_words rest

theorem good_optional
    {c : UInt8}
    {letters : Bytes}
    {words : List Bytes}
    {said : List (Event UInt8) × List Bytes}
    (hArity : arityIn colon c optStr = some .optional)
    (hMore : Good obj optStr [] words said) :
    Good obj optStr (c :: letters) words
      (.option c (if letters = [] then none else some letters)
        :: said.1, said.2) := by
  apply good_last rfl _ List.suffix_rfl hMore
  intro arg full hWord
  rw [parseOption_letter hWord, hArity]
  rfl

theorem good_attached
    {c : UInt8}
    {letters : Bytes}
    {words : List Bytes}
    {said : List (Event UInt8) × List Bytes}
    (hArity : arityIn colon c optStr = some .required)
    (hLetters : letters ≠ [])
    (hMore : Good obj optStr [] words said) :
    Good obj optStr (c :: letters) words
      (.option c (some letters) :: said.1, said.2) := by
  apply good_last rfl _ List.suffix_rfl hMore
  intro arg full hWord
  rw [parseOption_letter hWord, hArity]
  exact if_neg hLetters

theorem good_separate
    {c : UInt8}
    {word : Bytes}
    {rest : List Bytes}
    {said : List (Event UInt8) × List Bytes}
    (hArity : arityIn colon c optStr = some .required)
    (hMore : Good obj optStr [] rest said) :
    Good obj optStr [c] (word :: rest)
      (.option c (some word) :: said.1, said.2) := by
  apply good_last rfl _ (List.suffix_cons word rest) hMore
  intro arg full hWord
  rw [parseOption_letter hWord, hArity]
  rfl

/- Where nothing is left, the end is reported. -/
theorem good_nil : Good obj optStr [] [] ([], []) := by
  intro st hSt
  rcases hSt with ⟨hNil, hDrop⟩
  have hParse :
      parseOption st.nextChar optStr (obj.drop st.index) =
        (-1, ⟨[], none, 0⟩, []) := by
    rw [hNil, hDrop]
    rfl
  rcases next_of_parseOption hParse (List.nil_suffix) with
    ⟨hNext, _⟩
  show Ends obj optStr [] st
  unfold Ends
  rw [hNext]
  exact ⟨rfl, rfl⟩

theorem good_missing
    {c : UInt8}
    (hArity : arityIn colon c optStr = some .required) :
    Good obj optStr [c] [] ([.missing c], []) := by
  apply good_last rfl _ List.suffix_rfl good_nil
  intro arg full hWord
  rw [parseOption_letter hWord, hArity]
  rfl

/- An operand is where the options end, and a separator is
skipped there. -/
theorem good_end
    {word : Bytes}
    {rest operands : List Bytes}
    (hParse :
      parseOption [] optStr (word :: rest) =
        (-1, ⟨[], none, 0⟩, operands))
    (hOperands : operands <:+ word :: rest) :
    Good obj optStr [] (word :: rest) ([], operands) := by
  intro st hSt
  rcases hSt with ⟨hNil, hDrop⟩
  rw [← hNil, ← hDrop] at hParse
  have hSuffix : operands <:+ obj := by
    apply hOperands.trans
    rw [← hDrop]
    exact List.drop_suffix _ _
  rcases next_of_parseOption hParse hSuffix with ⟨hNext, _⟩
  show Ends obj optStr operands st
  unfold Ends
  rw [hNext]
  exact ⟨rfl, rfl⟩

theorem good_operand
    {word : Bytes}
    (rest : List Bytes)
    (hWord : wordOf hyphen word = .operand) :
    Good obj optStr [] (word :: rest) ([], word :: rest) := by
  apply good_end _ List.suffix_rfl
  cases word with
  | nil => rfl
  | cons x letters =>
      simp only [wordOf] at hWord
      by_cases hHyphen : x = hyphen
      · by_cases hNil : letters = []
        · simp [parseOption, hHyphen, hNil]
        · rw [if_pos hHyphen, if_neg hNil] at hWord
          split_ifs at hWord
      · simp [parseOption, hHyphen]

theorem good_separator
    {word : Bytes}
    (rest : List Bytes)
    (hWord : wordOf hyphen word = .separator) :
    Good obj optStr [] (word :: rest) ([], rest) := by
  apply good_end _ (List.suffix_cons word rest)
  cases word with
  | nil => simp [wordOf] at hWord
  | cons x letters =>
      simp only [wordOf] at hWord
      split_ifs at hWord with hHyphen hNil hTwo
      simp [parseOption, hHyphen, hTwo]

/- The letters of an argument are read once it is reached. -/
theorem good_cluster
    {word letters : Bytes}
    {rest : List Bytes}
    {said : List (Event UInt8) × List Bytes}
    (hWord : wordOf hyphen word = .cluster letters)
    (hMore : Good obj optStr letters rest said) :
    Good obj optStr [] (word :: rest) said := by
  intro st hSt
  rcases hSt with ⟨hNil, hDrop⟩
  apply hMore
  unfold Reading
  rw [if_neg (cluster_eq hWord).2.1]
  exact ⟨word, [], hWord, hDrop, Or.inr ⟨hNil, rfl⟩⟩

/- An unknown option is reported again and again. -/
theorem good_unknown
    {c : UInt8}
    {letters : Bytes}
    {words : List Bytes}
    {said : List (Event UInt8) × List Bytes}
    (hArity : arityIn colon c optStr = none) :
    Good obj optStr (c :: letters) words
      (.unknown c :: said.1, said.2) := by
  intro st hSt
  unfold Reading at hSt
  rw [if_neg (List.cons_ne_nil c letters)] at hSt
  rcases hSt with ⟨arg, front, hInside⟩
  have hLetter := parseOption_letter hInside.word optStr c
    letters words
  rw [hArity] at hLetter
  have hDrop := hInside.begin_eq
  have hSuffix : arg :: words <:+ obj := by
    rw [← hDrop]
    exact List.drop_suffix _ _
  rcases
    next_of_parseOption
      ((hInside.parseOption_eq optStr).trans hLetter)
      hSuffix with ⟨hNext, hDropNext⟩
  have hAgain :
      next obj optStr (next obj optStr st).2 =
        next obj optStr st := by
    rw [hNext] at hDropNext ⊢
    apply (next_of_parseOption _ hSuffix).1
    rw [hDropNext]
    exact hLetter
  show Stays obj optStr (.unknown c) st
  refine ⟨?_, hAgain, arg, hyphen :: front, ?_, ?_, ?_⟩
  · rw [hNext]
    rfl
  · rw [← List.head?_drop, hDropNext]
    rfl
  · rw [hNext, (cluster_eq hInside.word).1]
    rfl
  · rw [hNext]
    rfl

theorem good_getopts
    (obj : List Bytes)
    (optStr : Bytes)
    (letters : Bytes)
    (words : List Bytes) :
    Good obj optStr letters words
      (getopts hyphen (fun c => arityIn colon c optStr) letters
        words) := by
  fun_induction getopts hyphen
    (fun c => arityIn colon c optStr) letters words
  case case1 => exact good_nil
  case case2 word rest hWord => exact good_operand _ hWord
  case case3 word rest hWord => exact good_separator _ hWord
  case case4 word rest letters hWord ih =>
      exact good_cluster hWord ih
  case case5 words c letters hArity more ih =>
      exact good_unknown hArity
  case case6 words c letters hArity more ih =>
      exact good_flag hArity ih
  case case7 words c letters hArity arg more ih =>
      exact good_optional hArity ih
  case case8 c hArity => exact good_missing hArity
  case case9 c hArity word rest more ih =>
      exact good_separate hArity ih
  case case10 words c letters hArity hLetters more ih =>
      exact good_attached hArity hLetters ih

/-
  The calls report the options of the command line in order,
  with their arguments, and end at its operands.  An unknown
  option is where they stay.
-/
theorem getOpt_conforms
    (optStr : Bytes)
    (skipped args : List Bytes) :
    ConformsToUnknown (skipped ++ args) optStr
      (reference optStr args) (init skipped.length) := by
  apply good_getopts
  unfold init
  rw [List.drop_left]
  exact reading_words args

theorem reference_unknown :
    reference [0x61] [[hyphen, 0x62, 0x61]] =
      ([.unknown 0x62, .option 0x61 none], []) := by
  have hColon : (0x61 : UInt8) ≠ colon := by
    decide
  simp [reference, getopts, wordOf, arityIn, arityOf, hColon]

/- An unknown option is not passed, though another option
stands behind it. -/
theorem stays_at_unknown :
    ¬ ∀ optStr skipped args, Conforms optStr skipped args := by
  intro hAll
  have hYields := hAll [0x61] [[]] [[hyphen, 0x62, 0x61]]
  unfold Conforms at hYields
  rw [reference_unknown] at hYields
  rcases hYields with ⟨_, _, _, hUnread, _⟩
  exact absurd hUnread (by decide)

end Opt

end Ydsh
