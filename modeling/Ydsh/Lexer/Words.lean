import Ydsh.Lexer.Tracking

/-
  The words that the lexer reads.

  The name of a command, and a part of one of its arguments,
  are each what one rule matches, as long as no other rule
  matches more.

  Main declarations:
    * `toCmdArg`
    * `Word`
    * `Place`
    * `Place.Before.read_iff`
    * `read_back_iff`
-/

----
-- Reading
----

namespace Ydsh

namespace Words

open Lexing
open Library.LongestMatch
open Library.LongestMatch.Pattern

abbrev BACKSLASH : UInt8 := 0x5C

/- The loop of `toCmdArg`, of so many bytes.  Behind a backslash
at the end, the buffer is read on. -/
def toCmdArgFrom : Nat → List UInt8 → List UInt8
  | 0, _ => []
  | _, [] => []
  | _ + 1, [ch] => if ch = BACKSLASH then [] else [ch]
  | count + 1, ch :: nextCh :: rest =>
      if ch = BACKSLASH then
        if nextCh = 0x0A ∨ nextCh = 0x0D then
          toCmdArgFrom (count - 1) rest
        else nextCh :: toCmdArgFrom (count - 1) rest
      else ch :: toCmdArgFrom count (nextCh :: rest)

def toCmdArg (lexer : Lexer) (token : Token) : List UInt8 :=
  toCmdArgFrom token.size (lexer.buf.drop token.pos)

----
-- Words
----

/- What stands behind a word: a blank, a newline, or an
operator that no token with a word in it ends with. -/
def wordEnds : List UInt8 :=
  bytes " \t\r\n;|&)"

/-
  A word of the lexer: what it may begin with, and what ends
  it.  Any other byte is quoted by a backslash.
-/
structure Word where
  starts : List UInt8
  stops : List UInt8
  slash : stops.contains BACKSLASH = true
  subset : (stops.all starts.contains) = true
  ends : (wordEnds.all stops.contains) = true

def commandWord : Word where
  starts :=
    bytes
      " \t\r\n\\;=\x27\x22\x60|&<>()\x7b\x7d$#[]!+-0123456789\x00"
  stops :=
    bytes
      " \t\r\n\\;=\x27\x22\x60|&<>()\x7b\x7d$\x00"
  slash := by decide
  subset := by decide
  ends := by decide

def argumentWord : Word where
  starts := bytes " \t\r\n\\;:\x27\x22\x60|&<>()$?*#\x00"
  stops := bytes " \t\r\n\\;:\x27\x22\x60|&<>()$?*\x00"
  slash := by decide
  subset := by decide
  ends := by decide

/- A quoted byte or a plain one. -/
def quotedOr (quoted plain : List UInt8) : Pat :=
  oneOf [row [text "\\", except quoted], except plain]

def Word.pattern (word : Word) : Pat :=
  row
    [quotedOr (bytes "\r\n\x00") word.starts,
      .star (quotedOr (bytes "\x00") word.stops)]

namespace Word

def begins (word : Word) : List UInt8 → Bool
  | [] => false
  | [ch] => !word.starts.contains ch
  | ch :: next :: _ =>
      if ch = BACKSLASH then !(bytes "\r\n\x00").contains next
      else !word.starts.contains ch

/- From the left, each byte is plain, or a backslash that
quotes the next one. -/
def scan (word : Word) : List UInt8 → Bool
  | [] => true
  | [ch] => !word.stops.contains ch
  | ch :: next :: rest =>
      if ch = BACKSLASH then next != 0 && scan word rest
      else !word.stops.contains ch && scan word (next :: rest)

variable {word : Word}

theorem not_slash
    {ch : UInt8}
    (hPlain : word.stops.contains ch = false) :
    ch ≠ BACKSLASH := by
  rintro rfl
  rw [word.slash] at hPlain
  exact nomatch hPlain

theorem starts_of_stops
    {ch : UInt8}
    (hStop : word.stops.contains ch = true) :
    word.starts.contains ch = true :=
  List.all_eq_true.1 word.subset ch
    (List.contains_iff_mem.1 hStop)

theorem scan_quoted
    {next : UInt8}
    (hNull : next ≠ 0)
    (rest : List UInt8) :
    word.scan (BACKSLASH :: next :: rest) = word.scan rest := by
  rw [scan, if_pos rfl, bne_iff_ne.2 hNull, Bool.true_and]

theorem scan_plain
    {ch : UInt8}
    (hSlash : ch ≠ BACKSLASH)
    (rest : List UInt8) :
    word.scan (ch :: rest) =
      (!word.stops.contains ch && word.scan rest) := by
  cases rest with
  | nil => rw [scan, scan, Bool.and_true]
  | cons next rest => rw [scan, if_neg hSlash]

theorem scan_slash
    {rest : List UInt8}
    (hScan : word.scan (BACKSLASH :: rest) = true) :
    ∃ next more,
      rest = next :: more ∧ next ≠ 0 ∧
        word.scan more = true := by
  cases rest with
  | nil =>
      rw [scan, word.slash] at hScan
      exact nomatch hScan
  | cons next more =>
      rw [scan, if_pos rfl, Bool.and_eq_true, bne_iff_ne]
        at hScan
      exact ⟨next, more, rfl, hScan.1, hScan.2⟩

/- Behind a text that is read to its end, the next one is
read from its beginning. -/
theorem scan_append
    (first second : List UInt8)
    (hFirst : word.scan first = true) :
    word.scan (first ++ second) = word.scan second := by
  match first with
  | [] => rfl
  | ch :: rest =>
      by_cases hSlash : ch = BACKSLASH
      · subst hSlash
        rcases scan_slash hFirst
          with ⟨next, more, rfl, hNull, hMore⟩
        rw [List.cons_append, List.cons_append,
          scan_quoted hNull]
        exact scan_append more second hMore
      · rw [scan_plain hSlash, Bool.and_eq_true] at hFirst
        rw [List.cons_append, scan_plain hSlash, hFirst.1,
          Bool.true_and]
        exact scan_append rest second hFirst.2

theorem quotedOr_cases
    {quoted plain text : List UInt8}
    (hMatches : Matches (quotedOr quoted plain) text) :
    (∃ ch, text = [BACKSLASH, ch] ∧
      quoted.contains ch = false) ∨
      ∃ ch, text = [ch] ∧ plain.contains ch = false := by
  rcases hMatches with _ | _ | hQuoted | hPlain
  · rcases hQuoted with _ | _ | _ | _ | ⟨hText, hRest⟩
    rcases hRest with _ | _ | _ | _ | ⟨hLetter, hEnd⟩
    have hSlash := word_matches hText
    cases hEnd
    cases hLetter
    case letter ch hLetter =>
      refine .inl ⟨ch, ?_, by simpa using hLetter⟩
      rw [hSlash]
      rfl
  · rcases hPlain with _ | _ | hLetter | hZero
    · cases hLetter
      case letter ch hLetter =>
        exact .inr ⟨ch, rfl, by simpa using hLetter⟩
    · exact nomatch hZero

theorem quotedOr_quoted
    {quoted plain : List UInt8}
    {ch : UInt8}
    (hQuoted : quoted.contains ch = false) :
    Matches (quotedOr quoted plain) [BACKSLASH, ch] := by
  have hSlash : Matches (text "\\") [BACKSLASH] :=
    Matches.comp (.letter rfl) .epsilon
  have hLetter : Matches (except quoted) [ch] :=
    .letter (by simpa using hQuoted)
  exact .left (.comp hSlash (.comp hLetter .epsilon))

theorem quotedOr_plain
    {quoted plain : List UInt8}
    {ch : UInt8}
    (hPlain : plain.contains ch = false) :
    Matches (quotedOr quoted plain) [ch] := by
  have hLetter : Matches (except plain) [ch] :=
    .letter (by simpa using hPlain)
  exact .right (.left hLetter)

theorem scan_of_matches
    {text : List UInt8}
    (hMatches :
      Matches (.star (quotedOr (bytes "\x00") word.stops)) text) :
    word.scan text = true := by
  apply star_induction _ _ hMatches
  · rfl
  · intro first second hFirst hSecond
    rcases quotedOr_cases hFirst
      with ⟨ch, rfl, hQuoted⟩ | ⟨ch, rfl, hPlain⟩
    · have hNull : ch ≠ 0 := by
        rintro rfl
        exact absurd hQuoted (by decide)
      rw [List.cons_append, List.cons_append, scan_quoted hNull]
      exact hSecond
    · rw [List.cons_append, scan_plain (not_slash hPlain),
        hPlain]
      exact hSecond

theorem matches_of_scan
    (text : List UInt8)
    (hScan : word.scan text = true) :
    Matches (.star (quotedOr (bytes "\x00") word.stops))
      text := by
  match text with
  | [] => exact .done
  | ch :: rest =>
      by_cases hSlash : ch = BACKSLASH
      · subst hSlash
        rcases scan_slash hScan
          with ⟨next, more, rfl, hNull, hMore⟩
        have hQuoted : (bytes "\x00").contains next = false := by
          rw [show bytes "\x00" = [0] from rfl]
          simpa using hNull
        exact
          .again (quotedOr_quoted hQuoted)
            (matches_of_scan more hMore)
      · rw [scan_plain hSlash, Bool.and_eq_true,
          Bool.not_eq_true'] at hScan
        exact
          .again (quotedOr_plain hScan.1)
            (matches_of_scan rest hScan.2)

theorem begins_plain
    {ch : UInt8}
    (hSlash : ch ≠ BACKSLASH)
    (rest : List UInt8) :
    word.begins (ch :: rest) = !word.starts.contains ch := by
  cases rest with
  | nil => rfl
  | cons next rest => rw [begins, if_neg hSlash]

/- What the pattern matches is a text with a first byte that
is read to its end. -/
theorem pattern_iff
    {text : List UInt8} :
    Matches word.pattern text ↔
      word.begins text = true ∧ word.scan text = true := by
  constructor
  · intro hMatches
    rcases hMatches with _ | _ | _ | _ | ⟨hStart, hRest⟩
    rcases hRest with _ | _ | _ | _ | ⟨hStar, hEnd⟩
    cases hEnd
    have hScan := scan_of_matches hStar
    rw [List.append_nil]
    rcases quotedOr_cases hStart
      with ⟨ch, rfl, hQuoted⟩ | ⟨ch, rfl, hPlain⟩
    · have hNull : ch ≠ 0 := by
        rintro rfl
        exact absurd hQuoted (by decide)
      constructor
      · rw [List.cons_append, List.cons_append, begins,
          if_pos rfl, hQuoted]
        rfl
      · rw [List.cons_append, List.cons_append,
          scan_quoted hNull]
        exact hScan
    · have hStop : word.stops.contains ch = false := by
        apply Bool.eq_false_iff.2
        intro hStop
        rw [starts_of_stops hStop] at hPlain
        exact nomatch hPlain
      have hSlash := not_slash hStop
      constructor
      · rw [List.cons_append, begins_plain hSlash, hPlain]
        rfl
      · rw [List.cons_append, scan_plain hSlash, hStop]
        exact hScan
  · rintro ⟨hBegins, hScan⟩
    cases text with
    | nil => exact nomatch hBegins
    | cons ch rest =>
        by_cases hSlash : ch = BACKSLASH
        · subst hSlash
          rcases scan_slash hScan
            with ⟨next, more, rfl, hNull, hMore⟩
          rw [begins, if_pos rfl, Bool.not_eq_true'] at hBegins
          have hStar := matches_of_scan more hMore
          have hWhole :=
            Matches.comp
              (@quotedOr_quoted _ word.starts _ hBegins)
              (Matches.comp hStar .epsilon)
          rw [List.append_nil] at hWhole
          exact hWhole
        · rw [begins_plain hSlash, Bool.not_eq_true']
            at hBegins
          rw [scan_plain hSlash, Bool.and_eq_true] at hScan
          have hStar := matches_of_scan rest hScan.2
          have hWhole :=
            Matches.comp
              (@quotedOr_plain (bytes "\r\n\x00") _ _ hBegins)
              (Matches.comp hStar .epsilon)
          rw [List.append_nil] at hWhole
          exact hWhole

end Word

----
-- Other Rules
----

def letters : List UInt8 :=
  (List.range 256).map UInt8.ofNat

theorem mem_letters (b : UInt8) : b ∈ letters := by
  refine List.mem_map.2 ⟨b.toNat, ?_, UInt8.ofNat_toNat⟩
  exact List.mem_range.2 (UInt8.toNat_lt b)

/- What may be the second byte of a word, or stand behind the
first one. -/
def Word.follows (word : Word) (ch next : UInt8) : Bool :=
  if ch = BACKSLASH then !(bytes "\r\n\x00").contains next
  else
    next == BACKSLASH || !word.stops.contains next ||
      wordEnds.contains next

/- No match begins as a word does, of which two bytes are
enough to tell. -/
def Word.excludes (word : Word) (r : Pat) : Bool :=
  !nullable r &&
    letters.all fun ch =>
      isZero (deriv ch r) ||
        (ch != BACKSLASH && word.starts.contains ch) ||
        (!nullable (deriv ch r) &&
          letters.all fun next =>
            isZero (deriv next (deriv ch r)) ||
              !word.follows ch next)

theorem Word.excludes_longest
    {word : Word}
    {r : Pat}
    {text rest : List UInt8}
    {sep : UInt8}
    (hExcludes : word.excludes r = true)
    (hBegins : word.begins text = true)
    (hScan : word.scan text = true)
    (hSep : wordEnds.contains sep = true) :
    longest r (text ++ sep :: rest) = none := by
  rcases Bool.and_eq_true_iff.1 hExcludes with ⟨hNull, hAll⟩
  rw [Bool.not_eq_true'] at hNull
  have hTwo :
      ∀ ch next more,
        (ch != BACKSLASH && word.starts.contains ch) = false →
          word.follows ch next = true →
            longest r (ch :: next :: more) = none := by
    intro ch next more hStart hFollows
    have hOne := List.all_eq_true.1 hAll ch (mem_letters ch)
    rw [hStart, Bool.or_false, Bool.or_eq_true,
      Bool.and_eq_true, Bool.not_eq_true'] at hOne
    apply longest_cons_none hNull
    rcases hOne with hZero | ⟨hNull, hNext⟩
    · exact longest_none_of_isZero _ hZero
    · have hZero :=
        List.all_eq_true.1 hNext next (mem_letters next)
      rw [hFollows, Bool.not_true, Bool.or_false] at hZero
      exact
        longest_cons_none hNull
          (longest_none_of_isZero _ hZero)
  cases text with
  | nil => exact nomatch hBegins
  | cons ch tail =>
      by_cases hSlash : ch = BACKSLASH
      · subst hSlash
        rcases scan_slash hScan with ⟨next, more, rfl, _, _⟩
        rw [begins, if_pos rfl] at hBegins
        apply hTwo
        · rfl
        · rw [follows, if_pos rfl]
          exact hBegins
      · rw [begins_plain hSlash, Bool.not_eq_true'] at hBegins
        have hStart :
            (ch != BACKSLASH && word.starts.contains ch) =
              false := by
          rw [hBegins, Bool.and_false]
        rw [scan_plain hSlash, Bool.and_eq_true] at hScan
        cases tail with
        | nil =>
            apply hTwo _ _ _ hStart
            rw [follows, if_neg hSlash, hSep, Bool.or_true]
        | cons next more =>
            apply hTwo _ _ _ hStart
            rw [follows, if_neg hSlash]
            by_cases hNext : next = BACKSLASH
            · subst hNext
              rfl
            · rw [scan_plain hNext, Bool.and_eq_true] at hScan
              rw [hScan.2.1, Bool.or_true, Bool.true_or]

----
-- The Best Rule
----

section Picking

variable {cond : LexerCond}
variable {input : List UInt8}
variable {before behind : List Rule}
variable {found : Found}

theorem pick_find
    {rules : List Rule}
    (hPick : pick cond input rules = some found) :
    ∃ rule ∈ rules, rule.find cond input = some found := by
  induction rules generalizing found with
  | nil => exact nomatch hPick
  | cons rule rules ih =>
      unfold pick at hPick
      cases hFind : rule.find cond input with
      | none =>
          rw [hFind] at hPick
          rcases ih hPick with ⟨other, hMem, hOther⟩
          exact ⟨other, List.mem_cons_of_mem _ hMem, hOther⟩
      | some own =>
          rw [hFind] at hPick
          cases hMore : pick cond input rules with
          | none =>
              rw [hMore] at hPick
              obtain rfl := Option.some.inj hPick
              exact ⟨rule, List.mem_cons_self, hFind⟩
          | some other =>
              rw [hMore] at hPick
              dsimp only at hPick
              split at hPick
              · rcases ih (hMore.trans hPick)
                  with ⟨rule', hMem, hOther⟩
                exact
                  ⟨rule', List.mem_cons_of_mem _ hMem, hOther⟩
              · obtain rfl := Option.some.inj hPick
                exact ⟨rule, List.mem_cons_self, hFind⟩

/- A match that is longer than those before it, and not
shorter than those behind it, is taken. -/
theorem pick_of_best
    {rule : Rule}
    (hFind : rule.find cond input = some found)
    (hBefore :
      ∀ r ∈ before, ∀ other,
        r.find cond input = some other →
          other.total < found.total)
    (hBehind :
      ∀ r ∈ behind, ∀ other,
        r.find cond input = some other →
          other.total ≤ found.total) :
    pick cond input (before ++ rule :: behind) =
      some found := by
  induction before with
  | nil =>
      rw [List.nil_append, pick, hFind]
      cases hMore : pick cond input behind with
      | none => rfl
      | some other =>
          rcases pick_find hMore with ⟨r, hMem, hOther⟩
          have hLe := hBehind r hMem other hOther
          exact if_neg (Nat.not_lt_of_le hLe)
  | cons r before ih =>
      have hRest := ih fun r' hMem =>
        hBefore r' (List.mem_cons_of_mem _ hMem)
      rw [List.cons_append, pick, hRest]
      cases hOther : r.find cond input with
      | none => rfl
      | some other =>
          exact if_pos (hBefore r List.mem_cons_self _ hOther)

/- What is taken is longer than any match before it. -/
theorem pick_first
    (hPick : pick cond input (before ++ behind) = some found)
    (hOut : found.rule ∉ before) :
    ∀ r ∈ before, ∀ other,
      r.find cond input = some other →
        other.total < found.total := by
  induction before with
  | nil =>
      intro r hMem
      exact absurd hMem List.not_mem_nil
  | cons first before ih =>
      have hRest : found.rule ∉ before := fun hMem =>
        hOut (List.mem_cons_of_mem _ hMem)
      have hFirst :
          ∀ own, first.find cond input = some own →
            own ≠ found := by
        rintro own hOwn rfl
        apply hOut
        rw [(find_cases hOwn).1]
        exact List.mem_cons_self
      intro r hMem other hOther
      rw [List.cons_append, pick] at hPick
      cases hOwn : first.find cond input with
      | none =>
          rw [hOwn] at hPick
          rcases List.mem_cons.1 hMem with rfl | hMem
          · exact absurd (hOwn.symm.trans hOther) nofun
          · exact ih hPick hRest r hMem other hOther
      | some own =>
          rw [hOwn] at hPick
          cases hMore : pick cond input (before ++ behind) with
          | none =>
              rw [hMore] at hPick
              exact
                absurd (Option.some.inj hPick) (hFirst own hOwn)
          | some best =>
              rw [hMore] at hPick
              dsimp only at hPick
              split at hPick
              case isTrue hLess =>
                obtain rfl := Option.some.inj hPick
                rcases List.mem_cons.1 hMem with rfl | hMem
                · obtain rfl :=
                    Option.some.inj (hOwn.symm.trans hOther)
                  exact hLess
                · exact ih hMore hRest r hMem other hOther
              case isFalse =>
                exact
                  absurd (Option.some.inj hPick)
                    (hFirst own hOwn)

theorem find_eq
    {rule : Rule}
    (hCond : rule.conds.contains cond = true)
    (hContext : rule.context = none) :
    rule.find cond input =
      (longest rule.pattern input).map fun length =>
        ⟨rule, length, length⟩ := by
  unfold Rule.find
  rw [if_pos hCond, hContext]
  cases longest rule.pattern input with
  | none => rfl
  | some length => rfl

end Picking

----
-- Places
----

/-
  Where a word is read: of the other rules of the mode, the
  earlier ones are those of the keywords or do not match what
  begins as a word, and the later ones match a word with one
  more byte at most.
-/
structure Place where
  cond : LexerCond
  kind : TokenKind
  word : Word
  changes : List ModeChange
  before : List Rule
  behind : List Rule
  keywords : List (List UInt8)
  split :
    rules =
      before ++
        onLine [cond] word.pattern changes (.retOrComp kind) ::
          behind
  alone :
    ((before ++ behind).all fun rule =>
      rule.action != .ret kind &&
        rule.action != .retOrComp kind) = true
  proper :
    ([TokenKind.INVALID, .EOS, .COMPLETION].contains kind) =
      false
  plain :
    (rules.all fun rule =>
      !rule.conds.contains cond || rule.context.isNone) = true
  earlier :
    ∀ rule ∈ before, rule.conds.contains cond = true →
      word.excludes rule.pattern = true ∨
        ∃ keyword ∈ keywords,
          rule.pattern = Pattern.word keyword
  listed :
    ∀ keyword ∈ keywords, ∃ rule ∈ before,
      rule.conds.contains cond = true ∧
        rule.pattern = Pattern.word keyword
  apart :
    (keywords.all fun keyword =>
      !keyword.any wordEnds.contains) = true
  later :
    ∀ rule ∈ behind, rule.conds.contains cond = true →
      word.excludes rule.pattern = true ∨
        ∃ stop,
          word.stops.contains stop = true ∧
            wordEnds.contains stop = false ∧
            rule.pattern = row [word.pattern, Pattern.word [stop]]

def keywords : List (List UInt8) :=
  [ "alias", "assert", "break", "case", "class", "continue",
    "coproc", "do", "else", "export-env", "for", "function",
    "if", "import-env", "interface", "let", "new", "return",
    "source", "source!", "try", "throw", "typedef", "var",
    "while" ].map bytes

theorem keywords_patterns :
    ((rules.take 28).filter fun rule =>
        rule.conds.contains .STMT).map Rule.pattern =
      keywords.map Pattern.word :=
  rfl

theorem command_excludes :
    ((((rules.take 51).drop 28) ++ rules.drop 53).all fun rule =>
      !rule.conds.contains .STMT ||
        commandWord.excludes rule.pattern) = true := by
  decide +kernel

theorem argument_excludes :
    ((rules.take 110 ++ rules.drop 111).all fun rule =>
      !rule.conds.contains .CMD ||
        argumentWord.excludes rule.pattern) = true := by
  decide +kernel

theorem excludes_of_all
    {word : Word}
    {cond : LexerCond}
    {rules : List Rule}
    {rule : Rule}
    (hAll :
      (rules.all fun rule =>
        !rule.conds.contains cond ||
          word.excludes rule.pattern) = true)
    (hRule : rule ∈ rules)
    (hCond : rule.conds.contains cond = true) :
    word.excludes rule.pattern = true := by
  have hOne := List.all_eq_true.1 hAll rule hRule
  rw [hCond, Bool.not_true, Bool.false_or] at hOne
  exact hOne

/- The keywords have the first rules, and an assignment has
the rule behind that of the command. -/
def commandPlace : Place where
  cond := .STMT
  kind := .COMMAND
  word := commandWord
  changes := [.mode .CMD]
  before := rules.take 51
  behind := rules.drop 52
  keywords := keywords
  split := rfl
  alone := by decide +kernel
  proper := rfl
  plain := by decide +kernel
  earlier := by
    intro rule hRule hCond
    have hSplit :
        rules.take 51 =
          rules.take 28 ++ (rules.take 51).drop 28 := rfl
    rw [hSplit] at hRule
    rcases List.mem_append.1 hRule with hKeyword | hOther
    · right
      have hMem :
          rule.pattern ∈
            ((rules.take 28).filter fun rule =>
              rule.conds.contains .STMT).map Rule.pattern :=
        List.mem_map_of_mem
          (List.mem_filter.2 ⟨hKeyword, hCond⟩)
      rw [keywords_patterns] at hMem
      rcases List.mem_map.1 hMem with ⟨keyword, hMem, hEq⟩
      exact ⟨keyword, hMem, hEq.symm⟩
    · left
      exact
        excludes_of_all command_excludes
          (List.mem_append_left _ hOther) hCond
  listed := by
    intro keyword hKeyword
    have hMem := List.mem_map_of_mem (f := Pattern.word) hKeyword
    rw [← keywords_patterns] at hMem
    rcases List.mem_map.1 hMem with ⟨rule, hMem, hPattern⟩
    rcases List.mem_filter.1 hMem with ⟨hRule, hCond⟩
    exact
      ⟨rule, List.take_subset_take_left _ (by decide) hRule,
        hCond, hPattern⟩
  apart := by decide +kernel
  later := by
    intro rule hRule hCond
    have hSplit :
        rules.drop 52 =
          on [.STMT] ENV_ASSIGN [.mode .CMD]
            (.ret .ENV_ASSIGN) :: rules.drop 53 := rfl
    rw [hSplit] at hRule
    rcases List.mem_cons.1 hRule with rfl | hOther
    · exact .inr ⟨0x3D, rfl, rfl, rfl⟩
    · left
      exact
        excludes_of_all command_excludes
          (List.mem_append_right _ hOther) hCond

def argumentPlace : Place where
  cond := .CMD
  kind := .CMD_ARG_PART
  word := argumentWord
  changes := []
  before := rules.take 110
  behind := rules.drop 111
  keywords := []
  split := rfl
  alone := by decide +kernel
  proper := rfl
  plain := by decide +kernel
  earlier := fun _ hRule hCond =>
    .inl
      (excludes_of_all argument_excludes
        (List.mem_append_left _ hRule) hCond)
  listed := fun _ hKeyword => absurd hKeyword List.not_mem_nil
  apart := rfl
  later := fun _ hRule hCond =>
    .inl
      (excludes_of_all argument_excludes
        (List.mem_append_right _ hRule) hCond)

----
-- Reading a Word
----

theorem endOfSource_kind
    (lexer : Lexer)
    (foundSpace : Bool) :
    (lexer.endOfSource foundSpace).kind = .COMPLETION ∨
      (lexer.endOfSource foundSpace).kind = .EOS := by
  unfold Lexer.endOfSource
  cases hComplete : lexer.complete with
  | true => exact .inl rfl
  | false => exact .inr rfl

/- A token begins at the cursor or behind it, and the buffer
stays. -/
theorem nextTokenFrom_kept
    {fuel : Nat}
    {lexer : Lexer}
    {foundNewLine foundSpace : Bool}
    {ret : Lexer.Result}
    (hRet :
      Lexer.nextTokenFrom fuel lexer foundNewLine foundSpace =
        some ret) :
    ret.lexer.buf = lexer.buf ∧
      (ret.kind ≠ .EOS → ret.kind ≠ .COMPLETION →
        lexer.cursor ≤ ret.token.pos) := by
  induction fuel generalizing lexer foundNewLine foundSpace with
  | zero => exact nomatch hRet
  | succ fuel ih =>
      rw [Lexer.nextTokenFrom] at hRet
      cases hPick :
          pick lexer.curMode.cond (lexer.buf.drop lexer.cursor)
            rules with
      | none =>
          rw [hPick] at hRet
          obtain rfl := Option.some.inj hRet
          exact ⟨rfl, fun _ _ => Nat.le_refl _⟩
      | some found =>
          rw [hPick] at hRet
          dsimp only at hRet
          have hBuf := @advance_buf lexer found
          have hSkip :
              ∀ newLine space,
                Lexer.nextTokenFrom fuel (lexer.advance found)
                    newLine space = some ret →
                  ret.lexer.buf = lexer.buf ∧
                    (ret.kind ≠ .EOS → ret.kind ≠ .COMPLETION →
                      lexer.cursor ≤ ret.token.pos) := by
            intro newLine space hNext
            rcases ih hNext with ⟨hKept, hLe⟩
            rw [advance_cursor] at hLe
            refine ⟨hKept.trans hBuf, fun hEOS hCompletion => ?_⟩
            exact
              Nat.le_trans (Nat.le_add_right _ _)
                (hLe hEOS hCompletion)
          have hComp :
              ∀ kind mode newLine space,
                (((lexer.advance found).endOrComp kind
                        lexer.cursor mode newLine
                        space).lexer.buf = lexer.buf) ∧
                  ((lexer.advance found).endOrComp kind
                      lexer.cursor mode newLine space).token.pos =
                    lexer.cursor := by
            intro kind mode newLine space
            unfold Lexer.endOrComp
            split <;> exact ⟨hBuf, rfl⟩
          split at hRet
          · obtain rfl := Option.some.inj hRet
            exact ⟨hBuf, fun _ _ => Nat.le_refl _⟩
          · obtain rfl := Option.some.inj hRet
            exact
              ⟨(hComp _ _ _ _).1,
                fun _ _ => Nat.le_of_eq (hComp _ _ _ _).2.symm⟩
          · split at hRet
            · obtain rfl := Option.some.inj hRet
              exact
                ⟨(hComp _ _ _ _).1,
                  fun _ _ => Nat.le_of_eq (hComp _ _ _ _).2.symm⟩
            · obtain rfl := Option.some.inj hRet
              exact ⟨hBuf, fun _ _ => Nat.le_refl _⟩
          · exact hSkip _ _ hRet
          · exact hSkip _ _ hRet
          · exact hSkip _ _ hRet
          · split at hRet
            · obtain rfl := Option.some.inj hRet
              refine ⟨hBuf, fun hEOS hCompletion => ?_⟩
              rcases endOfSource_kind _ _ with hKind | hKind
              · exact absurd hKind hCompletion
              · exact absurd hKind hEOS
            · obtain rfl := Option.some.inj hRet
              exact ⟨hBuf, fun _ _ => Nat.le_refl _⟩

theorem changes_complete
    (changes : List ModeChange)
    (lexer : Lexer) :
    (changes.foldl Lexer.change lexer).complete =
      lexer.complete := by
  induction changes generalizing lexer with
  | nil => rfl
  | cons change changes ih =>
      rw [List.foldl_cons, ih]
      cases change with
      | mode cond => rfl
      | push cond skipNL => rfl
      | pop =>
          unfold Lexer.change Lexer.popLexerMode
          dsimp only
          split <;> rfl
      | endCommand =>
          unfold Lexer.change
          dsimp only
          split <;> rfl

theorem advance_complete
    {lexer : Lexer}
    {found : Found} :
    (lexer.advance found).complete = lexer.complete := by
  unfold Lexer.advance
  rw [changes_complete]
  split <;> rfl

theorem not_inCompletionPoint
    {lexer : Lexer}
    {found : Found}
    (hComplete : lexer.complete = false) :
    (lexer.advance found).inCompletionPoint = false := by
  unfold Lexer.inCompletionPoint
  rw [advance_complete, hComplete, Bool.false_and]

namespace Place

variable {place : Place}

def rule (place : Place) : Rule :=
  onLine [place.cond] place.word.pattern place.changes
    (.retOrComp place.kind)

theorem action_of_other
    {rule : Rule}
    (hOther : rule ∈ place.before ++ place.behind) :
    rule.action ≠ .ret place.kind ∧
      rule.action ≠ .retOrComp place.kind := by
  simpa using List.all_eq_true.1 place.alone rule hOther

theorem alone_cases
    {rule : Rule}
    (hRule : rule ∈ rules) :
    rule = place.rule ∨
      rule.action ≠ .ret place.kind ∧
        rule.action ≠ .retOrComp place.kind := by
  rw [place.split] at hRule
  rcases List.mem_append.1 hRule with hBefore | hRest
  · right
    exact action_of_other (List.mem_append_left _ hBefore)
  · rcases List.mem_cons.1 hRest with hOwn | hBehind
    · exact .inl hOwn
    · right
      exact action_of_other (List.mem_append_right _ hBehind)

theorem rule_action_ne
    (kind : TokenKind) : place.rule.action ≠ .ret kind := by
  unfold rule onLine
  simp

theorem rule_not_mem_before :
    place.rule ∉ place.before := by
  intro hMem
  have hAction :=
    @action_of_other place _ (List.mem_append_left _ hMem)
  exact hAction.2 rfl

/- In the mode of the place, no rule has a trailing context. -/
theorem context_none
    {rule : Rule}
    (hRule : rule ∈ rules)
    (hCond : rule.conds.contains place.cond = true) :
    rule.context = none := by
  have hPlain := List.all_eq_true.1 place.plain rule hRule
  rw [hCond, Bool.not_true, Bool.false_or,
    Option.isNone_iff_eq_none] at hPlain
  exact hPlain

theorem find_other
    {rule : Rule}
    {input : List UInt8}
    {other : Found}
    (hRule : rule ∈ rules)
    (hFind : rule.find place.cond input = some other) :
    rule.conds.contains place.cond = true ∧
      longest rule.pattern input = some other.total := by
  have hCond : rule.conds.contains place.cond = true := by
    by_contra hOut
    unfold Rule.find at hFind
    rw [if_neg hOut] at hFind
    exact nomatch hFind
  rw [find_eq hCond (context_none hRule hCond)] at hFind
  rcases Option.map_eq_some_iff.1 hFind
    with ⟨length, hLongest, rfl⟩
  exact ⟨hCond, hLongest⟩

/- The cursor stands before a text that ends as a word does. -/
structure Before
    (place : Place)
    (lexer : Lexer)
    (text rest : List UInt8)
    (sep : UInt8) : Prop where
  cond : lexer.curMode.cond = place.cond
  complete : lexer.complete = false
  input :
    lexer.buf.drop lexer.cursor = text ++ sep :: rest
  ends : wordEnds.contains sep = true

variable {lexer : Lexer}
variable {text rest : List UInt8}
variable {sep : UInt8}

theorem Before.stops
    (hBefore : Before place lexer text rest sep) :
    place.word.stops.contains sep = true :=
  List.all_eq_true.1 place.word.ends sep
    (List.contains_iff_mem.1 hBefore.ends)

/- What is longer than the text goes on with the byte behind
it. -/
theorem take_longer
    {length : Nat}
    (hLess : text.length < length) :
    ∃ more,
      (text ++ sep :: rest).take length =
        text ++ sep :: more := by
  obtain ⟨count, rfl⟩ :
      ∃ count, length = text.length + (count + 1) :=
    ⟨length - text.length - 1, by omega⟩
  refine ⟨rest.take count, ?_⟩
  rw [List.take_length_add_append, List.take_succ_cons]

theorem Before.not_scan
    (hBefore : Before place lexer text rest sep)
    (hScan : place.word.scan text = true)
    (more : List UInt8) :
    place.word.scan (text ++ sep :: more) = false := by
  have hSlash : sep ≠ BACKSLASH := by
    rintro rfl
    exact absurd hBefore.ends (by decide)
  rw [Word.scan_append _ _ hScan, Word.scan_plain hSlash,
    hBefore.stops]
  rfl

theorem Before.longest_word
    (hBefore : Before place lexer text rest sep)
    (hBegins : place.word.begins text = true)
    (hScan : place.word.scan text = true) :
    longest place.word.pattern (text ++ sep :: rest) =
      some text.length := by
  rcases le_longest (Word.pattern_iff.2 ⟨hBegins, hScan⟩)
      (sep :: rest)
    with ⟨length, hLongest, hLe⟩
  rcases Nat.lt_or_eq_of_le hLe with hLess | hEq
  · rcases @take_longer text rest sep _ hLess with ⟨more, hTake⟩
    have hMatches := longest_matches hLongest
    rw [hTake, Word.pattern_iff, hBefore.not_scan hScan]
      at hMatches
    exact nomatch hMatches.2
  · rw [hLongest, hEq]

theorem Before.find_before
    (hBefore : Before place lexer text rest sep)
    (hBegins : place.word.begins text = true)
    (hScan : place.word.scan text = true)
    (hKeyword : text ∉ place.keywords)
    {rule : Rule}
    {other : Found}
    (hRule : rule ∈ place.before)
    (hFind :
      rule.find place.cond (text ++ sep :: rest) =
        some other) :
    other.total < text.length := by
  have hMem : rule ∈ rules := by
    rw [place.split]
    exact List.mem_append_left _ hRule
  rcases find_other hMem hFind with ⟨hCond, hLongest⟩
  rcases place.earlier rule hRule hCond
    with hExcludes | ⟨keyword, hListed, hPattern⟩
  · have hNone :=
      @Word.excludes_longest _ _ _ rest _ hExcludes hBegins
        hScan hBefore.ends
    exact nomatch hNone.symm.trans hLongest
  · have hMatches := longest_matches hLongest
    rw [hPattern] at hMatches
    have hText := word_matches hMatches
    by_contra hLess
    rcases Nat.lt_or_eq_of_le (Nat.le_of_not_lt hLess)
      with hLonger | hEq
    · rcases @take_longer text rest sep _ hLonger
        with ⟨more, hTake⟩
      have hApart :=
        List.all_eq_true.1 place.apart keyword hListed
      rw [← hText, hTake, List.any_append, List.any_cons,
        hBefore.ends, Bool.true_or, Bool.or_true] at hApart
      exact nomatch hApart
    · rw [← hEq, List.take_left] at hText
      rw [hText] at hKeyword
      exact hKeyword hListed

theorem Before.find_behind
    (hBefore : Before place lexer text rest sep)
    (hBegins : place.word.begins text = true)
    (hScan : place.word.scan text = true)
    {rule : Rule}
    {other : Found}
    (hRule : rule ∈ place.behind)
    (hFind :
      rule.find place.cond (text ++ sep :: rest) =
        some other) :
    other.total ≤ text.length := by
  have hMem : rule ∈ rules := by
    rw [place.split]
    exact List.mem_append_right _ (List.mem_cons_of_mem _ hRule)
  rcases find_other hMem hFind with ⟨hCond, hLongest⟩
  rcases place.later rule hRule hCond
    with hExcludes | ⟨stop, hStop, hEnds, hPattern⟩
  · have hNone :=
      @Word.excludes_longest _ _ _ rest _ hExcludes hBegins
        hScan hBefore.ends
    exact nomatch hNone.symm.trans hLongest
  · have hMatches := longest_matches hLongest
    rw [hPattern] at hMatches
    generalize hTaken :
        (text ++ sep :: rest).take other.total = taken
      at hMatches
    rcases hMatches with _ | _ | _ | _ | ⟨hWord, hRest⟩
    rcases hRest with _ | _ | _ | _ | ⟨hLetter, hEnd⟩
    cases hEnd
    obtain rfl := word_matches hLetter
    by_contra hLess
    rcases @take_longer text rest sep _ (Nat.lt_of_not_le hLess)
      with ⟨more, hTake⟩
    rw [hTake, List.append_nil] at hTaken
    rcases List.eq_nil_or_concat more with rfl | ⟨more, b, rfl⟩
    · have hLast := (List.append_inj' hTaken rfl).2
      obtain rfl := (List.cons.inj hLast).1
      rw [hBefore.ends] at hEnds
      exact nomatch hEnds
    · have hInit := congrArg List.dropLast hTaken
      rw [List.concat_eq_append, ← List.cons_append,
        ← List.append_assoc, List.dropLast_concat,
        List.dropLast_concat] at hInit
      rw [← hInit, Word.pattern_iff, hBefore.not_scan hScan]
        at hWord
      exact nomatch hWord.2

/- The rule of the place is picked for a word that is not a
keyword. -/
theorem Before.pick_word
    (hBefore : Before place lexer text rest sep)
    (hBegins : place.word.begins text = true)
    (hScan : place.word.scan text = true)
    (hKeyword : text ∉ place.keywords) :
    pick place.cond (text ++ sep :: rest) rules =
      some ⟨place.rule, text.length, text.length⟩ := by
  have hFind :
      place.rule.find place.cond (text ++ sep :: rest) =
        some ⟨place.rule, text.length, text.length⟩ := by
    have hCond :
        place.rule.conds.contains place.cond = true := by
      unfold rule onLine
      simp
    have hLongest :=
      hBefore.longest_word hBegins hScan
    rw [find_eq hCond rfl]
    exact congrArg (Option.map _) hLongest
  have hPick :=
    pick_of_best hFind
      (fun _ hRule _ hOther =>
        hBefore.find_before hBegins hScan hKeyword hRule hOther)
      (fun _ hRule _ hOther =>
        hBefore.find_behind hBegins hScan hRule hOther)
  rw [place.split]
  exact hPick

/- What the rule of the place is picked for. -/
theorem word_picked
    {found : Found}
    (hPick :
      pick place.cond (text ++ sep :: rest) rules = some found)
    (hRule : found.rule = place.rule)
    (hLength : found.length = text.length) :
    place.word.begins text = true ∧
      place.word.scan text = true ∧ text ∉ place.keywords := by
  rcases pick_cases hPick with ⟨hMem, hLongest⟩
  have hMatches := longest_matches hLongest
  rw [hRule, hLength, List.take_left] at hMatches
  rcases Word.pattern_iff.1 hMatches with ⟨hBegins, hScan⟩
  refine ⟨hBegins, hScan, ?_⟩
  intro hKeyword
  rcases place.listed text hKeyword
    with ⟨keyword, hEarlier, hCond, hPattern⟩
  have hKeywordMem : keyword ∈ rules := by
    rw [place.split]
    exact List.mem_append_left _ hEarlier
  have hPlain := context_none hKeywordMem hCond
  have hWord : Matches keyword.pattern text := by
    rw [hPattern]
    exact matches_word text
  rcases le_longest hWord (sep :: rest)
    with ⟨length, hOther, hLe⟩
  have hFind :
      keyword.find place.cond (text ++ sep :: rest) =
        some ⟨keyword, length, length⟩ := by
    rw [find_eq hCond hPlain, hOther]
    rfl
  have hOut : found.rule ∉ place.before := by
    rw [hRule]
    exact rule_not_mem_before
  rw [place.split] at hPick
  have hLess := pick_first hPick hOut keyword hEarlier _ hFind
  rcases pick_find hPick with ⟨own, hOwnMem, hOwn⟩
  have hTotal : found.total = text.length := by
    rw [← place.split] at hOwnMem
    have hSame := (find_cases hOwn).2
    rw [(find_other hOwnMem hOwn).2, hLength] at hSame
    exact Option.some.inj hSame
  rw [hTotal] at hLess
  exact absurd hLess (Nat.not_lt_of_le hLe)

/- The word that is read at the cursor is the text. -/
theorem Before.read_iff
    (hBefore : Before place lexer text rest sep) :
    (∃ ret,
        lexer.nextToken = some ret ∧
          ret.kind = place.kind ∧
          ret.token = ⟨lexer.cursor, text.length⟩) ↔
      place.word.begins text = true ∧
        place.word.scan text = true ∧ text ∉ place.keywords := by
  have hLess : lexer.cursor < lexer.buf.length := by
    by_contra hOut
    have hInput := hBefore.input
    rw [List.drop_eq_nil_of_le (Nat.le_of_not_lt hOut)] at hInput
    exact absurd hInput.symm (by simp)
  obtain ⟨fuel, hFuel⟩ :
      ∃ fuel, lexer.buf.length - lexer.cursor = fuel + 1 :=
    ⟨lexer.buf.length - lexer.cursor - 1, by omega⟩
  unfold Lexer.nextToken
  rw [hFuel, Lexer.nextTokenFrom, hBefore.input, hBefore.cond]
  constructor
  · rintro ⟨ret, hRet, hKind, hToken⟩
    have hPos : ret.token.pos = lexer.cursor := by rw [hToken]
    have hSize : ret.token.size = text.length := by rw [hToken]
    have hProper :
        ret.kind ≠ .INVALID ∧ ret.kind ≠ .EOS ∧
          ret.kind ≠ .COMPLETION := by
      rw [hKind]
      simpa using place.proper
    rcases hProper with ⟨hInvalid, hEOS, hCompletion⟩
    cases hPick :
        pick place.cond (text ++ sep :: rest) rules with
    | none =>
        rw [hPick] at hRet
        obtain rfl := Option.some.inj hRet
        exact absurd rfl hInvalid
    | some found =>
        rw [hPick] at hRet
        dsimp only at hRet
        have hMem := (pick_cases hPick).1
        have hNot :
            ∀ newLine space,
              Lexer.nextTokenFrom fuel (lexer.advance found)
                  newLine space ≠ some ret := by
          intro newLine space hNext
          have hLe :=
            (nextTokenFrom_kept hNext).2 hEOS hCompletion
          have hNullable :=
            List.all_eq_true.1 rules_nullable found.rule hMem
          have hFound :=
            longest_pos (by simpa using hNullable)
              (pick_cases hPick).2
          rw [advance_cursor, hPos] at hLe
          omega
        cases hAction : found.rule.action with
        | ret kind =>
            rw [hAction] at hRet
            obtain rfl := Option.some.inj hRet
            rcases @alone_cases place _ hMem with hRule | hOther
            · rw [hRule] at hAction
              exact absurd hAction (rule_action_ne kind)
            · rw [hAction] at hOther
              exact absurd (congrArg _ hKind) hOther.1
        | retOrComp kind =>
            rw [hAction] at hRet
            dsimp only at hRet
            unfold Lexer.endOrComp at hRet
            rw [not_inCompletionPoint hBefore.complete] at hRet
            obtain rfl := Option.some.inj hRet
            rcases @alone_cases place _ hMem with hRule | hOther
            · apply word_picked hPick hRule
              have hCursor := @advance_cursor lexer found
              change
                (lexer.advance found).cursor - lexer.cursor = _
                  at hSize
              rw [hCursor] at hSize
              omega
            · rw [hAction] at hOther
              exact absurd (congrArg _ hKind) hOther.2
        | dollar =>
            rw [hAction] at hRet
            dsimp only at hRet
            rw [not_inCompletionPoint hBefore.complete] at hRet
            obtain rfl := Option.some.inj hRet
            exact absurd rfl hInvalid
        | skip | newLine | space =>
            rw [hAction] at hRet
            exact absurd hRet (hNot _ _)
        | reachEOS =>
            rw [hAction] at hRet
            dsimp only at hRet
            split at hRet
            · obtain rfl := Option.some.inj hRet
              rcases endOfSource_kind _ _ with hEnd | hEnd
              · exact absurd hEnd hCompletion
              · exact absurd hEnd hEOS
            · obtain rfl := Option.some.inj hRet
              exact absurd rfl hInvalid
  · rintro ⟨hBegins, hScan, hKeyword⟩
    rw [hBefore.pick_word hBegins hScan hKeyword]
    unfold rule onLine Lexer.endOrComp
    simp only [not_inCompletionPoint hBefore.complete]
    refine ⟨_, rfl, rfl, ?_⟩
    unfold Lexer.endToken
    rw [advance_cursor]
    simp

end Place

----
-- Unquoting
----

/- What is read of a whole text. -/
def unquoted (text : List UInt8) : List UInt8 :=
  toCmdArgFrom text.length text

theorem unquoted_quoted
    {next : UInt8}
    (hNewline : next ≠ 0x0A)
    (hReturn : next ≠ 0x0D)
    (rest : List UInt8) :
    unquoted (BACKSLASH :: next :: rest) =
      next :: unquoted rest := by
  unfold unquoted
  rw [List.length_cons, List.length_cons, toCmdArgFrom,
    if_pos rfl, if_neg (not_or.2 ⟨hNewline, hReturn⟩)]
  rfl

theorem unquoted_plain
    {ch : UInt8}
    (hSlash : ch ≠ BACKSLASH)
    (rest : List UInt8) :
    unquoted (ch :: rest) = ch :: unquoted rest := by
  unfold unquoted
  cases rest with
  | nil => exact if_neg hSlash
  | cons next rest =>
      rw [List.length_cons, toCmdArgFrom, if_neg hSlash]

/- A quoted byte is read as one byte at most. -/
theorem unquoted_quoted_le
    (next : UInt8)
    (rest : List UInt8) :
    (unquoted (BACKSLASH :: next :: rest)).length ≤
      (unquoted rest).length + 1 := by
  by_cases hNewline : next = 0x0A ∨ next = 0x0D
  · have hDropped :
        unquoted (BACKSLASH :: next :: rest) =
          unquoted rest := by
      unfold unquoted
      rw [List.length_cons, List.length_cons, toCmdArgFrom,
        if_pos rfl, if_pos hNewline]
      rfl
    rw [hDropped]
    exact Nat.le_succ _
  · rcases not_or.1 hNewline with ⟨hNewline, hReturn⟩
    rw [unquoted_quoted hNewline hReturn]
    exact Nat.le_refl _

/- What is behind the token is not read. -/
theorem toCmdArgFrom_append
    {word : Word}
    (text rest : List UInt8)
    (hScan : word.scan text = true) :
    toCmdArgFrom text.length (text ++ rest) = unquoted text := by
  match text with
  | [] =>
      cases rest <;> rfl
  | ch :: tail =>
      by_cases hSlash : ch = BACKSLASH
      · subst hSlash
        rcases Word.scan_slash hScan
          with ⟨next, more, rfl, _, hMore⟩
        have hRest := toCmdArgFrom_append more rest hMore
        unfold unquoted at hRest ⊢
        rw [List.cons_append, List.cons_append,
          List.length_cons, List.length_cons, toCmdArgFrom,
          toCmdArgFrom, if_pos rfl, if_pos rfl,
          Nat.add_sub_cancel, hRest]
      · rw [Word.scan_plain hSlash, Bool.and_eq_true] at hScan
        have hRest := toCmdArgFrom_append tail rest hScan.2
        rw [unquoted_plain hSlash, ← hRest, List.cons_append,
          List.length_cons]
        cases hMore : tail ++ rest with
        | nil =>
            rcases List.append_eq_nil_iff.1 hMore with ⟨rfl, _⟩
            exact if_neg hSlash
        | cons next more => rw [toCmdArgFrom, if_neg hSlash]

/- A name that is read back, where a word is read. -/
theorem read_back_iff
    {place : Place}
    {lexer : Lexer}
    {name text rest : List UInt8}
    {sep : UInt8}
    (hBefore : place.Before lexer text rest sep) :
    (∃ ret,
        lexer.nextToken = some ret ∧
          ret.kind = place.kind ∧
          ret.token = ⟨lexer.cursor, text.length⟩ ∧
          toCmdArg ret.lexer ret.token = name) ↔
      (place.word.begins text = true ∧
          place.word.scan text = true ∧
          text ∉ place.keywords) ∧
        unquoted text = name := by
  have hArg :
      place.word.scan text = true →
        ∀ ret, lexer.nextToken = some ret →
          ret.token = ⟨lexer.cursor, text.length⟩ →
            toCmdArg ret.lexer ret.token = unquoted text := by
    intro hScan ret hRet hToken
    unfold toCmdArg
    rw [(nextTokenFrom_kept hRet).1, hToken]
    dsimp only
    rw [hBefore.input]
    exact toCmdArgFrom_append text _ hScan
  constructor
  · rintro ⟨ret, hRet, hKind, hToken, hName⟩
    have hWord := hBefore.read_iff.1 ⟨ret, hRet, hKind, hToken⟩
    refine ⟨hWord, ?_⟩
    rw [← hArg hWord.2.1 ret hRet hToken, hName]
  · rintro ⟨hWord, hName⟩
    rcases hBefore.read_iff.2 hWord
      with ⟨ret, hRet, hKind, hToken⟩
    refine ⟨ret, hRet, hKind, hToken, ?_⟩
    rw [hArg hWord.2.1 ret hRet hToken, hName]

end Words

end Ydsh
