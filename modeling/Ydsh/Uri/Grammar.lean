import Ydsh.Json.Unescape
import Ydsh.Library.Search
import Ydsh.Library.Regex

/-
  The grammar of URIs and the parser generated from it.

  The tags of the grammar are the parts of the text between
  them, and a part that the text does not have has no tags.

  Main declarations:
    * `uri`
    * `Tags`
    * `Tags.isValid`
    * `matchWhole`
    * `matchWhole_eq_some_iff`
    * `mem_uri_iff`
-/

----
-- Grammar
----

namespace Ydsh

namespace Uri

open Json (ascii)

open Library Library.Regex RegularExpression

abbrev Expr : Type :=
  RegularExpression UInt8

/- The bytes from `low` to `high`. -/
def between (low high : Nat) : List UInt8 :=
  (List.range' low (high + 1 - low)).map UInt8.ofNat

def letter (ch : Char) : Expr :=
  text (ascii [ch])

def ALPHA : Expr :=
  oneOf (between 0x61 0x7A ++ between 0x41 0x5A)

def DIGIT : Expr :=
  oneOf (between 0x30 0x39)

def HEXDIG : Expr :=
  DIGIT + oneOf (between 0x61 0x66 ++ between 0x41 0x46)

def pct_encoded : Expr :=
  letter '%' * HEXDIG * HEXDIG

def sub_delims : Expr :=
  oneOf
    (ascii
      ['!', '$', '&', '\'', '(', ')', '*', '+', ',', ';', '='])

def unreserved : Expr :=
  ALPHA + DIGIT + oneOf (ascii ['-', '.', '_', '~'])

def pchar : Expr :=
  unreserved + pct_encoded + sub_delims + letter ':' +
    letter '@'

def scheme : Expr :=
  ALPHA *
    (ALPHA + DIGIT + letter '+' + letter '-' + letter '.').star

def user_info : Expr :=
  (unreserved + pct_encoded + sub_delims + letter ':').star

def port : Expr :=
  DIGIT.star

def dec_octet : Expr :=
  DIGIT +
    oneOf (between 0x31 0x39) * DIGIT +
    letter '1' * DIGIT * DIGIT +
    letter '2' * oneOf (between 0x30 0x34) * DIGIT +
    text (ascii ['2', '5']) * oneOf (between 0x30 0x35)

def IPv4address : Expr :=
  dec_octet * letter '.' * dec_octet * letter '.' *
    dec_octet * letter '.' * dec_octet

def IPvFuture : Expr :=
  letter 'v' * many HEXDIG * letter '.' *
    many (unreserved + sub_delims + letter ':')

def h16 : Expr :=
  HEXDIG * opt HEXDIG ^ 3

def ls32 : Expr :=
  h16 * letter ':' * h16 + IPv4address

/- `h16 ":"` -/
def h16_colon : Expr :=
  h16 * letter ':'

def colons : Expr :=
  text (ascii [':', ':'])

/- `((h16 ":"){0,n} h16)?` -/
def h16_upTo (n : Nat) : Expr :=
  opt (opt h16_colon ^ n * h16)

def IPv6address : Expr :=
  h16_colon ^ 6 * ls32 +
    colons * h16_colon ^ 5 * ls32 +
    opt h16 * colons * h16_colon ^ 4 * ls32 +
    h16_upTo 1 * colons * h16_colon ^ 3 * ls32 +
    h16_upTo 2 * colons * h16_colon ^ 2 * ls32 +
    h16_upTo 3 * colons * h16 * letter ':' * ls32 +
    h16_upTo 4 * colons * ls32 +
    h16_upTo 5 * colons * h16 +
    h16_upTo 6 * colons

def IP_literal : Expr :=
  letter '[' * (IPv6address + IPvFuture) * letter ']'

def reg_name : Expr :=
  (unreserved + pct_encoded + sub_delims).star

def host : Expr :=
  IP_literal + IPv4address + reg_name

def authority : Expr :=
  opt (user_info * letter '@') * host *
    opt (letter ':' * port)

def segment : Expr :=
  pchar.star

def segment_nz : Expr :=
  many pchar

def path_abempty : Expr :=
  (letter '/' * segment).star

def path_absolute : Expr :=
  letter '/' * opt (segment_nz * (letter '/' * segment).star)

def path_rootless : Expr :=
  segment_nz * (letter '/' * segment).star

def path_empty : Expr :=
  text []

def hier_part : Expr :=
  text (ascii ['/', '/']) * authority * path_abempty +
    (path_absolute + path_rootless + path_empty)

def query : Expr :=
  (pchar + letter '/' + letter '?').star

def fragment : Expr :=
  (pchar + letter '/' + letter '?').star

def uri : Expr :=
  scheme * letter ':' * hier_part * opt (letter '?' * query) *
    opt (letter '#' * fragment)

----
-- Tags
----

abbrev COLON : UInt8 := 0x3A

abbrev AT : UInt8 := 0x40

abbrev QUESTION : UInt8 := 0x3F

abbrev HASH : UInt8 := 0x23

abbrev SLASHES : List UInt8 := [0x2F, 0x2F]

structure AuthorityTags where
  userinfo : Option (List UInt8)
  host : List UInt8
  port : Option (List UInt8)
deriving DecidableEq

structure Tags where
  scheme : List UInt8
  authority : Option AuthorityTags
  path : List UInt8
  query : Option (List UInt8)
  fragment : Option (List UInt8)
deriving DecidableEq

namespace AuthorityTags

def text (tags : AuthorityTags) : List UInt8 :=
  tags.userinfo.elim [] (fun userinfo => userinfo ++ [AT]) ++
    join COLON tags.host tags.port

def isValid (tags : AuthorityTags) : Bool :=
  tags.userinfo.all user_info.rmatch &&
    Uri.host.rmatch tags.host &&
    tags.port.all Uri.port.rmatch

end AuthorityTags

namespace Tags

def hierText (tags : Tags) : List UInt8 :=
  tags.authority.elim tags.path
    (fun authority => SLASHES ++ (authority.text ++ tags.path))

def text (tags : Tags) : List UInt8 :=
  join COLON tags.scheme
    (some
      (join HASH (join QUESTION tags.hierText tags.query)
        tags.fragment))

/- The path of a text without an authority. -/
def plainPath : Expr :=
  path_absolute + path_rootless + path_empty

def isValid (tags : Tags) : Bool :=
  Uri.scheme.rmatch tags.scheme &&
    tags.authority.all AuthorityTags.isValid &&
    (if tags.authority.isSome then path_abempty
      else plainPath).rmatch tags.path &&
    tags.query.all Uri.query.rmatch &&
    tags.fragment.all Uri.fragment.rmatch

end Tags

/- An IP literal has colons of its own. -/
def splitHost (text : List UInt8) :
    List UInt8 × Option (List UInt8) :=
  if [0x5B].isPrefixOf text then
    let found := cut 0x5D text
    (found.1 ++ found.2.elim [] (fun _ => [0x5D]),
      (cut COLON (found.2.getD [])).2)
  else
    cut COLON text

def splitAuthority (text : List UInt8) : AuthorityTags :=
  let found := cut AT text
  let hostPort := splitHost (found.2.getD found.1)
  { userinfo := found.2.map (fun _ => found.1)
    host := hostPort.1
    port := hostPort.2 }

/- Where the tags of a text can be. -/
def splitUri (text : List UInt8) : Tags :=
  let found := cut COLON text
  let body := cut HASH (found.2.getD [])
  let hier := cut QUESTION body.1
  if SLASHES.isPrefixOf hier.1 then
    let rest := hier.1.drop 2
    { scheme := found.1
      authority :=
        some (splitAuthority (rest.takeWhile (· ≠ 0x2F)))
      path := rest.dropWhile (· ≠ 0x2F)
      query := hier.2
      fragment := body.2 }
  else
    { scheme := found.1
      authority := none
      path := hier.1
      query := hier.2
      fragment := body.2 }

/- The tags of a text that matches as a whole. -/
def matchWhole (text : List UInt8) : Option Tags :=
  if (splitUri text).text = text ∧ (splitUri text).isValid then
    some (splitUri text)
  else
    none

----
-- Validity
----

theorem all_rmatch_iff
    {r : Expr}
    {part : Option (List UInt8)} :
    part.all r.rmatch = true ↔
      ∀ word, part = some word → word ∈ r.matches' := by
  cases part with
  | none =>
      constructor
      · intro _ word hNone
        cases hNone
      · intro _
        rfl
  | some word =>
      rw [Option.all_some, rmatch_iff_matches']
      constructor
      · intro hWord other hSome
        rw [← Option.some.inj hSome]
        exact hWord
      · intro hAll
        exact hAll word rfl

theorem AuthorityTags.isValid_iff (tags : AuthorityTags) :
    tags.isValid = true ↔
      (∀ word,
          tags.userinfo = some word →
            word ∈ user_info.matches') ∧
        tags.host ∈ Uri.host.matches' ∧
          ∀ word,
            tags.port = some word → word ∈ Uri.port.matches' := by
  unfold isValid
  rw [Bool.and_eq_true, Bool.and_eq_true, all_rmatch_iff,
    all_rmatch_iff, rmatch_iff_matches', and_assoc]

/- The expression for the path. -/
def Tags.pathExpr (tags : Tags) : Expr :=
  if tags.authority.isSome then path_abempty else plainPath

theorem Tags.isValid_iff (tags : Tags) :
    tags.isValid = true ↔
      tags.scheme ∈ Uri.scheme.matches' ∧
        tags.authority.all AuthorityTags.isValid = true ∧
          tags.path ∈ tags.pathExpr.matches' ∧
            (∀ word,
                tags.query = some word →
                  word ∈ Uri.query.matches') ∧
              ∀ word,
                tags.fragment = some word →
                  word ∈ Uri.fragment.matches' := by
  unfold isValid pathExpr
  rw [Bool.and_eq_true, Bool.and_eq_true, Bool.and_eq_true,
    Bool.and_eq_true, all_rmatch_iff, all_rmatch_iff,
    rmatch_iff_matches', rmatch_iff_matches', and_assoc,
    and_assoc, and_assoc]

/- A part after its mark, or nothing. -/
theorem mem_opt_letter
    (mark : UInt8)
    {r : Expr}
    {word : List UInt8} :
    word ∈ (opt (text [mark] * r)).matches' ↔
      ∃ part : Option (List UInt8),
        (∀ rest, part = some rest → rest ∈ r.matches') ∧
          part.elim [] (fun rest => mark :: rest) = word := by
  rw [mem_opt, mem_mul]
  constructor
  · rintro (rfl | ⟨first, hFirst, rest, hRest, rfl⟩)
    · exact ⟨none, fun _ hNone => (by cases hNone), rfl⟩
    · rw [mem_text] at hFirst
      refine ⟨some rest, ?_, ?_⟩
      · intro other hSome
        rw [← Option.some.inj hSome]
        exact hRest
      · rw [hFirst]
        rfl
  · rintro ⟨part, hPart, rfl⟩
    cases part with
    | none => exact .inl rfl
    | some rest =>
        exact
          .inr
            ⟨[mark], mem_text.mpr rfl, rest, hPart rest rfl, rfl⟩

theorem mem_opt_userinfo {word : List UInt8} :
    word ∈ (opt (user_info * letter '@')).matches' ↔
      ∃ part : Option (List UInt8),
        (∀ rest,
            part = some rest → rest ∈ user_info.matches') ∧
          part.elim [] (fun rest => rest ++ [AT]) = word := by
  rw [mem_opt, mem_mul]
  constructor
  · rintro (rfl | ⟨first, hFirst, rest, hRest, rfl⟩)
    · exact ⟨none, fun _ hNone => (by cases hNone), rfl⟩
    · rw [letter, mem_text] at hRest
      refine ⟨some first, ?_, ?_⟩
      · intro other hSome
        rw [← Option.some.inj hSome]
        exact hFirst
      · rw [hRest]
        rfl
  · rintro ⟨part, hPart, rfl⟩
    cases part with
    | none => exact .inl rfl
    | some rest =>
        exact
          .inr
            ⟨rest, hPart rest rfl, [AT], mem_text.mpr rfl, rfl⟩

theorem mem_authority_iff {word : List UInt8} :
    word ∈ authority.matches' ↔
      ∃ tags : AuthorityTags,
        tags.isValid = true ∧ tags.text = word := by
  have hPort : letter ':' = text [COLON] := rfl
  unfold authority
  rw [mem_mul]
  constructor
  · rintro ⟨first, hFirst, rest, hRest, rfl⟩
    rcases mem_mul.mp hFirst with
      ⟨user, hUser, host, hHost, rfl⟩
    rw [hPort] at hRest
    rcases mem_opt_userinfo.mp hUser with ⟨info, hInfo, rfl⟩
    rcases (mem_opt_letter COLON).mp hRest with
      ⟨port, hPort, rfl⟩
    refine ⟨⟨info, host, port⟩, ?_, ?_⟩
    · rw [AuthorityTags.isValid_iff]
      exact ⟨hInfo, hHost, hPort⟩
    · exact (List.append_assoc _ _ _).symm
  · rintro ⟨tags, hValid, rfl⟩
    rw [AuthorityTags.isValid_iff] at hValid
    rcases hValid with ⟨hInfo, hHost, hNumber⟩
    have hUser := mem_opt_userinfo.mpr ⟨_, hInfo, rfl⟩
    have hAfter := (mem_opt_letter COLON).mpr ⟨_, hNumber, rfl⟩
    rw [← hPort] at hAfter
    exact
      ⟨_, mem_mul.mpr ⟨_, hUser, _, hHost, rfl⟩, _, hAfter,
        List.append_assoc _ _ _⟩

theorem mem_hier_part_iff {word : List UInt8} :
    word ∈ hier_part.matches' ↔
      ∃ (authority : Option AuthorityTags) (path : List UInt8),
        authority.all AuthorityTags.isValid = true ∧
          path ∈
              (if authority.isSome then path_abempty
                else Tags.plainPath).matches' ∧
            authority.elim path
                (fun tags => SLASHES ++ (tags.text ++ path)) =
              word := by
  unfold hier_part
  rw [mem_add]
  constructor
  · rintro (hSlashes | hPlain)
    · rcases mem_mul.mp hSlashes with
        ⟨first, hFirst, path, hPath, rfl⟩
      rcases mem_mul.mp hFirst with
        ⟨slashes, hText, auth, hAuth, rfl⟩
      rcases mem_authority_iff.mp hAuth with ⟨tags, hTags, rfl⟩
      rw [mem_text.mp hText]
      exact
        ⟨some tags, path, hTags, hPath,
          (List.append_assoc _ _ _).symm⟩
    · exact ⟨none, word, rfl, hPlain, rfl⟩
  · rintro ⟨part, path, hTags, hPath, rfl⟩
    cases part with
    | none => exact .inr hPath
    | some tags =>
        have hAuth := mem_authority_iff.mpr ⟨tags, hTags, rfl⟩
        have hText :
            SLASHES ∈ (text (ascii ['/', '/'])).matches' :=
          mem_text.mpr rfl
        left
        exact
          mem_mul.mpr
            ⟨_, mem_mul.mpr ⟨_, hText, _, hAuth, rfl⟩, _, hPath,
              List.append_assoc _ _ _⟩

/- The tags of a text are where the grammar has them. -/
theorem mem_uri_iff {word : List UInt8} :
    word ∈ uri.matches' ↔
      ∃ tags : Tags, tags.isValid = true ∧ tags.text = word := by
  have hQuestion : letter '?' = text [QUESTION] := rfl
  have hHash : letter '#' = text [HASH] := rfl
  unfold uri
  rw [mem_mul, hQuestion, hHash]
  constructor
  · rintro ⟨toQuery, hToQuery, after, hAfter, rfl⟩
    rcases mem_mul.mp hToQuery with
      ⟨toHier, hToHier, middle, hMiddle, rfl⟩
    rcases mem_mul.mp hToHier with
      ⟨toColon, hToColon, hier, hHier, rfl⟩
    rcases mem_mul.mp hToColon with
      ⟨scheme, hScheme, colon, hColon, rfl⟩
    rcases mem_hier_part_iff.mp hHier with
      ⟨authority, path, hAuthority, hPath, rfl⟩
    rcases (mem_opt_letter QUESTION).mp hMiddle with
      ⟨query, hQuery, rfl⟩
    rcases (mem_opt_letter HASH).mp hAfter with
      ⟨fragment, hFragment, rfl⟩
    refine
      ⟨⟨scheme, authority, path, query, fragment⟩, ?_, ?_⟩
    · rw [Tags.isValid_iff]
      exact ⟨hScheme, hAuthority, hPath, hQuery, hFragment⟩
    · rw [letter, mem_text] at hColon
      have hMark : ascii [':'] = [COLON] := rfl
      rw [hColon, hMark]
      unfold Tags.text Tags.hierText join
      simp
  · rintro ⟨tags, hValid, rfl⟩
    rw [Tags.isValid_iff] at hValid
    rcases hValid with
      ⟨hScheme, hAuthority, hPath, hQuery, hFragment⟩
    have hColon : [COLON] ∈ (letter ':').matches' :=
      mem_text.mpr rfl
    have hHier :=
      mem_hier_part_iff.mpr
        ⟨tags.authority, tags.path, hAuthority, hPath, rfl⟩
    have hMiddle :=
      (mem_opt_letter QUESTION).mpr ⟨_, hQuery, rfl⟩
    have hAfter := (mem_opt_letter HASH).mpr ⟨_, hFragment, rfl⟩
    refine
      ⟨_,
        mem_mul.mpr
          ⟨_,
            mem_mul.mpr
              ⟨_, mem_mul.mpr ⟨_, hScheme, _, hColon, rfl⟩, _,
                hHier, rfl⟩,
            _, hMiddle, rfl⟩,
        _, hAfter, ?_⟩
    unfold Tags.text Tags.hierText join
    simp

----
-- Separators
----

theorem not_mem_of_letters
    {r : Expr}
    {b : UInt8}
    (hLetters : allLetters (· ≠ b) r = true)
    {word : List UInt8}
    (hWord : word ∈ r.matches') :
    b ∉ word := by
  intro hMem
  have hNe := all_of_mem hLetters hWord b hMem
  exact absurd rfl (of_decide_eq_true hNe)

/- A byte that neither ends nor divides an authority. -/
def isInner (b : UInt8) : Bool :=
  b ≠ AT && b ≠ 0x2F && b ≠ QUESTION && b ≠ HASH

theorem isInner_ne
    {b : UInt8}
    (hInner : isInner b = true) :
    b ≠ AT ∧ b ≠ 0x2F ∧ b ≠ QUESTION ∧ b ≠ HASH := by
  unfold isInner at hInner
  simpa [and_assoc] using hInner

theorem letters_user_info :
    allLetters isInner user_info = true := by
  decide

theorem letters_port :
    allLetters isInner port = true := by
  decide

theorem letters_host :
    allLetters isInner host = true := by
  decide

theorem letters_literal :
    allLetters (· ≠ 0x5D) (IPv6address + IPvFuture) = true := by
  decide

theorem letters_name_colon :
    allLetters (· ≠ COLON) (IPv4address + reg_name) = true := by
  decide

theorem letters_name_bracket :
    allLetters (· ≠ 0x5B) (IPv4address + reg_name) = true := by
  decide

/- What is not in brackets has no colon. -/
theorem host_cases
    {word : List UInt8}
    (hWord : word ∈ host.matches') :
    (COLON ∉ word ∧ 0x5B ∉ word) ∨
      ∃ inner, 0x5D ∉ inner ∧ word = 0x5B :: (inner ++ [0x5D]) := by
  unfold host at hWord
  rw [mem_add, mem_add, or_assoc] at hWord
  rcases hWord with hLiteral | hName
  · right
    rcases mem_mul.mp hLiteral with
      ⟨front, hFront, close, hClose, rfl⟩
    rcases mem_mul.mp hFront with
      ⟨open', hOpen, inner, hInner, rfl⟩
    rw [letter, mem_text] at hOpen hClose
    refine ⟨inner, not_mem_of_letters letters_literal hInner, ?_⟩
    rw [hOpen, hClose]
    rfl
  · left
    rw [← mem_add] at hName
    exact
      ⟨not_mem_of_letters letters_name_colon hName,
        not_mem_of_letters letters_name_bracket hName⟩

theorem splitHost_join
    {word : List UInt8}
    (hWord : word ∈ host.matches')
    (port : Option (List UInt8)) :
    splitHost (join COLON word port) = (word, port) := by
  rcases host_cases hWord with ⟨hColon, hOpen⟩ | ⟨inner, hInner, rfl⟩
  · have hPrefix :
        [0x5B].isPrefixOf (join COLON word port) = false := by
      cases word with
      | nil =>
          cases port with
          | none => rfl
          | some port => rfl
      | cons b word =>
          have hNe : (0x5B == b) = false := by
            rw [beq_eq_false_iff_ne]
            rintro rfl
            exact hOpen List.mem_cons_self
          show ((0x5B == b) && _) = false
          rw [hNe]
          rfl
    unfold splitHost
    rw [hPrefix]
    exact cut_join hColon port
  · have hText :
        join COLON (0x5B :: (inner ++ [0x5D])) port =
          join 0x5D (0x5B :: inner)
            (some
              (join COLON [] port)) := by
      unfold join
      simp
    have hNone : (0x5D : UInt8) ∉ 0x5B :: inner := by
      rw [List.mem_cons, not_or]
      exact ⟨by decide, hInner⟩
    have hCut := cut_join hNone (some (join COLON [] port))
    have hPort := cut_join (List.not_mem_nil (a := COLON)) port
    unfold splitHost
    rw [hText, hCut]
    show
      (0x5B :: inner ++ [0x5D],
          (cut COLON (join COLON [] port)).2) =
        _
    rw [hPort]
    rfl

theorem splitAuthority_text
    {tags : AuthorityTags}
    (hValid : tags.isValid = true) :
    splitAuthority tags.text = tags := by
  rw [AuthorityTags.isValid_iff] at hValid
  rcases hValid with ⟨hInfo, hHost, hPort⟩
  have hHostPort := splitHost_join hHost tags.port
  rcases tags with ⟨info, host, port⟩
  cases info with
  | none =>
      have hAt : AT ∉ join COLON host port := by
        intro hMem
        rcases List.mem_append.mp hMem with hMem | hMem
        · have hInner := all_of_mem letters_host hHost AT hMem
          exact (isInner_ne hInner).1 rfl
        · cases port with
          | none => cases hMem
          | some port =>
              rcases List.mem_cons.mp hMem with hEq | hMem
              · exact absurd hEq (by decide)
              · have hInner :=
                  all_of_mem letters_port (hPort port rfl) AT
                    hMem
                exact (isInner_ne hInner).1 rfl
      have hCut := cut_join hAt none
      have hJoin :
          join AT (join COLON host port) none =
            join COLON host port :=
        List.append_nil _
      rw [hJoin] at hCut
      show splitAuthority (join COLON host port) = _
      unfold splitAuthority
      rw [hCut]
      show
        AuthorityTags.mk none
            (splitHost (join COLON host port)).1
            (splitHost (join COLON host port)).2 =
          _
      rw [hHostPort]
  | some info =>
      have hAt : AT ∉ info := by
        intro hMem
        have hInner :=
          all_of_mem letters_user_info (hInfo info rfl) AT hMem
        exact (isInner_ne hInner).1 rfl
      have hCut := cut_join hAt (some (join COLON host port))
      have hText :
          AuthorityTags.text ⟨some info, host, port⟩ =
            join AT info (some (join COLON host port)) :=
        List.append_assoc _ _ _
      rw [hText]
      unfold splitAuthority
      rw [hCut]
      show
        AuthorityTags.mk (some info)
            (splitHost (join COLON host port)).1
            (splitHost (join COLON host port)).2 =
          _
      rw [hHostPort]

----
-- Whole Texts
----

/- Nothing in an authority ends it. -/
theorem AuthorityTags.mem_text
    {tags : AuthorityTags}
    (hValid : tags.isValid = true)
    {b : UInt8}
    (hMem : b ∈ tags.text) :
    b ≠ 0x2F ∧ b ≠ QUESTION ∧ b ≠ HASH := by
  rw [AuthorityTags.isValid_iff] at hValid
  rcases hValid with ⟨hInfo, hHost, hPort⟩
  rcases tags with ⟨info, host, port⟩
  rcases List.mem_append.mp hMem with hMem | hMem
  · cases info with
    | none => cases hMem
    | some info =>
        rcases List.mem_append.mp hMem with hMem | hMem
        · have hInner :=
            all_of_mem letters_user_info (hInfo info rfl) b hMem
          exact (isInner_ne hInner).2
        · rw [List.mem_singleton.mp hMem]
          decide
  · rcases List.mem_append.mp hMem with hMem | hMem
    · have hInner := all_of_mem letters_host hHost b hMem
      exact (isInner_ne hInner).2
    · cases port with
      | none => cases hMem
      | some port =>
          rcases List.mem_cons.mp hMem with rfl | hMem
          · decide
          · have hInner :=
              all_of_mem letters_port (hPort port rfl) b hMem
            exact (isInner_ne hInner).2

theorem letters_scheme :
    allLetters (· ≠ COLON) scheme = true := by
  decide

theorem letters_path :
    allLetters (fun b => b ≠ QUESTION && b ≠ HASH)
        (path_abempty + Tags.plainPath) =
      true := by
  decide

theorem letters_query :
    allLetters (· ≠ HASH) query = true := by
  decide

theorem letters_pchar :
    allLetters (· ≠ 0x2F) pchar = true := by
  decide

theorem pchar_ne_nil
    {word : List UInt8}
    (hWord : word ∈ pchar.matches') :
    word ≠ [] := by
  rintro rfl
  rw [← rmatch_iff_matches'] at hWord
  exact absurd hWord (by decide)

/- A path after an authority is empty or starts with a slash. -/
theorem abempty_takeWhile
    {word : List UInt8}
    (hWord : word ∈ path_abempty.matches') :
    word.takeWhile (· ≠ 0x2F) = [] := by
  apply star_induction (motive :=
    fun word => word.takeWhile (· ≠ (0x2F : UInt8)) = []) _ _ hWord
  · rfl
  · intro first rest hFirst _ _
    rcases mem_mul.mp hFirst with
      ⟨slash, hSlash, segment, hSegment, rfl⟩
    rw [letter, mem_text] at hSlash
    rw [hSlash]
    rfl

theorem many_pchar_cons
    {r : Expr}
    {word : List UInt8}
    (hWord : word ∈ (segment_nz * r).matches') :
    ∃ b rest, word = b :: rest ∧ b ≠ 0x2F := by
  rcases mem_mul.mp hWord with ⟨front, hFront, rest, hRest, rfl⟩
  rcases mem_mul.mp hFront with ⟨first, hFirst, more, hMore, rfl⟩
  have hSlash := not_mem_of_letters letters_pchar hFirst
  cases first with
  | nil => exact absurd rfl (pchar_ne_nil hFirst)
  | cons b first =>
      refine ⟨b, first ++ more ++ rest, rfl, ?_⟩
      rintro rfl
      exact hSlash List.mem_cons_self

/- Two slashes start an authority. -/
theorem plainPath_prefix
    {word : List UInt8}
    (hWord : word ∈ Tags.plainPath.matches') :
    SLASHES.isPrefixOf word = false := by
  unfold Tags.plainPath at hWord
  rw [mem_add, mem_add] at hWord
  rcases hWord with (hAbsolute | hRootless) | hEmpty
  · rcases mem_mul.mp hAbsolute with
      ⟨slash, hSlash, rest, hRest, rfl⟩
    rw [letter, mem_text] at hSlash
    rcases mem_opt.mp hRest with rfl | hRest
    · rw [hSlash]
      rfl
    · rcases many_pchar_cons hRest with ⟨b, more, rfl, hNe⟩
      have hFalse : ((0x2F : UInt8) == b) = false := by
        rw [beq_eq_false_iff_ne]
        exact fun hEq => hNe hEq.symm
      rw [hSlash]
      show ((0x2F : UInt8) == 0x2F && ((0x2F == b) && _)) = false
      rw [hFalse]
      rfl
  · rcases many_pchar_cons hRootless with ⟨b, more, rfl, hNe⟩
    have hFalse : ((0x2F : UInt8) == b) = false := by
      rw [beq_eq_false_iff_ne]
      exact fun hEq => hNe hEq.symm
    show ((0x2F == b) && _) = false
    rw [hFalse]
    rfl
  · rw [mem_text.mp hEmpty]
    rfl

namespace Tags

theorem path_ne
    {tags : Tags}
    (hValid : tags.isValid = true)
    {b : UInt8}
    (hMem : b ∈ tags.path) :
    b ≠ QUESTION ∧ b ≠ HASH := by
  rw [isValid_iff] at hValid
  have hPath := hValid.2.2.1
  have hEither :
      tags.path ∈ (path_abempty + plainPath).matches' := by
    rw [mem_add]
    unfold pathExpr at hPath
    split_ifs at hPath
    · exact .inl hPath
    · exact .inr hPath
  have hBoth := all_of_mem letters_path hEither b hMem
  simpa using hBoth

theorem hierText_ne
    {tags : Tags}
    (hValid : tags.isValid = true)
    {b : UInt8}
    (hMem : b ∈ tags.hierText) :
    b ≠ QUESTION ∧ b ≠ HASH := by
  have hPath (hPathMem : b ∈ tags.path) :=
    path_ne hValid hPathMem
  rw [isValid_iff] at hValid
  rcases tags with ⟨scheme, authority, path, query, fragment⟩
  cases authority with
  | none => exact hPath hMem
  | some authority =>
      rcases List.mem_append.mp hMem with hSlash | hMem
      · have hAll :
            SLASHES.all (fun b => b ≠ QUESTION && b ≠ HASH) =
              true := by
          decide
        simpa using List.all_eq_true.mp hAll b hSlash
      · rcases List.mem_append.mp hMem with hMem | hMem
        · exact
            (AuthorityTags.mem_text hValid.2.1 hMem).2
        · exact hPath hMem

theorem body_ne
    {tags : Tags}
    (hValid : tags.isValid = true) :
    HASH ∉ join QUESTION tags.hierText tags.query := by
  intro hMem
  rcases List.mem_append.mp hMem with hMem | hMem
  · exact (hierText_ne hValid hMem).2 rfl
  · rw [isValid_iff] at hValid
    rcases hValid with ⟨-, -, -, hQuery, -⟩
    cases hPart : tags.query with
    | none =>
        rw [hPart] at hMem
        cases hMem
    | some query =>
        rw [hPart] at hMem
        rcases List.mem_cons.mp hMem with hEq | hMem
        · exact absurd hEq (by decide)
        · exact
            not_mem_of_letters letters_query
              (hQuery query hPart) hMem

theorem splitUri_text
    {tags : Tags}
    (hValid : tags.isValid = true) :
    splitUri tags.text = tags := by
  have hBody := cut_join (body_ne hValid) tags.fragment
  have hQuestion : QUESTION ∉ tags.hierText :=
    fun hMem => (hierText_ne hValid hMem).1 rfl
  have hHier := cut_join hQuestion tags.query
  rw [isValid_iff] at hValid
  rcases hValid with ⟨hScheme, hAuthority, hPath, -, -⟩
  have hColon := not_mem_of_letters letters_scheme hScheme
  have hText :=
    cut_join hColon
      (some
        (join HASH (join QUESTION tags.hierText tags.query)
          tags.fragment))
  unfold splitUri text
  rw [hText]
  simp only [Option.getD_some, hBody, hHier]
  rcases tags with ⟨scheme, authority, path, query, fragment⟩
  cases authority with
  | none =>
      have hPrefix : SLASHES.isPrefixOf path = false :=
        plainPath_prefix hPath
      simp only [hierText, Option.elim_none, hPrefix]
      rfl
  | some authority =>
      have hPrefix :
          SLASHES.isPrefixOf
              (SLASHES ++ (authority.text ++ path)) =
            true :=
        List.isPrefixOf_iff_prefix.mpr (List.prefix_append _ _)
      have hSlash : 0x2F ∉ authority.text :=
        fun hMem =>
          (AuthorityTags.mem_text hAuthority hMem).1 rfl
      have hBoth :=
        takeWhile_ne_append hSlash (abempty_takeWhile hPath)
      have hDrop :
          (SLASHES ++ (authority.text ++ path)).drop 2 =
            authority.text ++ path :=
        rfl
      simp only [hierText, Option.elim_some, hPrefix, if_true,
        hDrop, hBoth.1, hBoth.2, splitAuthority_text hAuthority]

end Tags

theorem matchWhole_eq_some_iff
    {word : List UInt8}
    {tags : Tags} :
    matchWhole word = some tags ↔
      tags.isValid = true ∧ tags.text = word := by
  unfold matchWhole
  constructor
  · intro hMatch
    split_ifs at hMatch with hBoth
    rw [← Option.some.inj hMatch]
    exact ⟨hBoth.2, hBoth.1⟩
  · rintro ⟨hValid, rfl⟩
    rw [Tags.splitUri_text hValid, if_pos ⟨rfl, hValid⟩]

end Uri

end Ydsh
