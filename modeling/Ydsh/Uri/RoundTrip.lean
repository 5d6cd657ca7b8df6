import Ydsh.Uri.FromString

/-
  Which URIs are read back from their text.

  Bytes above 0x7F are written with too many digits, a slash of
  the user or the host is written as it is, and a user or a port
  without a host is not written.

  Main declarations:
    * `URI.Keeps`
    * `fromString_toString_iff`
    * `uri_codec_iff`
-/

----
-- Encoded Parts
----

namespace Ydsh

namespace Uri

open Json (ascii isHex)

open Library Library.Regex RegularExpression

/- The letters that encoding leaves, and what it makes. -/
def coded : Expr :=
  unreserved + pct_encoded

theorem mem_between
    {low high : Nat}
    {ch : UInt8}
    (hLow : low ≤ ch.toNat)
    (hLe : ch.toNat ≤ high) :
    ch ∈ between low high := by
  apply List.mem_map.mpr
  refine ⟨ch.toNat, ?_, UInt8.ofNat_toNat⟩
  rw [List.mem_range'_1]
  omega

theorem single_mem_oneOf
    {letters : List UInt8}
    {ch : UInt8}
    (hMem : ch ∈ letters) :
    [ch] ∈ (oneOf letters).matches' :=
  mem_oneOf.mpr ⟨ch, hMem, rfl⟩

theorem mem_DIGIT
    {ch : UInt8}
    (hLow : 0x30 ≤ ch.toNat)
    (hHigh : ch.toNat ≤ 0x39) :
    [ch] ∈ DIGIT.matches' :=
  single_mem_oneOf (mem_between hLow hHigh)

theorem mem_ALPHA
    {ch : UInt8}
    (hAlpha :
      (0x61 ≤ ch.toNat ∧ ch.toNat ≤ 0x7A) ∨
        (0x41 ≤ ch.toNat ∧ ch.toNat ≤ 0x5A)) :
    [ch] ∈ ALPHA.matches' := by
  apply single_mem_oneOf
  rcases hAlpha with ⟨hLow, hHigh⟩ | ⟨hLow, hHigh⟩
  · exact
      List.mem_append_left _ (mem_between hLow hHigh)
  · exact
      List.mem_append_right _ (mem_between hLow hHigh)

theorem mem_unreserved_of_isEscaped
    {ch : UInt8}
    (hEscaped : isEscaped ch = false)
    (hSlash : ch ≠ SLASH) :
    [ch] ∈ unreserved.matches' := by
  unfold unreserved
  rw [mem_add, mem_add]
  unfold isEscaped at hEscaped
  by_cases hMark : ch ∈ ascii ['.', '_', '~']
  · exact .inr (single_mem_oneOf (List.mem_cons_of_mem _ hMark))
  · rw [if_neg hMark, if_neg hSlash] at hEscaped
    simp only [Bool.not_eq_false', Bool.or_eq_true,
      Bool.and_eq_true, decide_eq_true_eq] at hEscaped
    rcases hEscaped with (hDigit | hLower) | hUpper
    · exact .inl (.inr (mem_DIGIT hDigit.1 hDigit.2))
    · exact .inl (.inl (mem_ALPHA (.inl hLower)))
    · exact .inl (.inl (mem_ALPHA (.inr hUpper)))

theorem mem_HEXDIG
    {ch : UInt8}
    (hHex : isHex ch = true) :
    [ch] ∈ HEXDIG.matches' ∧ [ch] ∈ unreserved.matches' := by
  unfold isHex at hHex
  simp only [Bool.or_eq_true, Bool.and_eq_true,
    decide_eq_true_eq] at hHex
  unfold HEXDIG unreserved
  rw [mem_add, mem_add, mem_add]
  rcases hHex with (hDigit | hLower) | hUpper
  · have hMem := mem_DIGIT hDigit.1 hDigit.2
    exact ⟨.inl hMem, .inl (.inr hMem)⟩
  · have hBetween : ch ∈ between 0x61 0x66 :=
      mem_between hLower.1 hLower.2
    have hAlpha : [ch] ∈ ALPHA.matches' :=
      mem_ALPHA (.inl (by omega))
    exact
      ⟨.inr (single_mem_oneOf (List.mem_append_left _ hBetween)),
        .inl (.inl hAlpha)⟩
  · have hBetween : ch ∈ between 0x41 0x46 :=
      mem_between hUpper.1 hUpper.2
    have hAlpha : [ch] ∈ ALPHA.matches' :=
      mem_ALPHA (.inr (by omega))
    exact
      ⟨.inr
          (single_mem_oneOf (List.mem_append_right _ hBetween)),
        .inl (.inl hAlpha)⟩

theorem pct_mem
    {a b : UInt8}
    (hFirst : isHex a = true)
    (hSecond : isHex b = true) :
    [PERCENT, a, b] ∈ coded.matches' := by
  apply mem_add.mpr
  right
  exact
    mem_mul.mpr
      ⟨[PERCENT, a],
        mem_mul.mpr
          ⟨[PERCENT], mem_text.mpr rfl, [a],
            (mem_HEXDIG hFirst).1, rfl⟩,
        [b], (mem_HEXDIG hSecond).1, rfl⟩

/- Digits after the first two are letters of their own. -/
theorem hexDigits_mem
    {digits : List UInt8}
    (hDigits : ∀ b ∈ digits, isHex b = true) :
    digits ∈ coded.star.matches' := by
  have hEach :
      digits.flatMap (fun b => [b]) ∈ coded.star.matches' :=
    flatMap_mem_star
      (fun b hMem =>
        mem_star_of_mem
          (mem_add.mpr (.inl (mem_HEXDIG (hDigits b hMem)).2)))
  rw [List.flatMap_singleton'] at hEach
  exact hEach

theorem encodeByte_mem
    {ch : UInt8}
    (hSlash : ch ≠ SLASH) :
    encodeByte ch ∈ coded.star.matches' := by
  rw [encodeByte_eq]
  by_cases hEscaped : isEscaped ch = true
  · rw [if_pos hEscaped]
    have hPair : ∀ b ∈ hexPair ch, isHex b = true :=
      fun b hMem => isHex_of_mem_hexPair hMem
    by_cases hSmall : ch.toNat < 0x80
    · rw [if_pos hSmall]
      apply mem_star_of_mem
      apply pct_mem
      · exact hPair _ List.mem_cons_self
      · exact hPair _ (List.mem_cons_of_mem _ List.mem_cons_self)
    · rw [if_neg hSmall]
      have hFirst : [PERCENT, 0x46, 0x46] ∈ coded.matches' :=
        pct_mem rfl rfl
      have hRest :
          ascii ['F', 'F', 'F', 'F'] ++ hexPair ch ∈
            coded.star.matches' := by
        apply hexDigits_mem
        intro b hMem
        rcases List.mem_append.mp hMem with hMem | hMem
        · have hAll :
              (ascii ['F', 'F', 'F', 'F']).all isHex = true := by
            decide
          exact List.all_eq_true.mp hAll b hMem
        · exact hPair b hMem
      exact append_mem_star (mem_star_of_mem hFirst) hRest
  · rw [if_neg hEscaped]
    rw [Bool.not_eq_true] at hEscaped
    exact
      mem_star_of_mem
        (mem_add.mpr
          (.inl (mem_unreserved_of_isEscaped hEscaped hSlash)))

theorem encode_mem
    {bytes : List UInt8}
    (hSlash : SLASH ∉ bytes) :
    encode bytes ∈ coded.star.matches' := by
  apply flatMap_mem_star
  intro ch hMem
  apply encodeByte_mem
  rintro rfl
  exact hSlash hMem

/- A repetition of more matches more. -/
theorem star_mono
    {r s : Expr}
    (hSub : ∀ word, word ∈ r.matches' → word ∈ s.matches')
    {word : List UInt8}
    (hWord : word ∈ r.star.matches') :
    word ∈ s.star.matches' := by
  apply star_induction (motive := fun w => w ∈ s.star.matches')
    _ _ hWord
  · exact nil_mem_star s
  · intro first rest hFirst _ hRest
    exact append_mem_star (mem_star_of_mem (hSub first hFirst)) hRest

/- A path without regard to where its slashes are. -/
def loose : Expr :=
  pchar + letter '/'

theorem coded_sub_pchar
    {word : List UInt8}
    (hWord : word ∈ coded.matches') :
    word ∈ pchar.matches' := by
  unfold pchar
  rw [mem_add, mem_add, mem_add]
  exact .inl (.inl (.inl hWord))

theorem encode_mem_loose (bytes : List UInt8) :
    encode bytes ∈ loose.star.matches' := by
  apply flatMap_mem_star
  intro ch _
  by_cases hSlash : ch = SLASH
  · rw [hSlash]
    exact mem_star_of_mem (mem_add.mpr (.inr (mem_text.mpr rfl)))
  · exact
      star_mono
        (fun word hWord =>
          mem_add.mpr (.inl (coded_sub_pchar hWord)))
        (encodeByte_mem hSlash)

----
-- Paths
----

theorem loose_split
    {word : List UInt8}
    (hWord : word ∈ loose.star.matches') :
    word ∈ (segment * path_abempty).matches' := by
  apply star_induction
    (motive := fun w => w ∈ (segment * path_abempty).matches')
    _ _ hWord
  · exact
      mem_mul.mpr
        ⟨[], nil_mem_star _, [], nil_mem_star _, rfl⟩
  · intro first rest hFirst _ hRest
    rcases mem_mul.mp hRest with ⟨seg, hSeg, more, hMore, rfl⟩
    rcases mem_add.mp hFirst with hChar | hSlash
    · exact
        mem_mul.mpr
          ⟨first ++ seg,
            append_mem_star (mem_star_of_mem hChar) hSeg, more,
            hMore, List.append_assoc _ _ _⟩
    · have hPiece : first ++ seg ∈ (letter '/' * segment).matches' :=
        mem_mul.mpr ⟨first, hSlash, seg, hSeg, rfl⟩
      exact
        mem_mul.mpr
          ⟨[], nil_mem_star _, first ++ seg ++ more,
            append_mem_star (mem_star_of_mem hPiece) hMore,
            List.append_assoc _ _ _⟩

theorem abempty_of_loose
    {word : List UInt8}
    (hWord : word ∈ loose.star.matches') :
    SLASH :: word ∈ path_abempty.matches' := by
  rcases mem_mul.mp (loose_split hWord) with
    ⟨seg, hSeg, more, hMore, rfl⟩
  have hPiece : SLASH :: seg ∈ (letter '/' * segment).matches' :=
    mem_mul.mpr ⟨[SLASH], mem_text.mpr rfl, seg, hSeg, rfl⟩
  exact append_mem_star (mem_star_of_mem hPiece) hMore

theorem plainPath_of_loose
    {word : List UInt8}
    (hWord : word ∈ loose.star.matches') :
    [SLASH].isPrefixOf word = true ∨
      word ∈ Tags.plainPath.matches' := by
  apply star_induction
    (motive := fun w =>
      [SLASH].isPrefixOf w = true ∨
        w ∈ Tags.plainPath.matches')
    _ _ hWord
  · right
    rw [← rmatch_iff_matches']
    decide
  · intro first rest hFirst hRest _
    rcases mem_add.mp hFirst with hChar | hSlash
    · right
      rcases mem_mul.mp (loose_split hRest) with
        ⟨seg, hSeg, more, hMore, rfl⟩
      have hNz : first ++ seg ∈ segment_nz.matches' :=
        mem_mul.mpr ⟨first, hChar, seg, hSeg, rfl⟩
      unfold Tags.plainPath
      rw [mem_add, mem_add]
      exact
        .inl
          (.inr
            (mem_mul.mpr
              ⟨first ++ seg, hNz, more, hMore,
                List.append_assoc _ _ _⟩))
    · left
      rw [letter, mem_text] at hSlash
      rw [hSlash]
      rfl

----
-- The Text of a URI
----

/- A part that is written if it is not empty. -/
def written (part : List UInt8) : Option (List UInt8) :=
  if part ≠ [] then some (encode part) else none

theorem create_written (part : List UInt8) :
    create (written part) = decode (encode part) := by
  unfold written
  by_cases hNil : part = []
  · rw [if_neg (fun hNe => hNe hNil), hNil]
    rfl
  · rw [if_pos hNil]
    rfl

theorem written_mem
    {r : Expr}
    {part : List UInt8}
    (hPart : encode part ∈ r.matches')
    (word : List UInt8)
    (hSome : written part = some word) :
    word ∈ r.matches' := by
  unfold written at hSome
  split_ifs at hSome
  rw [← Option.some.inj hSome]
  exact hPart

namespace URI

/- Where the parts of the text of a URI are. -/
def tags (u : URI) : Tags :=
  { scheme := u.scheme
    authority :=
      if u.hasAuthority then
        some
          { userinfo := written u.authority.userinfo
            host := encode u.authority.host
            port := written u.authority.port }
      else
        none
    path := encode u.path
    query := written u.query
    fragment := written u.fragment }

end URI

theorem written_elim
    (mark : UInt8)
    (part : List UInt8) :
    (written part).elim [] (fun word => mark :: word) =
      if part ≠ [] then mark :: encode part else [] := by
  unfold written
  split_ifs
  · rfl
  · rfl

theorem Authority.toString_eq (authority : Authority) :
    authority.toString =
      AuthorityTags.text
        ⟨written authority.userinfo, encode authority.host,
          written authority.port⟩ := by
  unfold toString AuthorityTags.text join
  rw [written_elim, List.append_assoc]
  congr 1
  unfold written
  by_cases hInfo : authority.userinfo ≠ []
  · rw [if_pos hInfo, if_pos hInfo]
    rfl
  · rw [if_neg hInfo, if_neg hInfo]
    rfl

theorem URI.toString_eq (u : URI) :
    u.toString = u.tags.text := by
  unfold toString Tags.text Tags.hierText tags join
  simp only [written_elim]
  by_cases hAuthority : u.hasAuthority = true
  · simp only [hAuthority, if_true, Option.elim_some,
      Authority.toString_eq, List.append_assoc,
      List.cons_append, List.nil_append]
  · simp only [hAuthority, List.append_assoc,
      List.singleton_append]
    rfl

----
-- Parsed URIs
----

/- What the grammar says of a URI that was parsed. -/
structure URI.Parsed (u : URI) : Prop where
  scheme : u.scheme ∈ Uri.scheme.matches'
  port : u.authority.port ∈ Uri.port.matches'
  path :
    u.authority.host ≠ [] →
      u.path = [] ∨ [SLASH].isPrefixOf u.path = true

theorem letters_percent :
    allLetters (· ≠ PERCENT) (scheme + port) = true := by
  decide

theorem decode_prefix
    {path : List UInt8}
    (hPath : path.takeWhile (· ≠ 0x2F) = []) :
    decode path = [] ∨
      [SLASH].isPrefixOf (decode path) = true := by
  cases path with
  | nil => exact .inl rfl
  | cons b path =>
      right
      have hSlash : b = SLASH := by
        by_contra hNe
        rw [List.takeWhile_cons, if_pos (by simpa using hNe)]
          at hPath
        cases hPath
      have hNe : b ≠ PERCENT := by
        rw [hSlash]
        decide
      rw [decode_cons_of_ne hNe, hSlash]
      rfl

theorem parsed_toURI
    {tags : Tags}
    (hValid : tags.isValid = true) :
    tags.toURI.Parsed := by
  rw [Tags.isValid_iff] at hValid
  rcases hValid with ⟨hScheme, hAuthority, hPath, -, -⟩
  have hPlain : decode tags.scheme = tags.scheme := by
    apply decode_of_not_mem
    exact
      not_mem_of_letters letters_percent
        (mem_add.mpr (.inl hScheme))
  rcases tags with ⟨scheme, authority, path, query, fragment⟩
  refine ⟨?_, ?_, ?_⟩
  · show decode scheme ∈ Uri.scheme.matches'
    rw [hPlain]
    exact hScheme
  · cases authority with
    | none => exact nil_mem_star DIGIT
    | some authority =>
        have hPort :=
          ((AuthorityTags.isValid_iff _).mp hAuthority).2.2
        rcases authority with ⟨info, host, port⟩
        cases port with
        | none => exact nil_mem_star DIGIT
        | some port =>
            have hMem := hPort port rfl
            have hDecode : decode port = port := by
              apply decode_of_not_mem
              exact
                not_mem_of_letters letters_percent
                  (mem_add.mpr (.inr hMem))
            show decode port ∈ Uri.port.matches'
            rw [hDecode]
            exact hMem
  · cases authority with
    | none =>
        intro hHost
        exact absurd rfl hHost
    | some authority =>
        intro _
        exact decode_prefix (abempty_takeWhile hPath)

/- The parts of the text can be told apart. -/
def URI.Separate (u : URI) : Prop :=
  SLASH ∉ u.authority.userinfo ∧ SLASH ∉ u.authority.host

/- Everything that is there is written, and written well. -/
structure URI.Keeps (u : URI) : Prop where
  userinfo : IsAscii u.authority.userinfo
  host : IsAscii u.authority.host
  path : IsAscii u.path
  query : IsAscii u.query
  fragment : IsAscii u.fragment
  separate : u.Separate
  authority :
    u.hasAuthority = false →
      u.authority.userinfo = [] ∧ u.authority.port = []

----
-- Reading Back
----

theorem letters_port_plain :
    allLetters (fun b => !isEscaped b) port = true := by
  decide

theorem encode_port
    {word : List UInt8}
    (hWord : word ∈ port.matches') :
    encode word = word := by
  have hPlain := all_of_mem letters_port_plain hWord
  unfold encode
  have hEach : ∀ b ∈ word, encodeByte b = [b] := by
    intro b hMem
    have hNot := hPlain b hMem
    rw [Bool.not_eq_true'] at hNot
    unfold encodeByte
    rw [hNot]
    rfl
  rw [List.flatMap_congr hEach, List.flatMap_singleton']

theorem encodeByte_cons (ch : UInt8) :
    ∃ b rest,
      encodeByte ch = b :: rest ∧ (b = SLASH ↔ ch = SLASH) := by
  unfold encodeByte
  by_cases hEscaped : isEscaped ch = true
  · rw [if_pos hEscaped]
    refine ⟨_, _, rfl, ?_⟩
    constructor
    · intro hEq
      exact absurd hEq (by decide)
    · rintro rfl
      exact absurd hEscaped (by decide)
  · rw [if_neg hEscaped]
    exact ⟨_, _, rfl, Iff.rfl⟩

/- Encoding keeps a slash in front. -/
theorem encode_leading (bytes : List UInt8) :
    [SLASH].isPrefixOf (encode bytes) =
      [SLASH].isPrefixOf bytes := by
  cases bytes with
  | nil => rfl
  | cons ch bytes =>
      rcases encodeByte_cons ch with ⟨b, rest, hCons, hIff⟩
      unfold encode
      rw [List.flatMap_cons, hCons, List.cons_append,
        List.isPrefixOf_cons_cons, List.isPrefixOf_cons_cons,
        List.isPrefixOf_nil_left, List.isPrefixOf_nil_left,
        Bool.and_true, Bool.and_true]
      rw [Bool.eq_iff_iff, beq_iff_eq, beq_iff_eq]
      rw [eq_comm, hIff, eq_comm]

theorem cons_of_prefix
    {bytes : List UInt8}
    (hPrefix : [SLASH].isPrefixOf bytes = true) :
    ∃ rest, bytes = SLASH :: rest := by
  rcases List.isPrefixOf_iff_prefix.mp hPrefix with ⟨rest, hRest⟩
  exact ⟨rest, hRest.symm⟩

/- An encoded path that starts with a slash, or is empty. -/
theorem encode_mem_abempty
    {path : List UInt8}
    (hPath : path = [] ∨ [SLASH].isPrefixOf path = true) :
    encode path ∈ path_abempty.matches' := by
  rcases hPath with rfl | hPrefix
  · exact nil_mem_star _
  · rcases cons_of_prefix hPrefix with ⟨rest, rfl⟩
    exact abempty_of_loose (encode_mem_loose rest)

theorem encode_mem_plainPath
    {path : List UInt8}
    (hPath : [SLASH].isPrefixOf path = false) :
    encode path ∈ Tags.plainPath.matches' := by
  rcases plainPath_of_loose (encode_mem_loose path) with
    hPrefix | hPlain
  · rw [encode_leading, hPath] at hPrefix
    cases hPrefix
  · exact hPlain

theorem loose_sub_query
    {word : List UInt8}
    (hWord : word ∈ loose.matches') :
    word ∈ (pchar + letter '/' + letter '?').matches' :=
  mem_add.mpr (.inl hWord)

theorem encode_mem_query (part : List UInt8) :
    encode part ∈ query.matches' :=
  star_mono (fun _ hWord => loose_sub_query hWord)
    (encode_mem_loose part)

theorem encode_mem_user_info
    {part : List UInt8}
    (hSlash : SLASH ∉ part) :
    encode part ∈ user_info.matches' := by
  apply star_mono _ (encode_mem hSlash)
  intro word hWord
  exact mem_add.mpr (.inl (mem_add.mpr (.inl hWord)))

theorem encode_mem_host
    {part : List UInt8}
    (hSlash : SLASH ∉ part) :
    encode part ∈ host.matches' := by
  apply mem_add.mpr
  right
  apply star_mono _ (encode_mem hSlash)
  intro word hWord
  exact mem_add.mpr (.inl hWord)

/- What comes after the authority is the path. -/
theorem URI.path_of_hasAuthority
    {u : URI}
    (hParsed : u.Parsed)
    (hAuthority : u.hasAuthority = true) :
    u.path = [] ∨ [SLASH].isPrefixOf u.path = true := by
  unfold hasAuthority at hAuthority
  rw [Bool.or_eq_true, decide_eq_true_eq] at hAuthority
  rcases hAuthority with hHost | hPrefix
  · exact hParsed.path hHost
  · exact .inr hPrefix

theorem URI.tags_isValid
    {u : URI}
    (hParsed : u.Parsed)
    (hSeparate : u.hasAuthority = true → u.Separate) :
    u.tags.isValid = true := by
  rw [Tags.isValid_iff]
  refine
    ⟨hParsed.scheme, ?_, ?_,
      written_mem (encode_mem_query _),
      written_mem (encode_mem_query _)⟩
  · unfold tags
    by_cases hAuthority : u.hasAuthority = true
    · simp only [hAuthority, if_true, Option.all_some]
      rw [AuthorityTags.isValid_iff]
      refine
        ⟨written_mem
            (encode_mem_user_info (hSeparate hAuthority).1),
          encode_mem_host (hSeparate hAuthority).2,
          written_mem ?_⟩
      rw [encode_port hParsed.port]
      exact hParsed.port
    · simp only [hAuthority]
      rfl
  · unfold Tags.pathExpr tags
    by_cases hAuthority : u.hasAuthority = true
    · simp only [hAuthority, if_true, Option.isSome_some]
      exact
        encode_mem_abempty
          (path_of_hasAuthority hParsed hAuthority)
    · simp only [hAuthority]
      apply encode_mem_plainPath
      unfold hasAuthority at hAuthority
      rw [Bool.not_eq_true, Bool.or_eq_false_iff] at hAuthority
      exact hAuthority.2

theorem URI.host_of_not_hasAuthority
    {u : URI}
    (hAuthority : u.hasAuthority = false) :
    u.authority.host = [] := by
  unfold hasAuthority at hAuthority
  rw [Bool.or_eq_false_iff, decide_eq_false_iff_not,
    not_not] at hAuthority
  exact hAuthority.1

/- What is read if the parts are told apart. -/
theorem URI.toURI_tags
    {u : URI}
    (hParsed : u.Parsed) :
    u.tags.toURI =
      { scheme := u.scheme
        authority :=
          if u.hasAuthority then
            { userinfo := decode (encode u.authority.userinfo)
              host := decode (encode u.authority.host)
              port := u.authority.port }
          else
            { userinfo := [], host := [], port := [] }
        path := decode (encode u.path)
        query := decode (encode u.query)
        fragment := decode (encode u.fragment) } := by
  have hScheme : decode u.scheme = u.scheme := by
    apply decode_of_not_mem
    exact
      not_mem_of_letters letters_percent
        (mem_add.mpr (.inl hParsed.scheme))
  have hPort : decode u.authority.port = u.authority.port := by
    apply decode_of_not_mem
    exact
      not_mem_of_letters letters_percent
        (mem_add.mpr (.inr hParsed.port))
  unfold Tags.toURI tags
  simp only [create_written]
  by_cases hAuthority : u.hasAuthority = true
  · simp only [hAuthority, if_true, Option.bind_some,
      Option.map_some, create_written,
      encode_port hParsed.port, hPort]
    unfold create
    simp only [Option.elim_some, hScheme]
  · simp only [hAuthority]
    unfold create
    simp only [Option.elim_some, hScheme]
    rfl

/- With the parts told apart, each is read as it was written. -/
theorem URI.toURI_tags_iff
    {u : URI}
    (hParsed : u.Parsed)
    (hSeparate : u.Separate) :
    u.tags.toURI = u ↔ u.Keeps := by
  rw [toURI_tags hParsed]
  constructor
  · intro hEq
    have hPath := congrArg URI.path hEq
    have hQuery := congrArg URI.query hEq
    have hFragment := congrArg URI.fragment hEq
    have hAuth := congrArg URI.authority hEq
    dsimp only at hPath hQuery hFragment hAuth
    rw [decode_encode_iff] at hPath hQuery hFragment
    by_cases hAuthority : u.hasAuthority = true
    · rw [if_pos hAuthority] at hAuth
      have hInfo := congrArg Authority.userinfo hAuth
      have hHost := congrArg Authority.host hAuth
      dsimp only at hInfo hHost
      rw [decode_encode_iff] at hInfo hHost
      refine
        ⟨hInfo, hHost, hPath, hQuery, hFragment, hSeparate, ?_⟩
      intro hNot
      rw [hAuthority] at hNot
      cases hNot
    · rw [if_neg hAuthority] at hAuth
      have hInfo : u.authority.userinfo = [] :=
        (congrArg Authority.userinfo hAuth).symm
      have hHost : u.authority.host = [] :=
        (congrArg Authority.host hAuth).symm
      have hPort : u.authority.port = [] :=
        (congrArg Authority.port hAuth).symm
      refine
        ⟨?_, ?_, hPath, hQuery, hFragment, hSeparate,
          fun _ => ⟨hInfo, hPort⟩⟩
      · rw [hInfo]
        intro ch hMem
        cases hMem
      · rw [hHost]
        intro ch hMem
        cases hMem
  · intro hKeeps
    rw [(decode_encode_iff _).mpr hKeeps.userinfo,
      (decode_encode_iff _).mpr hKeeps.host,
      (decode_encode_iff _).mpr hKeeps.path,
      (decode_encode_iff _).mpr hKeeps.query,
      (decode_encode_iff _).mpr hKeeps.fragment]
    by_cases hAuthority : u.hasAuthority = true
    · rw [if_pos hAuthority]
    · rw [Bool.not_eq_true] at hAuthority
      have hBoth := hKeeps.authority hAuthority
      have hHost := host_of_not_hasAuthority hAuthority
      rcases u with ⟨scheme, ⟨info, host, port⟩, path, query, rest⟩
      dsimp only at hBoth hHost
      rw [hBoth.1, hBoth.2, hHost]
      simp only [ite_self]

----
-- Slashes Before the Path
----

/- An authority that ends at the first slash of the text. -/
def URI.cutTags
    (u : URI)
    (info : Option (List UInt8))
    (host path : List UInt8) : Tags :=
  { scheme := u.scheme
    authority :=
      some { userinfo := info, host := encode host, port := none }
    path := SLASH :: path
    query := written u.query
    fragment := written u.fragment }

theorem URI.cutTags_isValid
    {u : URI}
    (hParsed : u.Parsed)
    {info : Option (List UInt8)}
    (hInfo :
      ∀ word, info = some word → word ∈ user_info.matches')
    {host : List UInt8}
    (hHost : SLASH ∉ host)
    {path : List UInt8}
    (hPath : path ∈ loose.star.matches') :
    (u.cutTags info host path).isValid = true := by
  rw [Tags.isValid_iff]
  refine
    ⟨hParsed.scheme, ?_, abempty_of_loose hPath,
      written_mem (encode_mem_query _),
      written_mem (encode_mem_query _)⟩
  show AuthorityTags.isValid _ = true
  rw [AuthorityTags.isValid_iff]
  refine ⟨hInfo, encode_mem_host hHost, ?_⟩
  intro word hNone
  cases hNone

theorem single_mem_loose
    {ch : UInt8}
    (hWord : [ch] ∈ pchar.matches')
    {rest : List UInt8}
    (hRest : rest ∈ loose.star.matches') :
    ch :: rest ∈ loose.star.matches' :=
  append_mem_star
    (mem_star_of_mem (mem_add.mpr (.inl hWord))) hRest

theorem at_mem_pchar : [AT] ∈ pchar.matches' :=
  mem_add.mpr (.inr (mem_text.mpr rfl))

theorem colon_mem_pchar : [COLON] ∈ pchar.matches' :=
  mem_add.mpr (.inl (mem_add.mpr (.inr (mem_text.mpr rfl))))

/- The port and the path, as a path. -/
def URI.portPath (u : URI) : List UInt8 :=
  (written u.authority.port).elim []
      (fun port => COLON :: port) ++
    encode u.path

theorem URI.portPath_mem (u : URI) :
    u.portPath ∈ loose.star.matches' := by
  unfold portPath
  rw [written_elim]
  apply append_mem_star _ (encode_mem_loose _)
  by_cases hPort : u.authority.port ≠ []
  · rw [if_pos hPort]
    exact single_mem_loose colon_mem_pchar (encode_mem_loose _)
  · rw [if_neg hPort]
    exact nil_mem_star _

theorem encode_append_slash (before after : List UInt8) :
    encode (before ++ SLASH :: after) =
      encode before ++ SLASH :: encode after := by
  unfold encode
  rw [List.flatMap_append, List.flatMap_cons]
  rfl

/- The user ends at its first slash, and is a host then. -/
theorem URI.not_read_of_userinfo
    {u : URI}
    (hParsed : u.Parsed)
    (hAuthority : u.hasAuthority = true)
    (hSlash : SLASH ∈ u.authority.userinfo) :
    fromString u.toString ≠ some u := by
  rcases List.eq_append_cons_of_mem hSlash with
    ⟨before, after, hInfo, hBefore⟩
  have hNe : u.authority.userinfo ≠ [] := by
    rw [hInfo]
    simp
  have hPath :
      encode after ++
          AT :: (encode u.authority.host ++ u.portPath) ∈
        loose.star.matches' :=
    append_mem_star (encode_mem_loose _)
      (single_mem_loose at_mem_pchar
        (append_mem_star (encode_mem_loose _) u.portPath_mem))
  have hNone (word : List UInt8) (hSome : none = some word) :
      word ∈ user_info.matches' := by
    cases hSome
  have hValid := cutTags_isValid hParsed hNone hBefore hPath
  have hText :
      u.toString =
        (u.cutTags none before
          (encode after ++
            AT :: (encode u.authority.host ++ u.portPath))).text := by
    rw [toString_eq]
    unfold Tags.text Tags.hierText tags cutTags
      AuthorityTags.text portPath join
    simp only [hAuthority, if_true, Option.elim_some, written,
      hInfo, encode_append_slash]
    simp
  rw [hText, fromString_text hValid]
  intro hEq
  have hNil :
      u.authority.userinfo = [] :=
    (congrArg (fun v => v.authority.userinfo)
      (Option.some.inj hEq)).symm
  exact hNe hNil

theorem not_mem_flatMap_reread
    {bytes : List UInt8}
    (hSlash : SLASH ∉ bytes) :
    SLASH ∉ bytes.flatMap reread := by
  intro hMem
  rcases List.mem_flatMap.mp hMem with ⟨ch, hCh, hMem⟩
  unfold reread at hMem
  split_ifs at hMem
  · rw [← List.mem_singleton.mp hMem] at hCh
    exact hSlash hCh
  · rcases List.mem_cons.mp hMem with hEq | hMem
    · exact absurd hEq (by decide)
    · rcases List.mem_append.mp hMem with hMem | hMem
      · exact absurd hMem (by decide)
      · exact
          absurd (isHex_of_mem_hexPair hMem) (by decide)

/- The host ends at its first slash. -/
theorem URI.not_read_of_host
    {u : URI}
    (hParsed : u.Parsed)
    (hInfo : SLASH ∉ u.authority.userinfo)
    (hSlash : SLASH ∈ u.authority.host) :
    fromString u.toString ≠ some u := by
  rcases List.eq_append_cons_of_mem hSlash with
    ⟨before, after, hHost, hBefore⟩
  have hAuthority : u.hasAuthority = true := by
    unfold hasAuthority
    rw [hHost]
    simp
  have hPath : encode after ++ u.portPath ∈ loose.star.matches' :=
    append_mem_star (encode_mem_loose _) u.portPath_mem
  have hValid :=
    cutTags_isValid hParsed
      (written_mem (encode_mem_user_info hInfo)) hBefore hPath
  have hText :
      u.toString =
        (u.cutTags (written u.authority.userinfo) before
          (encode after ++ u.portPath)).text := by
    rw [toString_eq]
    unfold Tags.text Tags.hierText tags cutTags
      AuthorityTags.text portPath join
    simp only [hAuthority, if_true, Option.elim_some, hHost,
      encode_append_slash]
    simp
  rw [hText, fromString_text hValid]
  intro hEq
  have hRead : decode (encode before) = u.authority.host :=
    congrArg (fun v => v.authority.host) (Option.some.inj hEq)
  rw [decode_encode] at hRead
  rw [← hRead] at hSlash
  exact not_mem_flatMap_reread hBefore hSlash

----
-- Exactness
----

/- A user that is not written is not read. -/
theorem URI.not_read_of_not_hasAuthority
    {u : URI}
    (hParsed : u.Parsed)
    (hAuthority : u.hasAuthority = false)
    (hInfo : u.authority.userinfo ≠ []) :
    fromString u.toString ≠ some u := by
  have hValid :=
    tags_isValid hParsed
      (fun hHas => by
        rw [hAuthority] at hHas
        cases hHas)
  rw [toString_eq, fromString_text hValid, toURI_tags hParsed,
    hAuthority]
  intro hEq
  exact
    hInfo
      (congrArg (fun v => v.authority.userinfo)
        (Option.some.inj hEq)).symm

theorem fromString_toString_iff
    {u : URI}
    (hParsed : u.Parsed) :
    URI.fromString u.toString = some u ↔ u.Keeps := by
  by_cases hSeparate : u.Separate
  · rw [URI.toString_eq,
      fromString_text
        (URI.tags_isValid hParsed (fun _ => hSeparate)),
      Option.some.injEq]
    exact URI.toURI_tags_iff hParsed hSeparate
  · constructor
    · intro hRead
      exfalso
      by_cases hInfo : SLASH ∈ u.authority.userinfo
      · by_cases hAuthority : u.hasAuthority = true
        · exact
            URI.not_read_of_userinfo hParsed hAuthority hInfo
              hRead
        · rw [Bool.not_eq_true] at hAuthority
          exact
            URI.not_read_of_not_hasAuthority hParsed hAuthority
              (List.ne_nil_of_mem hInfo) hRead
      · have hHost : SLASH ∈ u.authority.host := by
          by_contra hNot
          exact hSeparate ⟨hInfo, hNot⟩
        exact URI.not_read_of_host hParsed hInfo hHost hRead
    · intro hKeeps
      exact absurd hKeeps.separate hSeparate

/- A URI that is made from a text is read back from its own. -/
def ReadsBack (str : List UInt8) : Prop :=
  ∀ u,
    URI.fromString str = some u →
      URI.fromString u.toString = some u

/- A URI is made from the text only if the text matches. -/
def OnlyWhole (str : List UInt8) : Prop :=
  (URI.fromString str).isSome = true → str ∈ uri.matches'

theorem text_readsBack_iff (str : List UInt8) :
    ReadsBack str ↔
      ∀ u, URI.fromString str = some u → u.Keeps := by
  have hEach (u : URI) (hFound : URI.fromString str = some u) :
      URI.fromString u.toString = some u ↔ u.Keeps := by
    rcases fromString_eq_some hFound with
      ⟨tags, hValid, -, rfl⟩
    exact fromString_toString_iff (parsed_toURI hValid)
  constructor
  · intro hReads u hFound
    exact (hEach u hFound).mp (hReads u hFound)
  · intro hKeeps u hFound
    exact (hEach u hFound).mpr (hKeeps u hFound)

theorem onlyWhole_iff (str : List UInt8) :
    OnlyWhole str ↔
      (StartsWithScheme str → str ∈ uri.matches') := by
  unfold OnlyWhole
  rw [fromString_isSome_iff]

/-
  When the codec does what it should: ASCII is decoded as it was
  encoded, a text that starts like a URI is one as a whole, and
  a URI that keeps its parts is read back.
-/
theorem uri_codec_iff (bytes str : List UInt8) :
    (decode (encode bytes) = bytes ↔ IsAscii bytes) ∧
      (OnlyWhole str ↔
        (StartsWithScheme str → str ∈ uri.matches')) ∧
        (ReadsBack str ↔
          ∀ u, URI.fromString str = some u → u.Keeps) := by
  refine ⟨?_, ?_, ?_⟩
  · exact decode_encode_iff bytes
  · exact onlyWhole_iff str
  · exact text_readsBack_iff str

/- `a: ` -/
def spaceText : List UInt8 :=
  ascii ['a', ':', ' ']

/- `s://u@` -/
def userTags : Tags :=
  { scheme := ascii ['s']
    authority :=
      some { userinfo := some (ascii ['u']), host := [], port := none }
    path := []
    query := none
    fragment := none }

theorem letters_uri :
    allLetters (· ≠ 0x20) uri = true := by
  decide

theorem single_mem_scheme
    {ch : UInt8}
    (hAlpha : [ch] ∈ ALPHA.matches') :
    [ch] ∈ scheme.matches' :=
  mem_mul.mpr ⟨[ch], hAlpha, [], nil_mem_star _, rfl⟩

theorem not_onlyWhole_spaceText : ¬OnlyWhole spaceText := by
  rw [onlyWhole_iff]
  intro hOnly
  have hScheme : ascii ['a'] ∈ scheme.matches' :=
    single_mem_scheme (mem_ALPHA (by decide))
  have hMem := hOnly ⟨ascii ['a'], hScheme, ⟨ascii [' '], rfl⟩⟩
  exact not_mem_of_letters letters_uri hMem (by decide)

theorem userTags_isValid : userTags.isValid = true := by
  rw [Tags.isValid_iff]
  refine
    ⟨single_mem_scheme (mem_ALPHA (by decide)), ?_,
      nil_mem_star _, ?_, ?_⟩
  · show AuthorityTags.isValid _ = true
    rw [AuthorityTags.isValid_iff]
    refine ⟨?_, mem_add.mpr (.inr (nil_mem_star _)), ?_⟩
    · have hSlash : SLASH ∉ ascii ['u'] := by
        decide
      exact written_mem (encode_mem_user_info hSlash)
    · intro word hNone
      cases hNone
  · intro word hNone
    cases hNone
  · intro word hNone
    cases hNone

theorem not_readsBack_userTags : ¬ReadsBack userTags.text := by
  rw [text_readsBack_iff]
  intro hKeeps
  have hFound := fromString_text userTags_isValid
  have hBoth := (hKeeps _ hFound).authority rfl
  exact absurd hBoth.1 (by decide)

/-
  One byte above 0x7F becomes seven, a space after a URI goes
  unnoticed, and a user without a host is lost.
-/
theorem not_uri_codec :
    ¬decode (encode [0xE3]) = [0xE3] ∧
      ¬OnlyWhole spaceText ∧ ¬ReadsBack userTags.text := by
  refine ⟨?_, ?_, ?_⟩
  · decide
  · exact not_onlyWhole_spaceText
  · exact not_readsBack_userTags

end Uri

end Ydsh
