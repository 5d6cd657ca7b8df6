import Ydsh.Uri.Codec
import Ydsh.Uri.Grammar

/-
  URIs, and their text.

  The generated parser takes the longest match that starts at
  the first byte, and nobody asks whether it reaches the end.

  Main declarations:
    * `URI`
    * `URI.fromString`
    * `URI.toString`
    * `fromString_text`
    * `fromString_isSome_iff`
-/

----
-- URIs
----

namespace Ydsh

namespace Uri

open Library Library.Regex RegularExpression

structure Authority where
  userinfo : List UInt8
  host : List UInt8
  port : List UInt8
deriving DecidableEq

structure URI where
  scheme : List UInt8
  authority : Authority
  path : List UInt8
  query : List UInt8
  fragment : List UInt8
deriving DecidableEq

/- Empty without tags. -/
def create (part : Option (List UInt8)) : List UInt8 :=
  part.elim [] decode

def Tags.toURI (tags : Tags) : URI :=
  { scheme := create (some tags.scheme)
    authority :=
      { userinfo := create (tags.authority.bind (·.userinfo))
        host := create (tags.authority.map (·.host))
        port := create (tags.authority.bind (·.port)) }
    path := create (some tags.path)
    query := create tags.query
    fragment := create tags.fragment }

namespace URI

/- No result if the text has no prefix that matches. -/
def fromString (str : List UInt8) : Option URI :=
  (str.inits.reverse.findSome? matchWhole).map Tags.toURI

end URI

def Authority.toString (authority : Authority) : List UInt8 :=
  (if authority.userinfo ≠ [] then
      encode authority.userinfo ++ [AT]
    else
      []) ++
    encode authority.host ++
      if authority.port ≠ [] then
        COLON :: encode authority.port
      else
        []

namespace URI

/- The text has an authority. -/
def hasAuthority (u : URI) : Bool :=
  u.authority.host ≠ [] || [SLASH].isPrefixOf u.path

def toString (u : URI) : List UInt8 :=
  u.scheme ++ [COLON] ++
    (if u.hasAuthority then
      SLASHES ++ u.authority.toString
    else
      []) ++
    encode u.path ++
    (if u.query ≠ [] then QUESTION :: encode u.query else []) ++
    if u.fragment ≠ [] then HASH :: encode u.fragment else []

end URI

----
-- Matching
----

theorem findSome_of_last
    {α β : Type}
    {f : α → Option β}
    {xs : List α}
    {x : α}
    {y : β}
    (hFound : f x = some y) :
    (xs ++ [x]).reverse.findSome? f = some y := by
  rw [List.reverse_append, List.reverse_singleton,
    List.singleton_append, List.findSome?_cons, hFound]

theorem inits_eq_concat
    {α : Type}
    (xs : List α) :
    ∃ shorter, xs.inits = shorter ++ [xs] := by
  induction xs with
  | nil => exact ⟨[], rfl⟩
  | cons x xs ih =>
      rcases ih with ⟨shorter, hShorter⟩
      refine ⟨[] :: shorter.map (fun t => x :: t), ?_⟩
      rw [List.inits_cons, hShorter, List.map_append]
      rfl

/- A text that matches as a whole is taken as a whole. -/
theorem fromString_text
    {tags : Tags}
    (hValid : tags.isValid = true) :
    URI.fromString tags.text = some tags.toURI := by
  have hMatch : matchWhole tags.text = some tags :=
    matchWhole_eq_some_iff.mpr ⟨hValid, rfl⟩
  rcases inits_eq_concat tags.text with ⟨shorter, hSplit⟩
  unfold URI.fromString
  rw [hSplit, findSome_of_last hMatch]
  rfl

theorem fromString_eq_some
    {str : List UInt8}
    {u : URI}
    (hFound : URI.fromString str = some u) :
    ∃ tags : Tags,
      tags.isValid = true ∧ tags.text <+: str ∧
        tags.toURI = u := by
  rcases Option.map_eq_some_iff.mp hFound with
    ⟨tags, hTags, hURI⟩
  rcases List.exists_of_findSome?_eq_some hTags with
    ⟨word, hMem, hMatch⟩
  rw [List.mem_reverse, List.mem_inits] at hMem
  rcases matchWhole_eq_some_iff.mp hMatch with ⟨hValid, rfl⟩
  exact ⟨tags, hValid, hMem, hURI⟩

/- Some beginning of the text matches the grammar. -/
theorem fromString_isSome_iff_leading (str : List UInt8) :
    (URI.fromString str).isSome = true ↔
      ∃ word, word <+: str ∧ word ∈ uri.matches' := by
  constructor
  · intro hSome
    rcases Option.isSome_iff_exists.mp hSome with ⟨u, hFound⟩
    rcases fromString_eq_some hFound with
      ⟨tags, hValid, hPrefix, -⟩
    exact
      ⟨tags.text, hPrefix,
        mem_uri_iff.mpr ⟨tags, hValid, rfl⟩⟩
  · rintro ⟨word, hPrefix, hWord⟩
    rcases mem_uri_iff.mp hWord with ⟨tags, hValid, rfl⟩
    unfold URI.fromString
    rw [Option.isSome_map, List.findSome?_isSome_iff]
    refine ⟨tags.text, ?_, ?_⟩
    · rw [List.mem_reverse, List.mem_inits]
      exact hPrefix
    · rw [matchWhole_eq_some_iff.mpr ⟨hValid, rfl⟩]
      rfl

/- The text starts with a scheme and a colon. -/
def StartsWithScheme (str : List UInt8) : Prop :=
  ∃ word ∈ scheme.matches', word ++ [COLON] <+: str

/- A scheme and a colon are a URI with nothing more. -/
def bareTags (word : List UInt8) : Tags :=
  { scheme := word
    authority := none
    path := []
    query := none
    fragment := none }

theorem bareTags_isValid
    {word : List UInt8}
    (hWord : word ∈ scheme.matches') :
    (bareTags word).isValid = true := by
  rw [Tags.isValid_iff]
  refine ⟨hWord, rfl, ?_, ?_, ?_⟩
  · show [] ∈ Tags.plainPath.matches'
    rw [← rmatch_iff_matches']
    decide
  · intro other hNone
    cases hNone
  · intro other hNone
    cases hNone

theorem fromString_isSome_iff (str : List UInt8) :
    (URI.fromString str).isSome = true ↔
      StartsWithScheme str := by
  rw [fromString_isSome_iff_leading]
  constructor
  · rintro ⟨word, hPrefix, hWord⟩
    rcases mem_uri_iff.mp hWord with ⟨tags, hValid, rfl⟩
    refine ⟨tags.scheme, ((Tags.isValid_iff _).mp hValid).1, ?_⟩
    apply List.IsPrefix.trans _ hPrefix
    unfold Tags.text join
    rw [Option.elim_some]
    exact ⟨_, List.append_assoc _ _ _⟩
  · rintro ⟨word, hWord, hPrefix⟩
    exact
      ⟨word ++ [COLON], hPrefix,
        mem_uri_iff.mpr
          ⟨bareTags word, bareTags_isValid hWord, rfl⟩⟩

end Uri

end Ydsh
