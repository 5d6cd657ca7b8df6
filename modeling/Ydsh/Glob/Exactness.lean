import Ydsh.Glob.Fragments

/-
  When the fragments of an argument or of a path are globbed
  as their concatenation.

  Main declarations:
    * `symbolsOf_fragments`
    * `exact_iff`
-/

----
-- Arguments and Paths
----

namespace Ydsh

namespace Glob

open Library
open Library.Faulting

theorem symbolsOf_append
    (frags more : List Fragment) :
    symbolsOf (frags ++ more) =
      symbolsOf frags ++ symbolsOf more :=
  List.flatMap_append

theorem symbolsOf_appendLast
    {stack : List Fragment}
    {top : List UInt8}
    (hLast : stack.getLast? = some (.str top))
    (value : List UInt8) :
    symbolsOf (appendLast stack value) =
      symbolsOf stack ++ value.map Symbol.lit := by
  have hStack : stack = stack.dropLast ++ [.str top] := by
    rw [List.dropLast_append_getLast?]
    exact hLast
  unfold appendLast
  rw [hLast]
  show
    symbolsOf (stack.dropLast ++ [.str (top ++ value)]) = _
  rw [symbolsOf_append]
  conv =>
    rhs
    rw [hStack, symbolsOf_append]
  unfold symbolsOf Fragment.symbols
  simp

theorem getLast?_appendLast
    {stack : List Fragment}
    {top : List UInt8}
    (hLast : stack.getLast? = some (.str top))
    (value : List UInt8) :
    (appendLast stack value).getLast? =
      some (.str (top ++ value)) := by
  unfold appendLast
  rw [hLast]
  exact List.getLast?_concat

/- Concatenation changes no symbol. -/
theorem symbolsOf_pushSegments
    (segs stack : List Fragment)
    {concat : Bool}
    (hConcat :
      concat = true →
        ∃ top, stack.getLast? = some (.str top)) :
    symbolsOf (pushSegments stack concat segs) =
      symbolsOf stack ++ symbolsOf segs := by
  induction segs generalizing stack concat with
  | nil =>
      rw [pushSegments]
      exact (List.append_nil _).symm
  | cons seg segs ih =>
      cases seg with
      | wildcard kind =>
          rw [pushSegments, ih]
          · rw [symbolsOf_append, List.append_assoc]
            rfl
          · intro hFalse
            cases hFalse
      | str value =>
          rw [pushSegments]
          cases concat with
          | true =>
              rcases hConcat rfl with ⟨top, hLast⟩
              rw [if_pos rfl, ih]
              · rw [symbolsOf_appendLast hLast,
                  List.append_assoc]
                rfl
              · intro _
                exact ⟨_, getLast?_appendLast hLast value⟩
          | false =>
              rw [if_neg (by decide), ih]
              · rw [symbolsOf_append, List.append_assoc,
                  ← symbolsOf_append]
                rfl
              · intro _
                exact ⟨_, List.getLast?_concat⟩

theorem symbolsOf_fragments
    (use : GlobUse)
    (segs : List Fragment) :
    symbolsOf (use.fragments segs) = symbolsOf segs := by
  cases use with
  | command =>
      apply symbolsOf_pushSegments segs []
      intro hFalse
      cases hFalse
  | source => rfl

theorem sameExpansion_of_noEmpty
    {use : GlobUse}
    {segs : List Fragment}
    (hExact :
      MakesMatcher use segs → NoEmpty (use.fragments segs))
    (hGlob : checkGlobPath segs = true) :
    SameExpansion use segs := by
  have hMatch :
      MakesMatcher use segs →
        ∀ env base bound,
          Agree Eq
            (globMatch
              (FragmentIter.pattern (use.fragments segs)) env
              base bound
              (FragmentIter.begin (use.fragments segs)))
            (globMatch symbolPattern env base bound
              (symbolsOf segs)) := by
    intro hMakes env base bound
    have hStands :=
      FragmentIter.stands_begin (hExact hMakes)
    rw [symbolsOf_fragments] at hStands
    exact
      (FragmentIter.simulates hMakes.2.1
        (hExact hMakes)).globMatch env base bound hStands
  cases use with
  | command =>
      intro glob bound
      unfold addGlobbingPath
      by_cases hNull : HasNull (cmdFragments segs)
      · have hAny :
            (GlobUse.command.fragments segs).any
                Fragment.hasNullChar =
              true :=
          hNull
        rw [if_pos hAny, if_pos hAny]
        refine ⟨rfl, ?_⟩
        intro hFault
        cases hFault
      · have hAny :
            ¬(GlobUse.command.fragments segs).any
                Fragment.hasNullChar =
              true :=
          hNull
        have hAgree :=
          hMatch ⟨hGlob, hNull, trivial⟩ glob.env none bound
        rw [if_neg hAny, if_neg hAny, ← hAgree.eq]
        exact ⟨rfl, hAgree.map_ne_fault _⟩
  | source =>
      intro glob bound
      unfold resolvePathList
      by_cases hNull : HasNull segs
      · have hAny :
            (GlobUse.source.fragments segs).any
                Fragment.hasNullChar =
              true :=
          hNull
        rw [if_pos hAny, if_pos hAny]
        refine ⟨rfl, ?_⟩
        intro hFault
        cases hFault
      · have hAny :
            ¬(GlobUse.source.fragments segs).any
                Fragment.hasNullChar =
              true :=
          hNull
        rw [if_neg hAny, if_neg hAny]
        by_cases hDir : isDirPattern segs = true
        · have hIs :
              isDirPattern (GlobUse.source.fragments segs) =
                true :=
            hDir
          rw [if_pos hIs, if_pos hIs]
          refine ⟨rfl, ?_⟩
          intro hFault
          cases hFault
        · have hIs :
              ¬isDirPattern (GlobUse.source.fragments segs) =
                true :=
            hDir
          have hAgree :=
            hMatch
              ⟨hGlob, hNull, Bool.eq_false_iff.mpr hDir⟩
              glob.env (some glob.scriptDir) bound
          rw [if_neg hIs, if_neg hIs, ← hAgree.eq]
          exact ⟨rfl, hAgree.map_ne_fault _⟩

/-
  The iterator presents an argument or a path exactly when no
  fragment it walks over is an empty string.
-/
theorem exact_iff
    (use : GlobUse)
    (segs : List Fragment) :
    Exact use segs ↔
      (MakesMatcher use segs →
        NoEmpty (use.fragments segs)) := by
  constructor
  · intro hExact hMakes
    exact
      FragmentIter.noEmpty_of_presents hMakes.2.1
        (hExact.1 hMakes)
  · intro hNonempty
    constructor
    · intro hMakes
      exact
        presents_of_noEmpty hMakes.2.1 (hNonempty hMakes)
    · exact sameExpansion_of_noEmpty hNonempty

/- `""*` -/
theorem not_exact_emptyStar :
    ¬Exact .command [.str [], .wildcard .ZERO_OR_MORE] := by
  intro hExact
  have hMakes :
      MakesMatcher .command
        [.str [], .wildcard .ZERO_OR_MORE] := by
    refine ⟨by decide, by decide, trivial⟩
  have hNonempty :=
    FragmentIter.noEmpty_of_presents hMakes.2.1
      (hExact.1 hMakes)
  exact hNonempty List.mem_cons_self

end Glob

end Ydsh
