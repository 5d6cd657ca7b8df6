import Ydsh.Folding.Agreement
import Ydsh.Folding.Places

/-
  When folding and running agree.

  A variable that is not the predefined one of its name may hold
  a string that is as long as a string may be.  This string is
  then the whole result of the run, whatever it is made of, and
  so two such strings yield two results for one constant.

  Main declarations:
    * `Store.filled`
    * `faithful_or_infix`
    * `Agrees`
    * `applyConstFolding_agrees_iff`
-/

----
-- Constants of Faithful Expressions
----

namespace Ydsh

namespace Folding

open RegexObject (Bytes MAX_SIZE Str)

open Scope (FieldHandle ScopeStore ScopeRef)

open Folded

variable {shell : Shell}
variable {place : Place}
variable {left : Option Bytes}
variable {text : Bytes}
variable {value : Value}

theorem foldInt_of_fits
    {op : UnaryOp}
    {number : Int64}
    (hFits :
      op = .minus →
        Builtin.fitsInt64 (-number.toInt) = true) :
    ∃ result, foldInt op number = .constant (.int result) := by
  cases op with
  | minus =>
      refine ⟨.ofInt (-number.toInt), ?_⟩
      simp only [foldInt, Builtin.negate, Builtin.signedResult,
        if_pos (hFits rfl)]
  | _ => exact ⟨_, rfl⟩

theorem expectString_ne_refused
    {folded : Folded}
    {next : Bytes → Folded}
    (hNext : folded.expectString next ≠ .refused) :
    folded ≠ .refused := by
  intro hRefused
  rw [hRefused] at hNext
  exact hNext rfl

mutual

/- A faithful expression that is not refused is folded. -/
theorem constant_of_faithful :
    ∀ node : Node,
      WellTyped shell place node →
        Faithful place node →
          applyConstFolding shell node ≠ .refused →
            ∃ value,
              applyConstFolding shell node = .constant value
  | .string text, hTyped, hFaithful, hFolded => ⟨_, rfl⟩
  | .int number, hTyped, hFaithful, hFolded => ⟨_, rfl⟩
  | .number typeId bits, hTyped, hFaithful, hFolded => ⟨_, rfl⟩
  | .regex reStr reFlag, hTyped, hFaithful, hFolded => by
      rcases Option.isSome_iff_exists.mp hTyped with
        ⟨flags, hFlags⟩
      refine ⟨.regex reStr.1 flags, ?_⟩
      unfold applyConstFolding foldRegex
      rw [hFlags]
  | .unaryOp op type recv, hTyped, hFaithful, hFolded => by
      unfold applyConstFolding at hFolded ⊢
      by_cases hInt : isIntOp op type = true
      · rw [if_pos hInt] at hFolded ⊢
        have hRecv :
            applyConstFolding shell recv ≠ .refused := by
          intro hRefused
          rw [hRefused] at hFolded
          exact hFolded rfl
        rcases
            constant_of_faithful recv hTyped.1 hFaithful.1
              hRecv with
          ⟨value, hValue⟩
        rcases
            int_of_constant hTyped.1 (hTyped.2 hInt) hValue with
          ⟨number, hNumber⟩
        rw [hNumber] at hValue
        have hFits := hFaithful.2
        rw [intValue_eq recv number hValue] at hFits
        rcases foldInt_of_fits hFits with ⟨result, hResult⟩
        rw [hValue]
        exact ⟨.int result, hResult⟩
      · rw [if_neg hInt] at hFolded
        exact absurd rfl hFolded
  | .stringExpr exprs, hTyped, hFaithful, hFolded =>
      constant_of_faithfulParts exprs [] hTyped hFaithful hFolded
  | .embed none expr, hTyped, hFaithful, hFolded =>
      constant_of_faithful expr hTyped hFaithful hFolded
  | .embed (some method) expr, hTyped, hFaithful, hFolded =>
      absurd rfl hFolded
  | .var varName handle, hTyped, hFaithful, hFolded => by
      have hType := place.typeId_of_predefined hTyped hFaithful
      unfold applyConstFolding foldVar at hFolded ⊢
      cases hConst : constValue shell varName handle with
      | none =>
          rw [hConst] at hFolded
          exact absurd rfl hFolded
      | some found =>
          refine ⟨.string found.1, ?_⟩
          exact if_pos hType
  | .newRegex str flag, hTyped, hFaithful, hFolded => by
      unfold applyConstFolding at hFolded ⊢
      rcases
          constant_of_faithful str hTyped.1 hFaithful.1
            (expectString_ne_refused hFolded) with
        ⟨value, hStr⟩
      rcases
          string_of_constant hTyped.1 hTyped.2.2.1 hStr with
        ⟨pattern, hPattern⟩
      rw [hStr, hPattern] at hFolded ⊢
      rcases
          constant_of_faithful flag hTyped.2.1 hFaithful.2
            (expectString_ne_refused hFolded) with
        ⟨value', hFlag⟩
      rcases
          string_of_constant hTyped.2.1 hTyped.2.2.2 hFlag with
        ⟨flags, hFlags⟩
      simp only [expectString, hFlag, hFlags, foldRegex]
        at hFolded ⊢
      cases hCompile : compileRegex shell pattern flags with
      | none =>
          rw [hCompile] at hFolded
          exact absurd rfl hFolded
      | some found => exact ⟨_, rfl⟩
  | .other type id, hTyped, hFaithful, hFolded =>
      absurd rfl hFolded

theorem constant_of_faithfulParts :
    ∀ (exprs : Nodes) (acc : Bytes),
      WellTypedParts shell place exprs →
        FaithfulParts place exprs →
          foldExprs shell acc exprs ≠ .refused →
            ∃ value,
              foldExprs shell acc exprs = .constant value
  | .nil, acc, hTyped, hFaithful, hFolded => ⟨_, rfl⟩
  | .cons node rest, acc, hTyped, hFaithful, hFolded => by
      unfold foldExprs at hFolded ⊢
      rcases
          constant_of_faithful node hTyped.1 hFaithful.1
            (expectString_ne_refused hFolded) with
        ⟨value, hNode⟩
      rcases
          string_of_constant hTyped.1 hTyped.2.1 hNode with
        ⟨part, hPart⟩
      rw [hNode, hPart] at hFolded ⊢
      exact
        constant_of_faithfulParts rest (acc ++ part) hTyped.2.2
          hFaithful.2 hFolded

end

----
-- Strings that Fill the Limit
----

/- The predefined variable that is there, if there is one. -/
def predefinedAt
    (place : Place)
    (found : Storage) : Option String :=
  predefinedNames.find?
    (fun name => place.predefined name == some found)

/- All other variables hold the text. -/
def Store.filled
    (shell : Shell)
    (place : Place)
    (text : Str) : Store shell place where
  load := fun found =>
    match predefinedAt place found with
    | some name =>
        match shell.predefined name with
        | some value => .value (.string value.1)
        | none => .undefined
    | none => .value (.string text.1)
  other := fun _ => .undefined
  predefined := by
    intro name found value hPlace hShell
    have hMem := (Place.predefined_eq_some hPlace).1
    cases hAt : predefinedAt place found with
    | none =>
        have hNone := List.find?_eq_none.mp hAt name hMem
        exact absurd (beq_iff_eq.mpr hPlace) hNone
    | some other =>
        have hOther :=
          beq_iff_eq.mp
            (List.find?_some
              (p := fun name => place.predefined name == some found)
              hAt)
        have hSame := Place.eq_of_predefined hOther hPlace
        simp only [hSame, hShell]
  bounded := by
    intro found value hLoad
    cases hAt : predefinedAt place found with
    | none =>
        simp only [hAt] at hLoad
        cases hLoad
        exact text.2
    | some name =>
        simp only [hAt] at hLoad
        cases hShell : shell.predefined name with
        | none =>
            simp only [hShell] at hLoad
            cases hLoad
        | some found =>
            simp only [hShell] at hLoad
            cases hLoad
            exact found.2
  other_bounded := by
    intro node value hOther
    cases hOther

/- A variable that is not the predefined one of its name is
   filled. -/
theorem load_filled
    {varName : String}
    {handle : FieldHandle}
    (filler : Str)
    (hTyped :
      place.scopes.lookup place.scope varName = some handle)
    (hOther :
      place.predefined varName ≠ some (storage handle)) :
    (Store.filled shell place filler).load (storage handle) =
      .value (.string filler.1) := by
  have hNone : predefinedAt place (storage handle) = none := by
    apply List.find?_eq_none.mpr
    intro name _ hIs
    have hName := beq_iff_eq.mp hIs
    rw [place.eq_of_lookup hTyped hName] at hName
    exact hOther hName
  simp only [Store.filled, hNone]

theorem infix_join
    {outcome : Outcome}
    {filler : Bytes}
    (hLeft : LeftFits left)
    (hOutcome :
      ∀ right,
        outcome = .value (.string right) →
          right.length ≤ MAX_SIZE ∧ filler <:+: right)
    (hText : join left outcome = .value (.string text)) :
    filler <:+: text := by
  rcases
      (extends_join hLeft (fun right hRight =>
        (hOutcome right hRight).1) hText).2 with
    ⟨right, hRight, hEq⟩
  rw [hEq]
  exact
    (hOutcome right hRight).2.trans
      (List.suffix_append _ right).isInfix

mutual

/- A string expression is faithful, or the filled variable is
   part of the result. -/
theorem faithful_or_infix
    (filler : Str) :
    ∀ (node : Node) (left : Option Bytes) (folded text : Bytes),
      WellTyped shell place node →
        applyConstFolding shell node =
            .constant (.string folded) →
          LeftFits left →
            visit (Store.filled shell place filler) left node =
                .value (.string text) →
              Faithful place node ∨ filler.1 <:+: text
  | .string found, left, folded, text, hTyped, hValue, hLeft,
    hText => Or.inl trivial
  | .int number, left, folded, text, hTyped, hValue, hLeft,
    hText => Or.inl trivial
  | .number typeId bits, left, folded, text, hTyped, hValue,
    hLeft, hText => Or.inl trivial
  | .regex reStr reFlag, left, folded, text, hTyped, hValue,
    hLeft, hText => Or.inl trivial
  | .unaryOp op type recv, left, folded, text, hTyped, hValue,
    hLeft, hText =>
      absurd hValue unaryOp_ne_string
  | .stringExpr exprs, left, folded, text, hTyped, hValue, hLeft,
    hText =>
      faithfulParts_or_infix filler exprs left [] _ text hTyped
        hValue hLeft hText
  | .embed none expr, left, folded, text, hTyped, hValue, hLeft,
    hText => by
      unfold visit at hText
      by_cases hConcat : isConcat expr = true
      · rw [if_pos hConcat] at hText
        exact
          faithful_or_infix filler expr left folded text hTyped
            hValue hLeft hText
      · rw [if_neg hConcat] at hText
        by_cases hFaithful : Faithful place expr
        · exact Or.inl hFaithful
        · right
          apply infix_join hLeft _ hText
          intro right hRight
          refine
            ⟨(visit_extends _ expr none right (Nat.zero_le _)
              hRight).fits, ?_⟩
          rcases
              faithful_or_infix filler expr none folded right
                hTyped hValue (Nat.zero_le _) hRight with
            hIs | hInfix
          · exact absurd hIs hFaithful
          · exact hInfix
  | .embed (some method) expr, left, folded, text, hTyped, hValue,
    hLeft, hText => by
      cases hValue
  | .var varName handle, left, folded, text, hTyped, hValue,
    hLeft, hText => by
      by_cases hFaithful :
          place.predefined varName = some (storage handle)
      · exact Or.inl hFaithful
      · right
        have hLoad :=
          @load_filled shell place varName handle filler hTyped
            hFaithful
        unfold visit at hText
        rw [hLoad] at hText
        apply infix_join hLeft _ hText
        intro right hRight
        cases hRight
        exact ⟨filler.2, List.infix_refl _⟩
  | .newRegex str flag, left, folded, text, hTyped, hValue, hLeft,
    hText =>
      absurd hValue newRegex_ne_string
  | .other type id, left, folded, text, hTyped, hValue, hLeft,
    hText => by
      cases hValue

theorem faithfulParts_or_infix
    (filler : Str) :
    ∀ (exprs : Nodes) (left : Option Bytes) (acc : Bytes)
      (value : Value) (text : Bytes),
      WellTypedParts shell place exprs →
        foldExprs shell acc exprs = .constant value →
          LeftFits left →
            visitParts (Store.filled shell place filler) left
                exprs =
                .value (.string text) →
              FaithfulParts place exprs ∨ filler.1 <:+: text
  | .nil, left, acc, value, text, hTyped, hValue, hLeft, hText =>
      Or.inl trivial
  | .cons node rest, left, acc, value, text, hTyped, hValue,
    hLeft, hText => by
      rcases expectString_eq_constant hValue with
        ⟨folded, hNode, hFold⟩
      rcases expectString_eq_value hText with
        ⟨part, hPart, hRest⟩
      have hHead := visit_extends _ node left part hLeft hPart
      have hTail :=
        visitParts_extends _ rest (some part) text hHead.fits
          hRest
      rcases
          faithful_or_infix filler node left folded part hTyped.1
            hNode hLeft hPart with
        hFaithful | hInfix
      · rcases
            faithfulParts_or_infix filler rest (some part) _
              value text hTyped.2.2 hFold hHead.fits hRest with
          hFaithfulRest | hInfix
        · exact Or.inl ⟨hFaithful, hFaithfulRest⟩
        · exact Or.inr hInfix
      · exact Or.inr (hInfix.trans hTail.begins.isInfix)

end

----
-- Agreement
----

/- The expression is folded, and the constant is what it yields
   whatever the variables hold. -/
def Agrees
    (shell : Shell)
    (place : Place)
    (node : Node) : Prop :=
  ∃ value,
    applyConstFolding shell node = .constant value ∧
      ∀ store : Store shell place,
        visit store none node = .value value

theorem length_of_fits :
    ∀ (node : Node) (text : Bytes),
      applyConstFolding shell node = .constant (.string text) →
        Fits shell node → text.length ≤ MAX_SIZE
  | .string found, text, hValue, hFits => by
      cases hValue
      exact found.2
  | .int number, text, hValue, hFits => by
      cases hValue
  | .number typeId bits, text, hValue, hFits => by
      cases hValue
  | .regex reStr reFlag, text, hValue, hFits =>
      absurd hValue foldRegex_ne_string
  | .unaryOp op type recv, text, hValue, hFits => by
      have hLength := length_of_constant _ text hValue
      rw [hLength]
      exact Nat.zero_le _
  | .stringExpr exprs, text, hValue, hFits => by
      have hLength := length_of_constant _ text hValue
      rw [hLength]
      exact hFits
  | .embed none expr, text, hValue, hFits =>
      length_of_fits expr text hValue hFits
  | .embed (some method) expr, text, hValue, hFits => by
      cases hValue
  | .var varName handle, text, hValue, hFits => by
      rcases foldVar_eq_constant hValue with
        ⟨_, found, _, hText⟩
      cases hText
      exact found.2
  | .newRegex str flag, text, hValue, hFits => by
      have hLength := length_of_constant _ text hValue
      rw [hLength]
      exact Nat.zero_le _
  | .other type id, text, hValue, hFits => by
      cases hValue

theorem fits_of_length :
    ∀ (node : Node) (text : Bytes),
      applyConstFolding shell node = .constant (.string text) →
        text.length ≤ MAX_SIZE → Fits shell node
  | .stringExpr exprs, text, hValue, hLength => by
      rw [length_of_constant _ text hValue] at hLength
      exact hLength
  | .embed none expr, text, hValue, hLength =>
      fits_of_length expr text hValue hLength
  | .embed (some method) expr, text, hValue, hLength => by
      cases hValue
  | .newRegex str flag, text, hValue, hLength =>
      absurd hValue newRegex_ne_string
  | .string _, _, _, _ => trivial
  | .int _, _, _, _ => trivial
  | .number _ _, _, _, _ => trivial
  | .regex _ _, _, _, _ => trivial
  | .unaryOp _ _ _, _, _, _ => trivial
  | .var _ _, _, _, _ => trivial
  | .other _ _, _, _, _ => trivial

/- A faithful string within the limit yields its constant. -/
theorem visit_string_of_faithful
    {node : Node}
    (store : Store shell place)
    (hTyped : WellTyped shell place node)
    (hFaithful : Faithful place node)
    (hFits : Fits shell node)
    (hValue :
      applyConstFolding shell node = .constant (.string text)) :
    visit store none node = .value (.string text) := by
  have hLength := length_of_fits node text hValue hFits
  have hVisit :=
    visit_eq_joinText store node none text hTyped hFaithful
      hValue (Nat.zero_le _)
  have hAlone : 0 + text.length ≤ MAX_SIZE := by
    rw [Nat.zero_add]
    exact hLength
  rw [hVisit]
  exact if_pos hAlone

theorem visit_embed
    {expr : Node}
    (store : Store shell place) :
    visit store none (.embed none expr) =
      visit store none expr := by
  conv_lhs => unfold visit
  by_cases hConcat : isConcat expr = true
  · rw [if_pos hConcat]
  · rw [if_neg hConcat]
    rfl

/- An integer expression does not depend on variables. -/
theorem int_of_faithful
    (store : Store shell place) :
    ∀ (node : Node) (number : Int64),
      WellTyped shell place node →
        applyConstFolding shell node = .constant (.int number) →
          Faithful place node ∧ Fits shell node ∧
            visit store none node = .value (.int number)
  | .string text, number, hTyped, hValue => by
      cases hValue
  | .int found, number, hTyped, hValue => by
      cases hValue
      exact ⟨trivial, trivial, rfl⟩
  | .number typeId bits, number, hTyped, hValue => by
      cases hValue
  | .regex reStr reFlag, number, hTyped, hValue =>
      absurd hValue foldRegex_ne_int
  | .unaryOp op type recv, number, hTyped, hValue => by
      rcases unaryOp_eq_constant hValue with
        ⟨hInt, found, hRecv, hFold⟩
      rcases foldInt_eq_constant hFold with
        ⟨hFits, result, hResult, hCall⟩
      rcases int_of_faithful store recv found hTyped.1 hRecv
        with ⟨hFaithful, _, hInner⟩
      rw [← intValue_eq recv found hRecv] at hFits
      refine ⟨⟨hFaithful, hFits⟩, trivial, ?_⟩
      unfold visit join
      rw [if_pos hInt, hInner, hResult]
      exact hCall
  | .stringExpr exprs, number, hTyped, hValue => by
      rcases string_of_foldExprs hValue with ⟨text, hText⟩
      cases hText
  | .embed none expr, number, hTyped, hValue => by
      rw [visit_embed]
      exact int_of_faithful store expr number hTyped hValue
  | .embed (some method) expr, number, hTyped, hValue => by
      cases hValue
  | .var varName handle, number, hTyped, hValue => by
      rcases foldVar_eq_constant hValue with ⟨_, _, _, hText⟩
      cases hText
  | .newRegex str flag, number, hTyped, hValue =>
      absurd hValue newRegex_ne_int
  | .other type id, number, hTyped, hValue => by
      cases hValue

theorem visit_of_faithful
    (store : Store shell place) :
    ∀ (node : Node) (value : Value),
      WellTyped shell place node →
        Faithful place node →
          Fits shell node →
            applyConstFolding shell node = .constant value →
              visit store none node = .value value
  | .string text, value, hTyped, hFaithful, hFits, hValue => by
      cases hValue
      rfl
  | .int number, value, hTyped, hFaithful, hFits, hValue => by
      cases hValue
      rfl
  | .number typeId bits, value, hTyped, hFaithful, hFits,
    hValue => by
      cases hValue
      rfl
  | .regex reStr reFlag, value, hTyped, hFaithful, hFits,
    hValue => by
      rcases foldRegex_eq_constant hValue with
        ⟨flags, hCompile, hRegex⟩
      unfold visit join loadRegex
      rw [hCompile, hRegex]
  | .unaryOp op type recv, value, hTyped, hFaithful, hFits,
    hValue => by
      rcases unaryOp_eq_constant hValue with ⟨_, _, _, hFold⟩
      rcases foldInt_eq_constant hFold with
        ⟨_, result, hResult, _⟩
      rw [hResult] at hValue ⊢
      exact (int_of_faithful store _ result hTyped hValue).2.2
  | .stringExpr exprs, value, hTyped, hFaithful, hFits,
    hValue => by
      rcases string_of_foldExprs hValue with ⟨text, hText⟩
      rw [hText] at hValue ⊢
      exact
        visit_string_of_faithful store hTyped hFaithful hFits
          hValue
  | .embed none expr, value, hTyped, hFaithful, hFits, hValue => by
      rw [visit_embed]
      exact
        visit_of_faithful store expr value hTyped hFaithful
          hFits hValue
  | .embed (some method) expr, value, hTyped, hFaithful, hFits,
    hValue => by
      cases hValue
  | .var varName handle, value, hTyped, hFaithful, hFits,
    hValue => by
      rcases foldVar_eq_constant hValue with
        ⟨_, found, _, hText⟩
      rw [hText] at hValue ⊢
      exact load_of_faithful store hFaithful hValue
  | .newRegex str flag, value, hTyped, hFaithful, hFits,
    hValue => by
      rcases newRegex_eq_constant hValue with
        ⟨pattern, flags, found, hStr, hFlag, hCompile, hRegex⟩
      have hPattern :=
        visit_string_of_faithful store hTyped.1 hFaithful.1
          hFits.1 hStr
      have hFlags :=
        visit_string_of_faithful store hTyped.2.1 hFaithful.2
          hFits.2 hFlag
      unfold visit join
      rw [hPattern, hFlags, hRegex]
      simp only [Outcome.expectString, regex_init, hCompile]
  | .other type id, value, hTyped, hFaithful, hFits, hValue => by
      cases hValue

----
-- Exactness
----

/- As many bytes as a string may have. -/
def filler (byte : UInt8) : Str :=
  ⟨List.replicate MAX_SIZE byte,
    Nat.le_of_eq List.length_replicate⟩

theorem mem_filler (byte : UInt8) : byte ∈ (filler byte).1 :=
  List.mem_replicate.mpr ⟨by decide, rfl⟩

theorem eq_filler
    {byte : UInt8}
    (hInfix : (filler byte).1 <:+: text)
    (hText : text.length ≤ MAX_SIZE) :
    (filler byte).1 = text := by
  apply hInfix.eq_of_length
  apply Nat.le_antisymm hInfix.length_le
  unfold filler
  rw [List.length_replicate]
  exact hText

/- One string cannot be made of two different fillers. -/
theorem faithful_of_fillers
    {node : Node}
    (hTyped : WellTyped shell place node)
    {folded : Bytes}
    (hValue :
      applyConstFolding shell node =
        .constant (.string folded))
    (hVisit :
      ∀ byte,
        visit (Store.filled shell place (filler byte)) none
            node =
          .value (.string text)) :
    Faithful place node := by
  by_contra hNot
  have hFilled (byte : UInt8) : (filler byte).1 = text := by
    have hExtends :=
      visit_extends _ node none text (Nat.zero_le _)
        (hVisit byte)
    rcases
        faithful_or_infix (filler byte) node none folded text
          hTyped hValue (Nat.zero_le _) (hVisit byte) with
      hFaithful | hInfix
    · exact absurd hFaithful hNot
    · exact eq_filler hInfix hExtends.fits
  have hSame := (hFilled 1).trans (hFilled 2).symm
  have hMem := mem_filler 1
  rw [hSame] at hMem
  have hEq := List.eq_of_mem_replicate hMem
  exact absurd hEq (by decide)

/- A byte that is no flag is refused. -/
theorem regexFlags_eq_none
    {flag : Bytes}
    {flags : RegexFlags}
    (hMem : 1 ∈ flag) :
    regexFlags flag flags = none := by
  induction flag generalizing flags with
  | nil => cases hMem
  | cons ch rest ih =>
      unfold regexFlags
      rcases List.mem_cons.mp hMem with hHere | hLater
      · rw [← hHere]
        rfl
      · cases hFlag : toRegexFlag ch flags with
        | none => rfl
        | some next => exact ih hLater

/- The flags of a regular expression are those of its
   constant. -/
theorem faithful_of_flags
    {node : Node}
    {folded : Bytes}
    (hTyped : WellTyped shell place node)
    (hValue :
      applyConstFolding shell node =
        .constant (.string folded))
    (hVisit :
      ∃ flag pattern flags,
        visit (Store.filled shell place (filler 1)) none node =
            .value (.string flag) ∧
          compileRegex shell pattern flag = some flags) :
    Faithful place node := by
  rcases hVisit with ⟨flag, pattern, flags, hFlag, hCompile⟩
  by_contra hNot
  have hExtends :=
    visit_extends _ node none flag (Nat.zero_le _) hFlag
  rcases
      faithful_or_infix (filler 1) node none folded flag hTyped
        hValue (Nat.zero_le _) hFlag with
    hFaithful | hInfix
  · exact hNot hFaithful
  · have hNone : regexFlags flag {} = none :=
      regexFlags_eq_none (hInfix.subset (mem_filler 1))
    unfold compileRegex at hCompile
    rw [hNone] at hCompile
    by_cases hNull : pattern.contains 0 = true
    · rw [if_pos hNull] at hCompile
      cases hCompile
    · rw [if_neg hNull] at hCompile
      cases hCompile

theorem length_of_visit
    {node : Node}
    {folded : Bytes}
    (store : Store shell place)
    (hTyped : WellTyped shell place node)
    (hFaithful : Faithful place node)
    (hValue :
      applyConstFolding shell node =
        .constant (.string folded))
    (hVisit : visit store none node = .value (.string text)) :
    folded.length ≤ MAX_SIZE := by
  have hJoin :=
    visit_eq_joinText store node none folded hTyped hFaithful
      hValue (Nat.zero_le _)
  rw [hVisit] at hJoin
  by_contra hLong
  have hNot : ¬ 0 + folded.length ≤ MAX_SIZE := by
    rw [Nat.zero_add]
    exact hLong
  have hRaised : joinText none folded = .raised := if_neg hNot
  rw [hRaised] at hJoin
  cases hJoin

/- A string expression that agrees is faithful and fits. -/
theorem string_of_agrees
    {node : Node}
    (hTyped : WellTyped shell place node)
    (hValue :
      applyConstFolding shell node = .constant (.string text))
    (hVisit :
      ∀ store : Store shell place,
        visit store none node = .value (.string text)) :
    Faithful place node ∧ Fits shell node := by
  have hFaithful :=
    faithful_of_fillers hTyped hValue (fun byte => hVisit _)
  refine ⟨hFaithful, fits_of_length node text hValue ?_⟩
  exact
    length_of_visit (Store.filled shell place (filler 1)) hTyped
      hFaithful hValue (hVisit _)

/- The parts of a regular expression that is built. -/
theorem visit_newRegex
    {str flag : Node}
    {store : Store shell place}
    (hVisit :
      visit store none (.newRegex str flag) = .value value) :
    ∃ pattern option flags,
      visit store none str = .value (.string pattern) ∧
        visit store none flag = .value (.string option) ∧
          compileRegex shell pattern option = some flags ∧
            value = .regex pattern flags := by
  unfold visit join at hVisit
  rcases expectString_eq_value hVisit with
    ⟨pattern, hPattern, hRest⟩
  rcases expectString_eq_value hRest with
    ⟨option, hOption, hInit⟩
  rcases regex_init_eq_value hInit with
    ⟨flags, hCompile, hValue⟩
  exact
    ⟨pattern, option, flags, hPattern, hOption, hCompile, hValue⟩

theorem faithful_of_agrees :
    ∀ (node : Node) (value : Value),
      WellTyped shell place node →
        applyConstFolding shell node = .constant value →
          (∀ store : Store shell place,
              visit store none node = .value value) →
            Faithful place node ∧ Fits shell node
  | .string text, value, hTyped, hValue, hVisit =>
      ⟨trivial, trivial⟩
  | .int number, value, hTyped, hValue, hVisit =>
      ⟨trivial, trivial⟩
  | .number typeId bits, value, hTyped, hValue, hVisit =>
      ⟨trivial, trivial⟩
  | .regex reStr reFlag, value, hTyped, hValue, hVisit =>
      ⟨trivial, trivial⟩
  | .unaryOp op type recv, value, hTyped, hValue, hVisit => by
      rcases unaryOp_eq_constant hValue with ⟨_, _, _, hFold⟩
      rcases foldInt_eq_constant hFold with
        ⟨_, result, hResult, _⟩
      rw [hResult] at hValue
      have hInteger :=
        int_of_faithful
          (Store.filled shell place (filler 1)) _ result
          hTyped hValue
      exact ⟨hInteger.1, hInteger.2.1⟩
  | .stringExpr exprs, value, hTyped, hValue, hVisit => by
      rcases string_of_foldExprs hValue with ⟨text, hText⟩
      rw [hText] at hValue hVisit
      exact string_of_agrees hTyped hValue hVisit
  | .embed none expr, value, hTyped, hValue, hVisit =>
      faithful_of_agrees expr value hTyped hValue
        (fun store =>
          (visit_embed store).symm.trans (hVisit store))
  | .embed (some method) expr, value, hTyped, hValue,
    hVisit => by
      cases hValue
  | .var varName handle, value, hTyped, hValue, hVisit => by
      rcases foldVar_eq_constant hValue with
        ⟨_, found, _, hText⟩
      rw [hText] at hValue hVisit
      exact string_of_agrees hTyped hValue hVisit
  | .newRegex str flag, value, hTyped, hValue, hVisit => by
      rcases newRegex_eq_constant hValue with
        ⟨pattern, option, flags, hStr, hFlag, _, hRegex⟩
      have hStrVisit (store : Store shell place) :
          visit store none str = .value (.string pattern) := by
        rcases visit_newRegex (hVisit store) with
          ⟨_, _, _, hPattern, _, _, hSame⟩
        rw [hRegex] at hSame
        cases hSame
        exact hPattern
      have hFaithfulFlag : Faithful place flag := by
        rcases visit_newRegex (hVisit _) with
          ⟨found, option', flags', _, hOption, hCompile, _⟩
        exact
          faithful_of_flags hTyped.2.1 hFlag
            ⟨option', found, flags', hOption, hCompile⟩
      rcases string_of_agrees hTyped.1 hStr hStrVisit with
        ⟨hFaithfulStr, hFitsStr⟩
      rcases
          visit_newRegex
            (hVisit (Store.filled shell place (filler 1))) with
        ⟨_, _, _, _, hOption, _, _⟩
      have hLength :=
        length_of_visit _ hTyped.2.1 hFaithfulFlag hFlag hOption
      exact
        ⟨⟨hFaithfulStr, hFaithfulFlag⟩, hFitsStr,
          fits_of_length flag option hFlag hLength⟩
  | .other type id, value, hTyped, hValue, hVisit => by
      cases hValue

/-
  Of an expression that is folded, the constant is the value
  exactly if the names in it lead to the predefined variables,
  no negation overflows and its strings are within the limit.
-/
theorem applyConstFolding_agrees_iff
    (shell : Shell)
    (place : Place)
    (node : Node)
    (hTyped : WellTyped shell place node)
    (hFolded : applyConstFolding shell node ≠ .refused) :
    Agrees shell place node ↔
      Faithful place node ∧ Fits shell node := by
  constructor
  · intro hAgrees
    rcases hAgrees with ⟨value, hValue, hVisit⟩
    exact faithful_of_agrees node value hTyped hValue hVisit
  · intro hBoth
    rcases hBoth with ⟨hFaithful, hFits⟩
    rcases
        constant_of_faithful node hTyped hFaithful hFolded with
      ⟨value, hValue⟩
    refine ⟨value, hValue, ?_⟩
    intro store
    exact
      visit_of_faithful store node value hTyped hFaithful hFits
        hValue

/- A name in a string, in the root module. -/
theorem applyConstFolding_agrees_iff_dashed :
    Agrees linux placeInModule (dashed placeInModule) ↔
      Faithful placeInModule (dashed placeInModule) ∧
        Fits linux (dashed placeInModule) := by
  have hLookup :
      placeInModule.scopes.lookup placeInModule.scope
          CVAR_OSTYPE =
        some (osTypeAt placeInModule) := by
    decide +kernel
  have hString : (osTypeAt placeInModule).typeId = stringId := by
    decide +kernel
  exact
    applyConstFolding_agrees_iff linux placeInModule
      (dashed placeInModule)
      ⟨trivial, rfl, hLookup, hString, trivial⟩
      (by decide +kernel)

/- `$OSTYPE` where a local variable has this name. -/
theorem not_applyConstFolding_agrees :
    ¬ ∀ (shell : Shell) (place : Place) (node : Node),
        WellTyped shell place node →
          applyConstFolding shell node ≠ .refused →
            Agrees shell place node := by
  intro hAll
  have hTyped :
      placeInBlock.scopes.lookup placeInBlock.scope
          CVAR_OSTYPE =
        some (osTypeAt placeInBlock) := by
    decide +kernel
  have hOther :
      placeInBlock.predefined CVAR_OSTYPE ≠
        some (storage (osTypeAt placeInBlock)) := by
    decide +kernel
  have hFold :
      foldVar linux CVAR_OSTYPE (osTypeAt placeInBlock) =
        .constant (.string linux.osType.1) := by
    decide +kernel
  have hRefused :
      foldVar linux CVAR_OSTYPE (osTypeAt placeInBlock) ≠
        .refused := by
    rw [hFold]
    intro hRefused
    cases hRefused
  rcases
      hAll linux placeInBlock
        (.var CVAR_OSTYPE (osTypeAt placeInBlock)) hTyped
        hRefused with
    ⟨value, hValue, hVisit⟩
  have hLoad :=
    @load_filled linux placeInBlock CVAR_OSTYPE
      (osTypeAt placeInBlock) (filler 0) hTyped hOther
  have hFilled :=
    hLoad.symm.trans
      (hVisit (Store.filled linux placeInBlock (filler 0)))
  have hConstant := hFold.symm.trans hValue
  cases hConstant
  have hSame : (filler 0).1 = linux.osType.1 :=
    Value.string.inj (Outcome.value.inj hFilled)
  have hMem := mem_filler 0
  rw [hSame] at hMem
  exact absurd hMem (by decide)

end Folding

end Ydsh
