import Ydsh.Folding.Running

/-
  Folding and running agree.

  A folded constant is what the expression yields exactly if
  every variable that is named like a predefined one is this
  variable, no negation overflows and no string is too long.

  Main declarations:
    * `Faithful`
    * `Fits`
    * `type_of_constant`
    * `visit_eq_joinText`
-/

----
-- The Condition
----

namespace Ydsh

namespace Folding

open RegexObject (Bytes MAX_SIZE Str)

open Scope (FieldHandle ScopeStore ScopeRef)

/- The integer that an expression of literals stands for. -/
def intValue : Node → Int64
  | .int value => value
  | .unaryOp .minus _ recv => .ofInt (-(intValue recv).toInt)
  | .unaryOp .not _ recv => ~~~(intValue recv)
  | .unaryOp _ _ recv => intValue recv
  | .embed _ expr => intValue expr
  | _ => 0

mutual

/- Names of predefined variables lead to these variables, and no
   negation overflows. -/
def Faithful (place : Place) : Node → Prop
  | .unaryOp op _ recv =>
      Faithful place recv ∧
        (op = .minus →
          Builtin.fitsInt64 (-(intValue recv).toInt) = true)
  | .stringExpr exprs => FaithfulParts place exprs
  | .embed _ expr => Faithful place expr
  | .var varName handle =>
      place.predefined varName = some (storage handle)
  | .newRegex str flag => Faithful place str ∧ Faithful place flag
  | _ => True

def FaithfulParts (place : Place) : Nodes → Prop
  | .nil => True
  | .cons node rest =>
      Faithful place node ∧ FaithfulParts place rest

end

mutual

/- The length of a string if names stand for what is predefined
   under them. -/
def textLength (shell : Shell) : Node → Nat
  | .string value => value.1.length
  | .stringExpr exprs => partsLength shell exprs
  | .embed _ expr => textLength shell expr
  | .var varName _ =>
      ((shell.predefined varName).map
        (fun value => value.1.length)).getD 0
  | _ => 0

def partsLength (shell : Shell) : Nodes → Nat
  | .nil => 0
  | .cons node rest =>
      textLength shell node + partsLength shell rest

end

/- The strings that are joined are within the limit. -/
def Fits (shell : Shell) : Node → Prop
  | .stringExpr exprs => partsLength shell exprs ≤ MAX_SIZE
  | .embed _ expr => Fits shell expr
  | .newRegex str flag => Fits shell str ∧ Fits shell flag
  | _ => True

----
-- Types of Constants
----

variable {shell : Shell}
variable {place : Place}
variable {left : Option Bytes}
variable {text : Bytes}
variable {value : Value}

namespace Folded

variable {folded : Folded}

theorem expectString_eq_constant
    {next : Bytes → Folded}
    (hValue : folded.expectString next = .constant value) :
    ∃ text,
      folded = .constant (.string text) ∧
        next text = .constant value := by
  unfold expectString at hValue
  cases folded with
  | constant found =>
      cases found with
      | string text => exact ⟨text, rfl, hValue⟩
      | _ => cases hValue
  | refused => cases hValue
  | undefined => cases hValue

theorem expectInt_eq_constant
    {next : Int64 → Folded}
    (hValue : folded.expectInt next = .constant value) :
    ∃ number,
      folded = .constant (.int number) ∧
        next number = .constant value := by
  unfold expectInt at hValue
  cases folded with
  | constant found =>
      cases found with
      | int number => exact ⟨number, rfl, hValue⟩
      | _ => cases hValue
  | refused => cases hValue
  | undefined => cases hValue

end Folded

open Folded

theorem foldRegex_eq_constant
    {reStr reFlag : Bytes}
    (hValue : foldRegex shell reStr reFlag = .constant value) :
    ∃ flags,
      compileRegex shell reStr reFlag = some flags ∧
        value = .regex reStr flags := by
  unfold foldRegex at hValue
  cases hCompile : compileRegex shell reStr reFlag with
  | none =>
      rw [hCompile] at hValue
      cases hValue
  | some flags =>
      rw [hCompile] at hValue
      cases hValue
      exact ⟨flags, rfl, rfl⟩

/- The integer that is folded, and that nothing overflows. -/
theorem foldInt_eq_constant
    {op : UnaryOp}
    {number : Int64}
    (hValue : foldInt op number = .constant value) :
    (op = .minus →
        Builtin.fitsInt64 (-number.toInt) = true) ∧
      ∃ result,
        value = .int result ∧
          callInt op number = .value (.int result) := by
  cases op with
  | minus =>
      simp only [foldInt, Builtin.negate,
        Builtin.signedResult] at hValue
      by_cases hFits : Builtin.fitsInt64 (-number.toInt) = true
      · rw [if_pos hFits] at hValue
        cases hValue
        refine ⟨fun _ => hFits, _, rfl, ?_⟩
        simp only [callInt, Builtin.int_minus, Builtin.negate,
          Builtin.signedResult, if_pos hFits]
      · rw [if_neg hFits] at hValue
        cases hValue
  | _ =>
      cases hValue
      exact ⟨(fun hMinus => by cases hMinus), _, rfl, rfl⟩

/- A unary operator is folded if it is a method of integers. -/
theorem unaryOp_eq_constant
    {op : UnaryOp}
    {type : Nat}
    {recv : Node}
    (hValue :
      applyConstFolding shell (.unaryOp op type recv) =
        .constant value) :
    isIntOp op type = true ∧
      ∃ number,
        applyConstFolding shell recv = .constant (.int number) ∧
          foldInt op number = .constant value := by
  unfold applyConstFolding at hValue
  by_cases hInt : isIntOp op type = true
  · rw [if_pos hInt] at hValue
    exact ⟨hInt, expectInt_eq_constant hValue⟩
  · rw [if_neg hInt] at hValue
    cases hValue

theorem newRegex_eq_constant
    {str flag : Node}
    (hValue :
      applyConstFolding shell (.newRegex str flag) =
        .constant value) :
    ∃ reStr reFlag flags,
      applyConstFolding shell str = .constant (.string reStr) ∧
        applyConstFolding shell flag =
            .constant (.string reFlag) ∧
          compileRegex shell reStr reFlag = some flags ∧
            value = .regex reStr flags := by
  rcases expectString_eq_constant hValue with
    ⟨reStr, hStr, hRest⟩
  rcases expectString_eq_constant hRest with
    ⟨reFlag, hFlag, hFold⟩
  rcases foldRegex_eq_constant hFold with
    ⟨flags, hCompile, hRegex⟩
  exact ⟨reStr, reFlag, flags, hStr, hFlag, hCompile, hRegex⟩

theorem foldRegex_ne_string
    {reStr reFlag : Bytes} :
    foldRegex shell reStr reFlag ≠ .constant (.string text) := by
  intro hValue
  rcases foldRegex_eq_constant hValue with ⟨_, _, hRegex⟩
  cases hRegex

theorem foldRegex_ne_int
    {reStr reFlag : Bytes}
    {number : Int64} :
    foldRegex shell reStr reFlag ≠ .constant (.int number) := by
  intro hValue
  rcases foldRegex_eq_constant hValue with ⟨_, _, hRegex⟩
  cases hRegex

theorem unaryOp_ne_string
    {op : UnaryOp}
    {type : Nat}
    {recv : Node} :
    applyConstFolding shell (.unaryOp op type recv) ≠
      .constant (.string text) := by
  intro hValue
  rcases unaryOp_eq_constant hValue with ⟨_, _, _, hFold⟩
  rcases foldInt_eq_constant hFold with ⟨_, _, hResult, _⟩
  cases hResult

theorem newRegex_ne_string
    {str flag : Node} :
    applyConstFolding shell (.newRegex str flag) ≠
      .constant (.string text) := by
  intro hValue
  rcases newRegex_eq_constant hValue with
    ⟨_, _, _, _, _, _, hRegex⟩
  cases hRegex

theorem newRegex_ne_int
    {str flag : Node}
    {number : Int64} :
    applyConstFolding shell (.newRegex str flag) ≠
      .constant (.int number) := by
  intro hValue
  rcases newRegex_eq_constant hValue with
    ⟨_, _, _, _, _, _, hRegex⟩
  cases hRegex

theorem predefined_of_constValue
    {varName : String}
    {handle : FieldHandle}
    {found : Str}
    (hConst : constValue shell varName handle = some found) :
    shell.predefined varName = some found := by
  unfold constValue at hConst
  by_cases hModConst : handle.attr.modConst = true
  · rw [if_pos hModConst] at hConst
    exact Shell.predefined_of_scriptMap hConst
  · rw [if_neg hModConst] at hConst
    exact Shell.predefined_of_constMap hConst

theorem foldVar_eq_constant
    {varName : String}
    {handle : FieldHandle}
    (hValue : foldVar shell varName handle = .constant value) :
    handle.typeId = stringId ∧
      ∃ found,
        shell.predefined varName = some found ∧
          value = .string found.1 := by
  unfold foldVar at hValue
  cases hConst : constValue shell varName handle with
  | none =>
      rw [hConst] at hValue
      cases hValue
  | some found =>
      simp only [hConst] at hValue
      by_cases hType : handle.typeId = stringId
      · rw [if_pos hType] at hValue
        cases hValue
        exact ⟨hType, found, predefined_of_constValue hConst, rfl⟩
      · rw [if_neg hType] at hValue
        cases hValue

/- Folding goes on from what has been folded. -/
theorem foldExprs_append
    {exprs : Nodes}
    {acc : Bytes}
    (hValue : foldExprs shell acc exprs = .constant value) :
    ∃ text, value = .string (acc ++ text) := by
  cases exprs with
  | nil =>
      cases hValue
      exact ⟨[], by rw [List.append_nil]⟩
  | cons node rest =>
      rcases expectString_eq_constant hValue with
        ⟨part, _, hRest⟩
      rcases foldExprs_append hRest with ⟨text, hText⟩
      exact
        ⟨part ++ text, by rw [hText, List.append_assoc]⟩

theorem string_of_foldExprs
    {exprs : Nodes}
    {acc : Bytes}
    (hValue : foldExprs shell acc exprs = .constant value) :
    ∃ text, value = .string text := by
  rcases foldExprs_append hValue with ⟨text, hText⟩
  exact ⟨acc ++ text, hText⟩

theorem string_ne_int : stringId ≠ intId := by
  decide

theorem regex_ne_int : regexId ≠ intId := by
  decide

theorem regex_ne_string : regexId ≠ stringId := by
  decide

theorem type_of_isIntOp
    {op : UnaryOp}
    {type : Nat}
    (hInt : isIntOp op type = true) :
    op ≠ .unwrap ∧ type = intId := by
  unfold isIntOp at hInt
  rcases Bool.and_eq_true_iff.mp hInt with ⟨hOp, hType⟩
  exact ⟨bne_iff_ne.mp hOp, beq_iff_eq.mp hType⟩

/- A constant has the type of its expression. -/
theorem type_of_constant :
    ∀ (node : Node) (value : Value),
      WellTyped shell place node →
        applyConstFolding shell node = .constant value →
          (node.getType = intId → ∃ number, value = .int number) ∧
            (node.getType = stringId →
              ∃ text, value = .string text)
  | .string text, value, hTyped, hValue => by
      cases hValue
      exact
        ⟨fun hType => absurd hType string_ne_int,
          fun _ => ⟨_, rfl⟩⟩
  | .int number, value, hTyped, hValue => by
      cases hValue
      exact
        ⟨fun _ => ⟨_, rfl⟩,
          fun hType => absurd hType string_ne_int.symm⟩
  | .number typeId bits, value, hTyped, hValue =>
      ⟨fun hType => absurd hType hTyped.1,
        fun hType => absurd hType hTyped.2⟩
  | .regex reStr reFlag, value, hTyped, hValue =>
      ⟨fun hType => absurd hType regex_ne_int,
        fun hType => absurd hType regex_ne_string⟩
  | .unaryOp op type recv, value, hTyped, hValue => by
      rcases unaryOp_eq_constant hValue with
        ⟨hInt, number, _, hFold⟩
      rcases foldInt_eq_constant hFold with
        ⟨_, result, hResult, _⟩
      refine ⟨fun _ => ⟨result, hResult⟩, ?_⟩
      intro hString
      exact
        absurd (hString.symm.trans (type_of_isIntOp hInt).2)
          string_ne_int
  | .stringExpr exprs, value, hTyped, hValue =>
      ⟨fun hType => absurd hType string_ne_int,
        fun _ => string_of_foldExprs hValue⟩
  | .embed none expr, value, hTyped, hValue =>
      type_of_constant expr value hTyped hValue
  | .embed (some method) expr, value, hTyped, hValue => by
      cases hValue
  | .var varName handle, value, hTyped, hValue => by
      rcases foldVar_eq_constant hValue with
        ⟨hString, found, _, hFound⟩
      refine ⟨?_, fun _ => ⟨found.1, hFound⟩⟩
      intro hInt
      exact absurd (hString.symm.trans hInt) string_ne_int
  | .newRegex str flag, value, hTyped, hValue =>
      ⟨fun hType => absurd hType regex_ne_int,
        fun hType => absurd hType regex_ne_string⟩
  | .other type id, value, hTyped, hValue => by
      cases hValue

theorem int_of_constant
    {node : Node}
    (hTyped : WellTyped shell place node)
    (hType : node.getType = intId)
    (hValue : applyConstFolding shell node = .constant value) :
    ∃ number, value = .int number :=
  (type_of_constant node value hTyped hValue).1 hType

theorem string_of_constant
    {node : Node}
    (hTyped : WellTyped shell place node)
    (hType : node.getType = stringId)
    (hValue : applyConstFolding shell node = .constant value) :
    ∃ text, value = .string text :=
  (type_of_constant node value hTyped hValue).2 hType

/- The folded integer is the one of the expression. -/
theorem intValue_eq :
    ∀ (node : Node) (number : Int64),
      applyConstFolding shell node = .constant (.int number) →
        intValue node = number
  | .string text, number, hValue => by
      cases hValue
  | .int found, number, hValue => by
      cases hValue
      rfl
  | .number typeId bits, number, hValue => by
      cases hValue
  | .regex reStr reFlag, number, hValue =>
      absurd hValue foldRegex_ne_int
  | .unaryOp op type recv, number, hValue => by
      rcases unaryOp_eq_constant hValue with
        ⟨hInt, found, hRecv, hFold⟩
      have hFound := intValue_eq recv found hRecv
      cases op with
      | plus =>
          cases hFold
          exact hFound
      | minus =>
          unfold intValue
          rw [hFound]
          simp only [foldInt, Builtin.negate,
            Builtin.signedResult] at hFold
          by_cases hFits :
              Builtin.fitsInt64 (-found.toInt) = true
          · rw [if_pos hFits] at hFold
            cases hFold
            rfl
          · rw [if_neg hFits] at hFold
            cases hFold
      | not =>
          cases hFold
          unfold intValue
          rw [hFound]
      | unwrap => exact absurd rfl (type_of_isIntOp hInt).1
  | .stringExpr exprs, number, hValue => by
      rcases string_of_foldExprs hValue with ⟨text, hText⟩
      cases hText
  | .embed none expr, number, hValue =>
      intValue_eq expr number hValue
  | .embed (some method) expr, number, hValue => by
      cases hValue
  | .var varName handle, number, hValue => by
      rcases foldVar_eq_constant hValue with ⟨_, _, _, hFound⟩
      cases hFound
  | .newRegex str flag, number, hValue =>
      absurd hValue newRegex_ne_int
  | .other type id, number, hValue => by
      cases hValue

mutual

/- The length of a folded string. -/
theorem length_of_constant :
    ∀ (node : Node) (text : Bytes),
      applyConstFolding shell node = .constant (.string text) →
        text.length = textLength shell node
  | .string found, text, hValue => by
      cases hValue
      rfl
  | .int found, text, hValue => by
      cases hValue
  | .number typeId bits, text, hValue => by
      cases hValue
  | .regex reStr reFlag, text, hValue =>
      absurd hValue foldRegex_ne_string
  | .unaryOp op type recv, text, hValue =>
      absurd hValue unaryOp_ne_string
  | .stringExpr exprs, text, hValue => by
      have hLength := length_of_foldExprs exprs [] text hValue
      rw [List.length_nil, Nat.zero_add] at hLength
      exact hLength
  | .embed none expr, text, hValue =>
      length_of_constant expr text hValue
  | .embed (some method) expr, text, hValue => by
      cases hValue
  | .var varName handle, text, hValue => by
      rcases foldVar_eq_constant hValue with
        ⟨_, found, hFound, hText⟩
      cases hText
      unfold textLength
      rw [hFound]
      rfl
  | .newRegex str flag, text, hValue =>
      absurd hValue newRegex_ne_string
  | .other type id, text, hValue => by
      cases hValue

theorem length_of_foldExprs :
    ∀ (exprs : Nodes) (acc text : Bytes),
      foldExprs shell acc exprs = .constant (.string text) →
        text.length = acc.length + partsLength shell exprs
  | .nil, acc, text, hValue => by
      cases hValue
      rfl
  | .cons node rest, acc, text, hValue => by
      rcases expectString_eq_constant hValue with
        ⟨part, hPart, hRest⟩
      have hHead := length_of_constant node part hPart
      have hTail := length_of_foldExprs rest _ text hRest
      rw [List.length_append] at hTail
      unfold partsLength
      omega

end

----
-- Folded Constants are Values
----

/- A string is joined, unless it becomes too long. -/
def joinText (left : Option Bytes) (text : Bytes) : Outcome :=
  if (left.getD []).length + text.length ≤ MAX_SIZE then
    .value (.string (left.getD [] ++ text))
  else
    .raised

theorem joinText_nil
    (hLeft : LeftFits left) :
    joinText left [] = .value (.string (left.getD [])) := by
  unfold joinText
  rw [List.append_nil]
  exact if_pos hLeft

theorem join_value
    (hLeft : LeftFits left)
    (hText : text.length ≤ MAX_SIZE) :
    join left (.value (.string text)) = joinText left text := by
  cases left with
  | none =>
      have hFits : 0 + text.length ≤ MAX_SIZE := by
        rw [Nat.zero_add]
        exact hText
      exact (if_pos hFits).symm
  | some before => exact concatAsStr_eq hLeft hText

theorem join_joinText
    (hLeft : LeftFits left) :
    join left (joinText none text) = joinText left text := by
  by_cases hFits : text.length ≤ MAX_SIZE
  · have hAlone :
        joinText none text = .value (.string text) := by
      apply if_pos
      rw [Option.getD_none, List.length_nil, Nat.zero_add]
      exact hFits
    rw [hAlone]
    exact join_value hLeft hFits
  · have hAlone : joinText none text = .raised := by
      apply if_neg
      rw [Option.getD_none, List.length_nil, Nat.zero_add]
      exact hFits
    have hLong :
        ¬ (left.getD []).length + text.length ≤ MAX_SIZE := by
      omega
    unfold joinText at hAlone ⊢
    rw [hAlone, if_neg hLong]
    cases left with
    | none => rfl
    | some before => rfl

theorem load_of_faithful
    {varName : String}
    {handle : FieldHandle}
    (store : Store shell place)
    (hFaithful :
      place.predefined varName = some (storage handle))
    (hValue :
      foldVar shell varName handle = .constant (.string text)) :
    store.load (storage handle) = .value (.string text) := by
  rcases foldVar_eq_constant hValue with ⟨_, found, hFound, hText⟩
  cases hText
  exact store.predefined varName _ found hFaithful hFound

mutual

/- A string that is run is the folded one, unless it becomes too
   long. -/
theorem visit_eq_joinText
    (store : Store shell place) :
    ∀ (node : Node) (left : Option Bytes) (text : Bytes),
      WellTyped shell place node →
        Faithful place node →
          applyConstFolding shell node =
              .constant (.string text) →
            LeftFits left →
              visit store left node = joinText left text
  | .string found, left, text, hTyped, hFaithful, hValue,
    hLeft => by
      cases hValue
      unfold visit
      by_cases hEmpty :
          (left.isSome && found.1.isEmpty) = true
      · have hNil :=
          List.isEmpty_iff.mp (Bool.and_eq_true_iff.mp hEmpty).2
        rw [if_pos hEmpty, hNil]
        exact (joinText_nil hLeft).symm
      · rw [if_neg hEmpty]
        exact join_value hLeft found.2
  | .int number, left, text, hTyped, hFaithful, hValue,
    hLeft => by
      cases hValue
  | .number typeId bits, left, text, hTyped, hFaithful, hValue,
    hLeft => by
      cases hValue
  | .regex reStr reFlag, left, text, hTyped, hFaithful, hValue,
    hLeft =>
      absurd hValue foldRegex_ne_string
  | .unaryOp op type recv, left, text, hTyped, hFaithful, hValue,
    hLeft =>
      absurd hValue unaryOp_ne_string
  | .stringExpr exprs, left, text, hTyped, hFaithful, hValue,
    hLeft => by
      rcases
          visitParts_eq_joinText store exprs left [] _ hTyped
            hFaithful hValue hLeft with
        ⟨found, hFound, hVisit⟩
      cases hFound
      exact hVisit
  | .embed none expr, left, text, hTyped, hFaithful, hValue,
    hLeft => by
      unfold visit
      by_cases hConcat : isConcat expr = true
      · rw [if_pos hConcat]
        exact
          visit_eq_joinText store expr left text hTyped
            hFaithful hValue hLeft
      · have hAlone :=
          visit_eq_joinText store expr none text hTyped
            hFaithful hValue (Nat.zero_le _)
        rw [if_neg hConcat, hAlone]
        exact join_joinText hLeft
  | .embed (some method) expr, left, text, hTyped, hFaithful,
    hValue, hLeft => by
      cases hValue
  | .var varName handle, left, text, hTyped, hFaithful, hValue,
    hLeft => by
      have hLoad := load_of_faithful store hFaithful hValue
      unfold visit
      rw [hLoad]
      exact join_value hLeft (store.bounded _ text hLoad)
  | .newRegex str flag, left, text, hTyped, hFaithful, hValue,
    hLeft =>
      absurd hValue newRegex_ne_string
  | .other type id, left, text, hTyped, hFaithful, hValue,
    hLeft => by
      cases hValue

theorem visitParts_eq_joinText
    (store : Store shell place) :
    ∀ (exprs : Nodes) (left : Option Bytes) (acc : Bytes)
      (value : Value),
      WellTypedParts shell place exprs →
        FaithfulParts place exprs →
          foldExprs shell acc exprs = .constant value →
            LeftFits left →
              ∃ text,
                value = .string (acc ++ text) ∧
                  visitParts store left exprs =
                    joinText left text
  | .nil, left, acc, value, hTyped, hFaithful, hValue,
    hLeft => by
      cases hValue
      exact
        ⟨[], by rw [List.append_nil], (joinText_nil hLeft).symm⟩
  | .cons node rest, left, acc, value, hTyped, hFaithful, hValue,
    hLeft => by
      rcases expectString_eq_constant hValue with
        ⟨part, hPart, hRest⟩
      have hVisit :=
        visit_eq_joinText store node left part hTyped.1
          hFaithful.1 hPart hLeft
      by_cases hFits :
          (left.getD []).length + part.length ≤ MAX_SIZE
      · have hNext : LeftFits (some (left.getD [] ++ part)) := by
          unfold LeftFits
          rw [Option.getD_some, List.length_append]
          exact hFits
        rcases
            visitParts_eq_joinText store rest _ _ value
              hTyped.2.2 hFaithful.2 hRest hNext with
          ⟨text, hText, hParts⟩
        refine
          ⟨part ++ text, by rw [hText, List.append_assoc], ?_⟩
        unfold visitParts
        rw [hVisit]
        unfold joinText at hParts ⊢
        rw [if_pos hFits]
        simp only [Outcome.expectString]
        rw [hParts]
        simp only [Option.getD_some, List.length_append,
          List.append_assoc, Nat.add_assoc]
      · rcases foldExprs_append hRest with ⟨text, hText⟩
        refine
          ⟨part ++ text, by rw [hText, List.append_assoc], ?_⟩
        have hLong :
            ¬ (left.getD []).length + (part ++ text).length ≤
              MAX_SIZE := by
          rw [List.length_append]
          omega
        unfold visitParts
        rw [hVisit]
        unfold joinText
        rw [if_neg hFits, if_neg hLong]
        rfl

end

end Folding

end Ydsh
