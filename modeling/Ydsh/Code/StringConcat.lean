import Ydsh.VM.StringObjects

/-
  Code for concatenations.

  Nested string expressions and additions are flattened: each
  operand is evaluated and concatenated to the ones before it,
  and an empty literal is left out.

  Main declarations:
    * `generateConcat`
    * `Naive`
    * `Undisturbed`
    * `generateConcat_naive_iff`
-/

----
-- Code Generation
----

namespace Ydsh

namespace Concat

/-
  What the other expressions of a program do: each pushes a
  string, or raises an exception.
-/
structure Semantics (pool : List Str) (L : Type) where
  eval : L → Machine → Option Machine
  pushes :
    ∀ l m m', eval l m = some m' →
      ∃ value, m'.stack = value :: m.stack
  valid :
    ∀ l m m', eval l m = some m' → Valid pool m → Valid pool m'
  grows :
    ∀ l m m', eval l m = some m' → Valid pool m →
      Grows m.heap m'.heap

variable {pool : List Str} {L : Type}

inductive Instr (L : Type) where
  | op (opCode : OpCode)
  | visit (leaf : L)

mutual

/-
  The expressions that are strings, over the literals of the
  program.  A binary operation is an addition with a string on
  its left.
-/
inductive Node (pool : List Str) (L : Type) where
  | string (literal : Fin pool.length)
  | stringExpr (exprNodes : List (Fragment pool L))
  | binary (left right : Node pool L)
  | other (leaf : L)

/- What stands in a string expression: an embedded node that
is no string itself is evaluated and converted as a whole. -/
inductive Fragment (pool : List Str) (L : Type) where
  | string (literal : Fin pool.length)
  | embed (exprNode : Node pool L)
  | other (leaf : L)

end

def getValue (literal : Fin pool.length) : Bytes :=
  (pool.get literal).1

/- `PUSH_STR0` to `PUSH_STR3`, or a constant. -/
def visitStringNode
    (literal : Fin pool.length) : List (Instr L) :=
  if h : (getValue literal).length ≤ 3 then
    [.op (.pushStr ⟨getValue literal, h⟩)]
  else [.op (.loadConst literal.1)]

def emptyString : { bytes : Bytes // bytes.length ≤ 3 } :=
  ⟨[], Nat.zero_le 3⟩

/- A fragment is concatenated to the ones before it. -/
def concatIf (fragment : Bool) : List (Instr L) :=
  if fragment then [.op .concat] else []

/- `NodeKind::String` -/
def generateString
    (literal : Fin pool.length)
    (fragment : Bool) : List (Instr L) :=
  if getValue literal = [] ∧ fragment then []
  else visitStringNode literal ++ concatIf fragment

def generateOther
    (leaf : L)
    (fragment : Bool) : List (Instr L) :=
  .visit leaf :: concatIf fragment

mutual

def generateConcat : Node pool L → Bool → List (Instr L)
  | .string literal, fragment => generateString literal fragment
  | .stringExpr [], fragment =>
      if fragment then [] else [.op (.pushStr emptyString)]
  | .stringExpr (first :: exprNodes), fragment =>
      generateFragment first fragment ++
        generateFragments exprNodes
  | .binary left right, fragment =>
      generateConcat left fragment ++ generateConcat right true
  | .other leaf, fragment => generateOther leaf fragment

def generateFragment : Fragment pool L → Bool → List (Instr L)
  | .string literal, fragment => generateString literal fragment
  | .embed exprNode, fragment =>
      generateConcat exprNode fragment
  | .other leaf, fragment => generateOther leaf fragment

def generateFragments :
    List (Fragment pool L) → List (Instr L)
  | [] => []
  | first :: exprNodes =>
      generateFragment first true ++ generateFragments exprNodes

end

/- The expressions that have been evaluated, with their
strings. -/
abbrev Log (L : Type) := List (L × Bytes)

/- The string on top of the stack. -/
def top (m : Machine) : Bytes :=
  match m.stack with
  | [] => []
  | value :: _ => content m.heap value

def exec
    (sem : Semantics pool L) :
    List (Instr L) → Machine → Except Stop Machine × Log L
  | [], m => (.ok m, [])
  | .op opCode :: code, m =>
      match opCode.run m with
      | .error stop => (.error stop, [])
      | .ok m' => exec sem code m'
  | .visit l :: code, m =>
      match sem.eval l m with
      | none => (.error .raised, [])
      | some m' =>
          let ret := exec sem code m'
          (ret.1, (l, top m') :: ret.2)

/- What an expression may yield: the expressions evaluated for
it, in order, and its string. -/
abbrev Yields (L : Type) := Log L → Bytes → Prop

def Constant (value : Bytes) : Yields L :=
  fun log bytes => log = [] ∧ bytes = value

def Evaluated (leaf : L) : Yields L :=
  fun log bytes => log = [(leaf, bytes)]

/- Two expressions are evaluated one after the other, and their
strings concatenated. -/
def Pair (first second : Yields L) : Yields L :=
  fun log bytes =>
    ∃ log₁ bytes₁ log₂ bytes₂,
      first log₁ bytes₁ ∧ second log₂ bytes₂ ∧
        log = log₁ ++ log₂ ∧ bytes = bytes₁ ++ bytes₂

mutual

def Node.Naive : Node pool L → Yields L
  | .string literal => Constant (getValue literal)
  | .stringExpr exprNodes => NaiveFragments exprNodes
  | .binary left right => Pair left.Naive right.Naive
  | .other leaf => Evaluated leaf

def Fragment.Naive : Fragment pool L → Yields L
  | .string literal => Constant (getValue literal)
  | .embed exprNode => exprNode.Naive
  | .other leaf => Evaluated leaf

def NaiveFragments : List (Fragment pool L) → Yields L
  | [] => Constant []
  | first :: exprNodes =>
      Pair first.Naive (NaiveFragments exprNodes)

end

/-
  The code evaluates the expressions in the node's order, and
  yields the string of the pairwise concatenations.  Where it
  is stopped, it has evaluated them in order up to there.
-/
def YieldsNaive
    (sem : Semantics pool L)
    (node : Node pool L)
    (m : Machine) : Prop :=
  let ret := exec sem (generateConcat node false) m
  match ret.1 with
  | .ok m' =>
      ∃ value,
        m'.stack = value :: m.stack ∧
          node.Naive ret.2 (content m'.heap value)
  | .error _ => ∃ more bytes, node.Naive (ret.2 ++ more) bytes

----
-- Operands
----

/- What a concatenation consists of when it is flattened. -/
inductive Operand (pool : List Str) (L : Type) where
  | string (literal : Fin pool.length)
  | empty
  | leaf (l : L)

mutual

def Node.operands : Node pool L → List (Operand pool L)
  | .string literal => [.string literal]
  | .stringExpr [] => [.empty]
  | .stringExpr (first :: exprNodes) =>
      first.operands ++ fragmentOperands exprNodes
  | .binary left right => left.operands ++ right.operands
  | .other leaf => [.leaf leaf]

def Fragment.operands : Fragment pool L → List (Operand pool L)
  | .string literal => [.string literal]
  | .embed exprNode => exprNode.operands
  | .other leaf => [.leaf leaf]

def fragmentOperands :
    List (Fragment pool L) → List (Operand pool L)
  | [] => []
  | first :: exprNodes =>
      first.operands ++ fragmentOperands exprNodes

end

def Operand.code :
    Operand pool L → Bool → List (Instr L)
  | .string literal, fragment => generateString literal fragment
  | .empty, fragment =>
      if fragment then [] else [.op (.pushStr emptyString)]
  | .leaf l, fragment => generateOther l fragment

def codeOf : List (Operand pool L) → Bool → List (Instr L)
  | [], _ => []
  | operand :: operands, fragment =>
      operand.code fragment ++ codeOf operands true

def Operand.Naive : Operand pool L → Yields L
  | .string literal => Constant (getValue literal)
  | .empty => Constant []
  | .leaf l => Evaluated l

def Woven : List (Operand pool L) → Yields L
  | [] => Constant []
  | operand :: operands => Pair operand.Naive (Woven operands)

/- A constant that is loaded still is its literal. -/
def Operand.Intact
    (m : Machine) : Operand pool L → Prop
  | .string literal =>
      3 < (getValue literal).length →
        ∀ value, m.consts[literal.1]? = some value →
          content m.heap value = getValue literal
  | .empty => True
  | .leaf _ => True

/-
  While an operand is evaluated, the string of the ones before
  it is not changed.
-/
def Operand.Keeps
    (sem : Semantics pool L)
    (m : Machine) : Operand pool L → Prop
  | .string _ => True
  | .empty => True
  | .leaf l =>
      ∀ m' value rest,
        sem.eval l m = some m' → m.stack = value :: rest →
          content m'.heap value = content m.heap value

/- No string that the concatenation is made of is changed from
elsewhere before it is used. -/
def Undisturbed
    (sem : Semantics pool L) :
    List (Operand pool L) → Bool → Machine → Prop
  | [], _, _ => True
  | operand :: operands, fragment, m =>
      operand.Intact m ∧ (fragment → operand.Keeps sem m) ∧
        ∀ m',
          (exec sem (operand.code fragment) m).1 = .ok m' →
            Undisturbed sem operands true m'

----
-- Flattening
----

@[simp]
theorem pair_constant_nil
    (yields : Yields L) : Pair yields (Constant []) = yields := by
  funext log bytes
  apply propext
  constructor
  · rintro ⟨log₁, bytes₁, log₂, bytes₂, hFirst, ⟨rfl, rfl⟩,
      rfl, rfl⟩
    simpa using hFirst
  · intro hYields
    exact
      ⟨log, bytes, [], [], hYields, ⟨rfl, rfl⟩, by simp,
        by simp⟩

@[simp]
theorem constant_nil_pair
    (yields : Yields L) : Pair (Constant []) yields = yields := by
  funext log bytes
  apply propext
  constructor
  · rintro ⟨log₁, bytes₁, log₂, bytes₂, ⟨rfl, rfl⟩, hSecond,
      rfl, rfl⟩
    simpa using hSecond
  · intro hYields
    exact ⟨[], [], log, bytes, ⟨rfl, rfl⟩, hYields, rfl, rfl⟩

theorem pair_assoc
    (first second third : Yields L) :
    Pair (Pair first second) third =
      Pair first (Pair second third) := by
  funext log bytes
  apply propext
  constructor
  · rintro ⟨_, _, log₃, bytes₃,
      ⟨log₁, bytes₁, log₂, bytes₂, hFirst, hSecond, rfl, rfl⟩,
      hThird, rfl, rfl⟩
    exact
      ⟨log₁, bytes₁, log₂ ++ log₃, bytes₂ ++ bytes₃, hFirst,
        ⟨log₂, bytes₂, log₃, bytes₃, hSecond, hThird, rfl, rfl⟩,
        by simp, by simp⟩
  · rintro ⟨log₁, bytes₁, _, _, hFirst,
      ⟨log₂, bytes₂, log₃, bytes₃, hSecond, hThird, rfl, rfl⟩,
      rfl, rfl⟩
    exact
      ⟨log₁ ++ log₂, bytes₁ ++ bytes₂, log₃, bytes₃,
        ⟨log₁, bytes₁, log₂, bytes₂, hFirst, hSecond, rfl, rfl⟩,
        hThird, by simp, by simp⟩

theorem woven_append
    (first second : List (Operand pool L)) :
    Woven (first ++ second) =
      Pair (Woven first) (Woven second) := by
  induction first with
  | nil => simp [Woven]
  | cons operand first ih =>
      simp only [List.cons_append, Woven, ih, pair_assoc]

mutual

/- Flattening a tree changes nothing in what it may yield. -/
theorem Node.naive_eq :
    ∀ node : Node pool L, node.Naive = Woven node.operands
  | .string literal => by
      simp [Node.Naive, Node.operands, Woven, Operand.Naive]
  | .stringExpr [] => by
      simp [Node.Naive, NaiveFragments, Node.operands, Woven,
        Operand.Naive]
  | .stringExpr (first :: exprNodes) => by
      rw [Node.Naive, NaiveFragments, Node.operands,
        woven_append, first.naive_eq,
        naiveFragments_eq exprNodes]
  | .binary left right => by
      rw [Node.Naive, Node.operands, woven_append,
        left.naive_eq, right.naive_eq]
  | .other leaf => by
      simp [Node.Naive, Node.operands, Woven, Operand.Naive]

theorem Fragment.naive_eq :
    ∀ node : Fragment pool L, node.Naive = Woven node.operands
  | .string literal => by
      simp [Fragment.Naive, Fragment.operands, Woven,
        Operand.Naive]
  | .embed exprNode => by
      rw [Fragment.Naive, Fragment.operands, exprNode.naive_eq]
  | .other leaf => by
      simp [Fragment.Naive, Fragment.operands, Woven,
        Operand.Naive]

theorem naiveFragments_eq :
    ∀ exprNodes : List (Fragment pool L),
      NaiveFragments exprNodes =
        Woven (fragmentOperands exprNodes)
  | [] => by simp [NaiveFragments, fragmentOperands, Woven]
  | first :: exprNodes => by
      rw [NaiveFragments, fragmentOperands, woven_append,
        first.naive_eq, naiveFragments_eq exprNodes]

end

mutual

theorem Node.operands_ne_nil :
    ∀ node : Node pool L, node.operands ≠ []
  | .string literal => by simp [Node.operands]
  | .stringExpr [] => by simp [Node.operands]
  | .stringExpr (first :: exprNodes) => by
      simp [Node.operands, first.operands_ne_nil]
  | .binary left right => by
      simp [Node.operands, left.operands_ne_nil]
  | .other leaf => by simp [Node.operands]

theorem Fragment.operands_ne_nil :
    ∀ node : Fragment pool L, node.operands ≠ []
  | .string literal => by simp [Fragment.operands]
  | .embed exprNode => by
      simp [Fragment.operands, exprNode.operands_ne_nil]
  | .other leaf => by simp [Fragment.operands]

end

theorem codeOf_append
    {first : List (Operand pool L)}
    (second : List (Operand pool L))
    (fragment : Bool)
    (hFirst : first ≠ []) :
    codeOf (first ++ second) fragment =
      codeOf first fragment ++ codeOf second true := by
  have hTrue :
      ∀ first : List (Operand pool L),
        codeOf (first ++ second) true =
          codeOf first true ++ codeOf second true := by
    intro first
    induction first with
    | nil => rfl
    | cons operand first ih =>
        simp only [List.cons_append, codeOf, ih,
          List.append_assoc]
  cases first with
  | nil => exact absurd rfl hFirst
  | cons operand first =>
      simp only [List.cons_append, codeOf, hTrue first,
        List.append_assoc]

mutual

/- The code of a tree is that of its operands. -/
theorem generateConcat_eq :
    ∀ (node : Node pool L) (fragment : Bool),
      generateConcat node fragment =
        codeOf node.operands fragment
  | .string literal, fragment => by
      simp [generateConcat, Node.operands, codeOf, Operand.code]
  | .stringExpr [], fragment => by
      simp [generateConcat, Node.operands, codeOf, Operand.code]
  | .stringExpr (first :: exprNodes), fragment => by
      rw [generateConcat, Node.operands,
        codeOf_append _ _ first.operands_ne_nil,
        generateFragment_eq first, generateFragments_eq]
  | .binary left right, fragment => by
      rw [generateConcat, Node.operands,
        codeOf_append _ _ left.operands_ne_nil,
        generateConcat_eq left, generateConcat_eq right]
  | .other leaf, fragment => by
      simp [generateConcat, Node.operands, codeOf, Operand.code]

theorem generateFragment_eq :
    ∀ (node : Fragment pool L) (fragment : Bool),
      generateFragment node fragment =
        codeOf node.operands fragment
  | .string literal, fragment => by
      simp [generateFragment, Fragment.operands, codeOf,
        Operand.code]
  | .embed exprNode, fragment => by
      rw [generateFragment, Fragment.operands,
        generateConcat_eq exprNode]
  | .other leaf, fragment => by
      simp [generateFragment, Fragment.operands, codeOf,
        Operand.code]

theorem generateFragments_eq :
    ∀ exprNodes : List (Fragment pool L),
      generateFragments exprNodes =
        codeOf (fragmentOperands exprNodes) true
  | [] => rfl
  | first :: exprNodes => by
      rw [generateFragments, fragmentOperands,
        codeOf_append _ _ first.operands_ne_nil,
        generateFragment_eq first, generateFragments_eq]

end

/- The expressions that have been evaluated determine the
string. -/
theorem Operand.naive_unique
    {operand : Operand pool L}
    {log₁ log₂ more₁ more₂ : Log L}
    {bytes₁ bytes₂ : Bytes}
    (hFirst : operand.Naive log₁ bytes₁)
    (hSecond : operand.Naive log₂ bytes₂)
    (hLog : log₁ ++ more₁ = log₂ ++ more₂) :
    bytes₁ = bytes₂ ∧ more₁ = more₂ := by
  cases operand with
  | string literal | empty =>
      rcases hFirst with ⟨rfl, rfl⟩
      rcases hSecond with ⟨rfl, rfl⟩
      exact ⟨rfl, hLog⟩
  | leaf l =>
      have hOne : log₁ = [(l, bytes₁)] := hFirst
      have hTwo : log₂ = [(l, bytes₂)] := hSecond
      subst hOne hTwo
      simpa using hLog

theorem woven_unique
    {operands : List (Operand pool L)}
    {log : Log L}
    {bytes₁ bytes₂ : Bytes}
    (hFirst : Woven operands log bytes₁)
    (hSecond : Woven operands log bytes₂) :
    bytes₁ = bytes₂ := by
  induction operands generalizing log bytes₁ bytes₂ with
  | nil => exact hFirst.2.trans hSecond.2.symm
  | cons operand operands ih =>
      rcases hFirst with
        ⟨log₁, one₁, more₁, rest₁, hOne₁, hRest₁, rfl, rfl⟩
      rcases hSecond with
        ⟨log₂, one₂, more₂, rest₂, hOne₂, hRest₂, hLog, rfl⟩
      rcases Operand.naive_unique hOne₁ hOne₂ hLog
        with ⟨rfl, rfl⟩
      rw [ih hRest₁ hRest₂]

/- Some evaluation goes on from any point. -/
theorem woven_total
    (operands : List (Operand pool L)) :
    ∃ log bytes, Woven operands log bytes := by
  induction operands with
  | nil => exact ⟨[], [], rfl, rfl⟩
  | cons operand operands ih =>
      rcases ih with ⟨log, bytes, hRest⟩
      have hOne : ∃ log bytes, operand.Naive log bytes := by
        cases operand with
        | string literal => exact ⟨_, _, rfl, rfl⟩
        | empty => exact ⟨_, _, rfl, rfl⟩
        | leaf l => exact ⟨_, [], rfl⟩
      rcases hOne with ⟨log', bytes', hOne⟩
      exact ⟨_, _, log', bytes', log, bytes, hOne, hRest, rfl, rfl⟩

----
-- Operands That Are Evaluated
----

variable {sem : Semantics pool L}

/- A run that has returned has not stopped. -/
theorem not_stopped
    {m : Machine}
    {stop : Stop}
    {log log' : Log L}
    (hRet :
      ((.ok m, log) : Except Stop Machine × Log L) =
        (.error stop, log')) : False := by
  simp at hRet

theorem exec_append
    (first second : List (Instr L))
    (m : Machine) :
    exec sem (first ++ second) m =
      match exec sem first m with
      | (.error stop, log) => (.error stop, log)
      | (.ok m', log) =>
          let ret := exec sem second m'
          (ret.1, log ++ ret.2) := by
  induction first generalizing m with
  | nil => rfl
  | cons instr first ih =>
      cases instr with
      | op opCode =>
          simp only [List.cons_append, exec]
          cases opCode.run m with
          | error stop => rfl
          | ok m' => exact ih m'
      | visit l =>
          simp only [List.cons_append, exec]
          cases sem.eval l m with
          | none => rfl
          | some m' =>
              dsimp only
              rw [ih m']
              rcases exec sem first m' with ⟨ret | ret, log⟩
              · rfl
              · rfl

/-
  A string has been concatenated to what was held before.  It
  is longer by `extra` than it should be, and that is nothing
  when all was calm.
-/
def Appends
    (m' : Machine)
    (held : Bytes)
    (rest : List Value)
    (yields : Yields L)
    (log : Log L)
    (calm : Prop) : Prop :=
  ∃ value bytes extra,
    m'.stack = value :: rest ∧
      yields log bytes ∧
      (content m'.heap value).length =
        held.length + bytes.length + extra ∧
      (extra = 0 → content m'.heap value = held ++ bytes) ∧
      (extra = 0 ↔ calm)

theorem Appends.trans
    {m₁ m₂ : Machine}
    {held : Bytes}
    {rest : List Value}
    {first second : Yields L}
    {log₁ log₂ : Log L}
    {calm₁ calm₂ : Prop}
    (hFirst : Appends m₁ held rest first log₁ calm₁)
    (hSecond :
      ∀ value, m₁.stack = value :: rest →
        Appends m₂ (content m₁.heap value) rest second log₂
          calm₂) :
    Appends m₂ held rest (Pair first second) (log₁ ++ log₂)
      (calm₁ ∧ calm₂) := by
  rcases hFirst with
    ⟨value₁, bytes₁, extra₁, hStack₁, hYields₁, hLength₁,
      hContent₁, hCalm₁⟩
  rcases hSecond value₁ hStack₁ with
    ⟨value₂, bytes₂, extra₂, hStack₂, hYields₂, hLength₂,
      hContent₂, hCalm₂⟩
  refine
    ⟨value₂, bytes₁ ++ bytes₂, extra₁ + extra₂, hStack₂,
      ⟨_, _, _, _, hYields₁, hYields₂, rfl, rfl⟩, ?_, ?_, ?_⟩
  · rw [List.length_append]
    omega
  · intro hZero
    rw [hContent₂ (by omega), hContent₁ (by omega),
      List.append_assoc]
  · rw [← hCalm₁, ← hCalm₂]
    exact Nat.add_eq_zero_iff

theorem getValue_eq
    (literal : Fin pool.length) :
    ∃ str,
      pool[literal.1]? = some str ∧ getValue literal = str.1 :=
  ⟨pool.get literal, List.getElem?_eq_getElem literal.2, rfl⟩

/-
  What an operand pushes is its string, unless it is a constant
  that has been changed.
-/
theorem operand_pushed
    {m m' : Machine}
    {operand : Operand pool L}
    {log : Log L}
    (hValid : Valid pool m)
    (hExec :
      exec sem (operand.code false) m = (.ok m', log)) :
    Valid pool m' ∧ Grows m.heap m'.heap ∧
      (∀ left rest, m.stack = left :: rest →
        (content m'.heap left = content m.heap left ↔
          operand.Keeps sem m)) ∧
      Appends m' [] m.stack operand.Naive log
        (operand.Intact m) := by
  cases operand with
  | empty =>
      obtain ⟨hM, rfl⟩ := Prod.mk.inj hExec
      obtain rfl := Except.ok.inj hM
      have hRun :
          OpCode.run m (.pushStr emptyString) = .ok _ := rfl
      refine
        ⟨(run_valid hValid hRun).1, Grows.refl m.heap, ?_,
          .small [], [], 0, rfl, ⟨rfl, rfl⟩, rfl,
          fun _ => rfl, ?_⟩
      · intro left rest hStack
        simp [Operand.Keeps]
      · simp [Operand.Intact]
  | string literal =>
      simp only [Operand.code, generateString, Bool.false_eq_true,
        and_false, if_false, visitStringNode, concatIf] at hExec
      by_cases hShort : (getValue literal).length ≤ 3
      · rw [dif_pos hShort] at hExec
        obtain ⟨hM, rfl⟩ := Prod.mk.inj hExec
        obtain rfl := Except.ok.inj hM
        have hRun :
            OpCode.run m (.pushStr ⟨getValue literal, hShort⟩) =
              .ok _ :=
          rfl
        refine
          ⟨(run_valid hValid hRun).1, Grows.refl m.heap, ?_,
            _, _, 0, rfl, ⟨rfl, rfl⟩, by simp [content],
            fun _ => rfl, ?_⟩
        · intro left rest hStack
          simp [Operand.Keeps]
        · have hNot : ¬3 < (getValue literal).length := by
            omega
          simp [Operand.Intact, hNot]
      · rw [dif_neg hShort] at hExec
        rcases getValue_eq literal with ⟨str, hStr, hText⟩
        rcases hValid.consts _ _ hStr
          with ⟨value, more, hConst, hIn, hContent⟩
        have hRun :
            OpCode.run m (.loadConst literal.1) =
              .ok { m with stack := value :: m.stack } := by
          simp [OpCode.run, hConst]
        simp only [List.append_nil, exec, hRun] at hExec
        obtain ⟨hM, rfl⟩ := Prod.mk.inj hExec
        obtain rfl := Except.ok.inj hM
        rw [← hText] at hContent
        refine
          ⟨(run_valid hValid hRun).1, Grows.refl m.heap, ?_,
            value, getValue literal, more.length, rfl,
            ⟨rfl, rfl⟩, ?_, ?_, ?_⟩
        · intro left rest hStack
          simp [Operand.Keeps]
        · simp [hContent]
        · intro hZero
          rw [List.length_eq_zero_iff] at hZero
          simp [hContent, hZero]
        · have hLong : 3 < (getValue literal).length := by
            omega
          simp [Operand.Intact, hLong, hConst, hContent]
  | leaf l =>
      simp only [Operand.code, generateOther, concatIf,
        Bool.false_eq_true, if_false, exec] at hExec
      cases hEval : sem.eval l m with
      | none =>
          rw [hEval] at hExec
          exact (not_stopped hExec.symm).elim
      | some m₁ =>
          rw [hEval] at hExec
          obtain ⟨hM, rfl⟩ := Prod.mk.inj hExec
          obtain rfl := Except.ok.inj hM
          rcases sem.pushes l m m₁ hEval with ⟨value, hStack⟩
          refine
            ⟨sem.valid l m m₁ hEval hValid,
              sem.grows l m m₁ hEval hValid, ?_, value,
              content m₁.heap value, 0, hStack, ?_, by simp,
              fun _ => rfl, ?_⟩
          · intro left rest hHeld
            constructor
            · intro hKept m₂ value' rest' hEval' hHeld'
              obtain rfl :=
                Option.some.inj (hEval.symm.trans hEval')
              obtain ⟨rfl, rfl⟩ :=
                List.cons.inj (hHeld.symm.trans hHeld')
              exact hKept
            · intro hKeeps
              exact hKeeps m₁ left rest hEval hHeld
          · simp [Operand.Naive, Evaluated, top, hStack]
          · simp [Operand.Intact]

/- Only an expression fails to push its string. -/
theorem operand_raised
    {m : Machine}
    {operand : Operand pool L}
    {stop : Stop}
    {log : Log L}
    (hValid : Valid pool m)
    (hExec :
      exec sem (operand.code false) m = (.error stop, log)) :
    stop = .raised ∧ log = [] := by
  cases operand with
  | empty => exact (not_stopped hExec).elim
  | string literal =>
      simp only [Operand.code, generateString, Bool.false_eq_true,
        and_false, if_false, visitStringNode, concatIf] at hExec
      by_cases hShort : (getValue literal).length ≤ 3
      · rw [dif_pos hShort] at hExec
        exact (not_stopped hExec).elim
      · rw [dif_neg hShort] at hExec
        rcases getValue_eq literal with ⟨str, hStr, hText⟩
        rcases hValid.consts _ _ hStr
          with ⟨value, more, hConst, hIn, hContent⟩
        simp only [List.append_nil, exec, OpCode.run, hConst]
          at hExec
        exact (not_stopped hExec).elim
  | leaf l =>
      simp only [Operand.code, generateOther, concatIf,
        Bool.false_eq_true, if_false, exec] at hExec
      cases hEval : sem.eval l m with
      | none =>
          rw [hEval] at hExec
          rcases Prod.mk.inj hExec with ⟨hStop, rfl⟩
          exact ⟨(Except.error.inj hStop).symm, rfl⟩
      | some m₁ =>
          rw [hEval] at hExec
          exact (not_stopped hExec).elim

/- An operand is left out, or is concatenated. -/
theorem operand_code
    (sem : Semantics pool L)
    (operand : Operand pool L) :
    (operand.code true = [] ∧
        operand.Naive = Constant [] ∧
        ∀ m, operand.Intact m ∧ operand.Keeps sem m) ∨
      operand.code true =
        operand.code false ++ [.op .concat] := by
  cases operand with
  | empty =>
      refine Or.inl ⟨rfl, rfl, ?_⟩
      intro m
      exact ⟨trivial, trivial⟩
  | string literal =>
      by_cases hEmpty : getValue literal = []
      · refine Or.inl ⟨?_, ?_, ?_⟩
        · simp [Operand.code, generateString, hEmpty]
        · rw [Operand.Naive, hEmpty]
        · intro m
          simp [Operand.Intact, Operand.Keeps, hEmpty]
      · refine Or.inr ?_
        simp [Operand.code, generateString, hEmpty, concatIf]
  | leaf l =>
      exact Or.inr (by simp [Operand.code, generateOther, concatIf])

----
-- Concatenated Operands
----

theorem exec_concat
    (m : Machine) :
    exec sem [.op .concat] m =
      match runConcat m false with
      | .error stop => (.error stop, [])
      | .ok m' => (.ok m', []) := by
  simp only [exec, OpCode.run]

/- One operand is evaluated and concatenated to what is held. -/
theorem operand_appended
    {m m' : Machine}
    {operand : Operand pool L}
    {left : Value}
    {rest : List Value}
    {log : Log L}
    (hValid : Valid pool m)
    (hStack : m.stack = left :: rest)
    (hExec : exec sem (operand.code true) m = (.ok m', log)) :
    Valid pool m' ∧
      Appends m' (content m.heap left) rest operand.Naive log
        (operand.Intact m ∧ operand.Keeps sem m) := by
  rcases operand_code sem operand
    with ⟨hCode, hNaive, hCalm⟩ | hCode
  · rw [hCode] at hExec
    obtain ⟨hM, rfl⟩ := Prod.mk.inj hExec
    obtain rfl := Except.ok.inj hM
    refine
      ⟨hValid, left, [], 0, hStack, ?_, rfl, by simp, ?_⟩
    · rw [hNaive]
      exact ⟨rfl, rfl⟩
    · simpa using hCalm m
  · rw [hCode, exec_append] at hExec
    rcases hPush : exec sem (operand.code false) m
      with ⟨stop | m₁, log₁⟩
    · rw [hPush] at hExec
      exact (not_stopped hExec.symm).elim
    rw [hPush] at hExec
    dsimp only at hExec
    rw [exec_concat] at hExec
    rcases operand_pushed hValid hPush
      with ⟨hValid₁, hGrows, hKeeps,
        value, bytes, extra, hStack₁, hYields, hLength, hExact,
        hIntact⟩
    rw [hStack] at hStack₁
    cases hConcat : runConcat m₁ false with
    | error stop =>
        rw [hConcat] at hExec
        exact (not_stopped hExec.symm).elim
    | ok m₂ =>
        rw [hConcat] at hExec
        obtain ⟨hM, rfl⟩ := Prod.mk.inj hExec
        obtain rfl := Except.ok.inj hM
        rcases runConcat_ok hValid₁ hStack₁ hConcat
          with ⟨hValid₂, hGrows₂, ret, hStack₂, hContent⟩
        have hIn : IsIn m.heap left := by
          apply hValid.stack
          simp [hStack]
        rcases hGrows.content hIn with ⟨more, hMore⟩
        have hKept :
            more.length = 0 ↔ operand.Keeps sem m := by
          rw [← hKeeps left rest hStack, hMore]
          simp
        refine
          ⟨hValid₂, ret, bytes, more.length + extra, hStack₂,
            by simpa using hYields, ?_, ?_, ?_⟩
        · rw [hContent, List.length_append, hLength, hMore,
            List.length_append, List.length_nil]
          omega
        · intro hZero
          have hMoreNil : more = [] :=
            List.length_eq_zero_iff.1 (by omega)
          rw [hContent, hMore, hExact (by omega), hMoreNil]
          simp
        · rw [← hIntact, ← hKept, Nat.add_eq_zero_iff]
          exact And.comm

/- When an operand is too long to be concatenated, so are the
strings that it should have been made of. -/
theorem operand_stopped
    {m : Machine}
    {operand : Operand pool L}
    {left : Value}
    {rest : List Value}
    {stop : Stop}
    {log : Log L}
    (hValid : Valid pool m)
    (hStack : m.stack = left :: rest)
    (hExec :
      exec sem (operand.code true) m = (.error stop, log)) :
    (stop = .raised ∧ log = []) ∨
      ∃ bytes,
        operand.Naive log bytes ∧
          (operand.Intact m → operand.Keeps sem m →
            MAX_SIZE <
              (content m.heap left).length + bytes.length) := by
  rcases operand_code sem operand
    with ⟨hCode, hNaive, hCalm⟩ | hCode
  · rw [hCode] at hExec
    exact (not_stopped hExec).elim
  · rw [hCode, exec_append] at hExec
    rcases hPush : exec sem (operand.code false) m
      with ⟨stop' | m₁, log₁⟩
    · rw [hPush] at hExec
      obtain ⟨hStop, rfl⟩ := Prod.mk.inj hExec
      obtain rfl := Except.error.inj hStop
      exact Or.inl (operand_raised hValid hPush)
    rw [hPush] at hExec
    dsimp only at hExec
    rw [exec_concat] at hExec
    rcases operand_pushed hValid hPush
      with ⟨hValid₁, hGrows, hKeeps,
        value, bytes, extra, hStack₁, hYields, hLength, hExact,
        hIntact⟩
    rw [hStack] at hStack₁
    cases hConcat : runConcat m₁ false with
    | ok m₂ =>
        rw [hConcat] at hExec
        exact (not_stopped hExec).elim
    | error stop' =>
        rw [hConcat] at hExec
        obtain ⟨hStop, rfl⟩ := Prod.mk.inj hExec
        have hLong :=
          (runConcat_error hValid₁ hStack₁ hConcat).2
        refine Or.inr ⟨bytes, by simpa using hYields, ?_⟩
        intro hSame hKept
        have hZero := hIntact.2 hSame
        rw [(hKeeps left rest hStack).2 hKept, hLength, hZero]
          at hLong
        simpa using hLong

/- The operands are concatenated one after the other. -/
theorem operands_appended
    {m m' : Machine}
    {operands : List (Operand pool L)}
    {left : Value}
    {rest : List Value}
    {log : Log L}
    (hValid : Valid pool m)
    (hStack : m.stack = left :: rest)
    (hExec :
      exec sem (codeOf operands true) m = (.ok m', log)) :
    Appends m' (content m.heap left) rest (Woven operands) log
      (Undisturbed sem operands true m) := by
  induction operands generalizing m m' left log with
  | nil =>
      obtain ⟨hM, rfl⟩ := Prod.mk.inj hExec
      obtain rfl := Except.ok.inj hM
      exact
        ⟨left, [], 0, hStack, ⟨rfl, rfl⟩, rfl, by simp,
          by simp [Undisturbed]⟩
  | cons operand operands ih =>
      rw [codeOf, exec_append] at hExec
      rcases hOne : exec sem (operand.code true) m
        with ⟨stop | m₁, log₁⟩
      · rw [hOne] at hExec
        exact (not_stopped hExec.symm).elim
      rw [hOne] at hExec
      dsimp only at hExec
      obtain ⟨hM, rfl⟩ := Prod.mk.inj hExec
      rcases operand_appended hValid hStack hOne
        with ⟨hValid₁, hFirst⟩
      have hBoth := hFirst.trans fun value hStack₁ =>
        ih hValid₁ hStack₁ (Prod.ext hM rfl)
      simpa [Undisturbed, hOne, Woven, and_assoc] using hBoth

/-
  Where a concatenation is stopped, some first operands have
  been evaluated.
-/
def StopsAfter
    (held : Bytes)
    (operands : List (Operand pool L))
    (stop : Stop)
    (log : Log L)
    (calm : Prop) : Prop :=
  ∃ first bytes,
    first <+: operands ∧ Woven first log bytes ∧
      (calm → stop = .outOfRange →
        MAX_SIZE < held.length + bytes.length)

theorem StopsAfter.raised
    {held : Bytes}
    {operands : List (Operand pool L)}
    {calm : Prop} :
    StopsAfter held operands .raised [] calm :=
  ⟨[], [], List.nil_prefix, ⟨rfl, rfl⟩, fun _ hStop =>
    nomatch hStop⟩

/- The first operand went well, and a later one did not. -/
theorem StopsAfter.cons
    {m₁ : Machine}
    {held : Bytes}
    {rest : List Value}
    {operand : Operand pool L}
    {operands : List (Operand pool L)}
    {stop : Stop}
    {log₁ log₂ : Log L}
    {calm₁ calm₂ : Prop}
    (hFirst : Appends m₁ held rest operand.Naive log₁ calm₁)
    (hSecond :
      ∀ value, m₁.stack = value :: rest →
        StopsAfter (content m₁.heap value) operands stop log₂
          calm₂) :
    StopsAfter held (operand :: operands) stop (log₁ ++ log₂)
      (calm₁ ∧ calm₂) := by
  rcases hFirst with
    ⟨value, bytes₁, extra, hStack, hYields, hLength, hExact,
      hCalm⟩
  rcases hSecond value hStack with
    ⟨first, bytes₂, hFirst, hWoven, hLong⟩
  refine
    ⟨operand :: first, bytes₁ ++ bytes₂,
      List.prefix_cons_inj operand |>.2 hFirst,
      ⟨_, _, _, _, hYields, hWoven, rfl, rfl⟩, ?_⟩
  rintro ⟨hCalm₁, hCalm₂⟩ hStop
  have hZero := hCalm.2 hCalm₁
  have hMore := hLong hCalm₂ hStop
  rw [List.length_append]
  omega

theorem operands_stopped
    {m : Machine}
    {operands : List (Operand pool L)}
    {left : Value}
    {rest : List Value}
    {stop : Stop}
    {log : Log L}
    (hValid : Valid pool m)
    (hStack : m.stack = left :: rest)
    (hExec :
      exec sem (codeOf operands true) m = (.error stop, log)) :
    StopsAfter (content m.heap left) operands stop log
      (Undisturbed sem operands true m) := by
  induction operands generalizing m left log with
  | nil => exact (not_stopped hExec).elim
  | cons operand operands ih =>
      rw [codeOf, exec_append] at hExec
      rcases hOne : exec sem (operand.code true) m
        with ⟨stop' | m₁, log₁⟩
      · rw [hOne] at hExec
        obtain ⟨hStop, rfl⟩ := Prod.mk.inj hExec
        obtain rfl := Except.error.inj hStop
        rcases operand_stopped hValid hStack hOne
          with ⟨rfl, rfl⟩ | ⟨bytes, hYields, hLong⟩
        · exact StopsAfter.raised
        · refine
            ⟨[operand], bytes, by simp, by
              simpa [Woven] using hYields, ?_⟩
          rintro ⟨hIntact, hKeeps, hRest⟩ hStop
          exact hLong hIntact (hKeeps rfl)
      · rw [hOne] at hExec
        dsimp only at hExec
        obtain ⟨hStop, rfl⟩ := Prod.mk.inj hExec
        rcases operand_appended hValid hStack hOne
          with ⟨hValid₁, hFirst⟩
        have hBoth := StopsAfter.cons hFirst
          fun value hStack₁ =>
            ih hValid₁ hStack₁ (Prod.ext hStop rfl)
        simpa [Undisturbed, hOne, and_assoc] using hBoth

----
-- Flattened Concatenation
----

theorem node_appended
    {m m' : Machine}
    {node : Node pool L}
    {log : Log L}
    (hValid : Valid pool m)
    (hExec :
      exec sem (generateConcat node false) m = (.ok m', log)) :
    Appends m' [] m.stack node.Naive log
      (Undisturbed sem node.operands false m) := by
  rw [generateConcat_eq] at hExec
  rw [node.naive_eq]
  cases hOperands : node.operands with
  | nil => exact absurd hOperands node.operands_ne_nil
  | cons operand operands =>
      rw [hOperands, codeOf, exec_append] at hExec
      rcases hOne : exec sem (operand.code false) m
        with ⟨stop | m₁, log₁⟩
      · rw [hOne] at hExec
        exact (not_stopped hExec.symm).elim
      rw [hOne] at hExec
      dsimp only at hExec
      obtain ⟨hM, rfl⟩ := Prod.mk.inj hExec
      rcases operand_pushed hValid hOne
        with ⟨hValid₁, hGrows, hKeeps, hFirst⟩
      have hBoth := hFirst.trans fun value hStack₁ =>
        operands_appended hValid₁ hStack₁ (Prod.ext hM rfl)
      simpa [Undisturbed, hOne, Woven] using hBoth

theorem node_stopped
    {m : Machine}
    {node : Node pool L}
    {stop : Stop}
    {log : Log L}
    (hValid : Valid pool m)
    (hExec :
      exec sem (generateConcat node false) m =
        (.error stop, log)) :
    StopsAfter [] node.operands stop log
      (Undisturbed sem node.operands false m) := by
  rw [generateConcat_eq] at hExec
  cases hOperands : node.operands with
  | nil => exact absurd hOperands node.operands_ne_nil
  | cons operand operands =>
      rw [hOperands, codeOf, exec_append] at hExec
      rcases hOne : exec sem (operand.code false) m
        with ⟨stop' | m₁, log₁⟩
      · rw [hOne] at hExec
        obtain ⟨hStop, rfl⟩ := Prod.mk.inj hExec
        obtain rfl := Except.error.inj hStop
        rcases operand_raised hValid hOne with ⟨rfl, rfl⟩
        exact StopsAfter.raised
      · rw [hOne] at hExec
        dsimp only at hExec
        obtain ⟨hStop, rfl⟩ := Prod.mk.inj hExec
        rcases operand_pushed hValid hOne
          with ⟨hValid₁, hGrows, hKeeps, hFirst⟩
        have hBoth := StopsAfter.cons hFirst
          fun value hStack₁ =>
            operands_stopped hValid₁ hStack₁
              (Prod.ext hStop rfl)
        simpa [Undisturbed, hOne] using hBoth

/- What has been evaluated begins some evaluation of the whole
tree. -/
theorem StopsAfter.completed
    {node : Node pool L}
    {held : Bytes}
    {stop : Stop}
    {log : Log L}
    {calm : Prop}
    (hStops : StopsAfter held node.operands stop log calm) :
    ∃ more bytes, node.Naive (log ++ more) bytes := by
  rcases hStops with
    ⟨first, bytes, ⟨second, hSecond⟩, hWoven, hLong⟩
  rcases woven_total second with ⟨more, bytes', hMore⟩
  refine ⟨more, bytes ++ bytes', ?_⟩
  rw [node.naive_eq, ← hSecond, woven_append]
  exact ⟨_, _, _, _, hWoven, hMore, rfl, rfl⟩

/- The evaluation comes to its end, and a string it is made of
is changed from elsewhere before that. -/
def Disturbed
    (sem : Semantics pool L)
    (node : Node pool L)
    (m : Machine) : Prop :=
  (∃ m', (exec sem (generateConcat node false) m).1 = .ok m') ∧
    ¬Undisturbed sem node.operands false m

/-
  The flattened code does what pairwise concatenation does
  exactly when no expression appends in place to a string that
  is held, or to a constant.  Then a string that is too long
  for the code is too long for pairwise concatenation as well.
-/
theorem generateConcat_naive_iff
    (sem : Semantics pool L)
    (node : Node pool L)
    (m : { m : Machine // Valid pool m }) :
    (YieldsNaive sem node m.1 ↔ ¬Disturbed sem node m.1) ∧
      (Undisturbed sem node.operands false m.1 →
        (exec sem (generateConcat node false) m.1).1 =
          .error .outOfRange →
        ∃ first bytes,
          first <+: node.operands ∧
            Woven first
              (exec sem (generateConcat node false) m.1).2
              bytes ∧
            MAX_SIZE < bytes.length) := by
  rcases hExec : exec sem (generateConcat node false) m.1
    with ⟨stop | m', log⟩
  · have hStops := node_stopped m.2 hExec
    refine ⟨?_, ?_⟩
    · unfold YieldsNaive Disturbed
      rw [hExec]
      constructor
      · rintro hYields ⟨⟨m', hM⟩, hNot⟩
        exact nomatch hM
      · intro hNot
        exact hStops.completed
    · intro hCalm hStop
      rcases hStops with
        ⟨first, bytes, hFirst, hWoven, hLong⟩
      refine ⟨first, bytes, hFirst, hWoven, ?_⟩
      simpa using hLong hCalm (Except.error.inj hStop)
  · rcases node_appended m.2 hExec with
      ⟨value, bytes, extra, hStack, hYields, hLength, hExact,
        hCalm⟩
    refine ⟨?_, fun _ hStop => nomatch hStop⟩
    unfold YieldsNaive Disturbed
    rw [hExec, ← hCalm]
    constructor
    · rintro ⟨value', hStack', hYields'⟩ ⟨hRuns, hNot⟩
      obtain rfl :=
        (List.cons.inj (hStack.symm.trans hStack')).1
      rw [node.naive_eq] at hYields hYields'
      rw [woven_unique hYields' hYields] at hLength
      rw [List.length_nil] at hLength
      omega
    · intro hNot
      have hZero : extra = 0 := by
        by_contra hExtra
        exact hNot ⟨⟨m', rfl⟩, hExtra⟩
      refine ⟨value, hStack, ?_⟩
      rw [hExact hZero]
      exact hYields

----
-- A String That Is Changed
----

def runAll : List OpCode → Machine → Except Stop Machine
  | [], m => .ok m
  | opCode :: code, m =>
      match opCode.run m with
      | .error stop => .error stop
      | .ok m' => runAll code m'

/- The code of an expression leaves one value on the stack. -/
def evalCode
    (code : List OpCode)
    (m : Machine) : Option Machine :=
  match runAll code m with
  | .error _ => none
  | .ok m' =>
      match m'.stack with
      | [] => none
      | _ :: rest => if rest = m.stack then some m' else none

theorem runAll_valid
    {code : List OpCode}
    {m m' : Machine}
    (hValid : Valid pool m)
    (hRun : runAll code m = .ok m') :
    Valid pool m' ∧ Grows m.heap m'.heap := by
  induction code generalizing m with
  | nil =>
      obtain rfl := Except.ok.inj hRun
      exact ⟨hValid, Grows.refl m.heap⟩
  | cons opCode code ih =>
      simp only [runAll] at hRun
      cases hOne : opCode.run m with
      | error stop =>
          rw [hOne] at hRun
          exact nomatch hRun
      | ok m₁ =>
          rw [hOne] at hRun
          rcases run_valid hValid hOne with ⟨hValid₁, hGrows⟩
          rcases ih hValid₁ hRun with ⟨hValid', hGrows'⟩
          exact ⟨hValid', hGrows.trans hGrows'⟩

theorem evalCode_some
    {code : List OpCode}
    {m m' : Machine}
    (hEval : evalCode code m = some m') :
    runAll code m = .ok m' ∧
      ∃ value, m'.stack = value :: m.stack := by
  unfold evalCode at hEval
  cases hRun : runAll code m with
  | error stop =>
      rw [hRun] at hEval
      exact nomatch hEval
  | ok m₁ =>
      rw [hRun] at hEval
      dsimp only at hEval
      cases hStack : m₁.stack with
      | nil =>
          rw [hStack] at hEval
          exact nomatch hEval
      | cons value rest =>
          rw [hStack] at hEval
          dsimp only at hEval
          by_cases hRest : rest = m.stack
          · rw [if_pos hRest] at hEval
            obtain rfl := Option.some.inj hEval
            exact ⟨rfl, value, by rw [hStack, hRest]⟩
          · rw [if_neg hRest] at hEval
            exact nomatch hEval

/- Expressions that are given by their code. -/
def codeSemantics
    (pool : List Str) : Semantics pool (List OpCode) where
  eval := evalCode
  pushes _ _ _ hEval := (evalCode_some hEval).2
  valid _ _ _ hEval hValid :=
    (runAll_valid hValid (evalCode_some hEval).1).1
  grows _ _ _ hEval hValid :=
    (runAll_valid hValid (evalCode_some hEval).1).2

/- `0123456789abcdef` -/
def computed : Bytes :=
  [48, 49, 50, 51, 52, 53, 54, 55, 56, 57, 97, 98, 99, 100, 101,
    102]

/- `$a += $h()`, where `h` assigns `n` to `a` and returns
`zzz`, and the empty string. -/
def appending : List OpCode :=
  [.loadGlobal 0, .pushStr ⟨[110], by decide⟩, .storeGlobal 0,
    .pushStr ⟨[122, 122, 122], by decide⟩, .append,
    .storeGlobal 0, .pushStr emptyString]

/- `"${$a}${$f()}"` -/
def changing : Node [] (List OpCode) :=
  .stringExpr [.other [.loadGlobal 0], .other appending]

theorem held_string_changed :
    ∃ hValid : Valid [] ⟨[computed], [], [.obj 0], []⟩,
      ¬YieldsNaive (codeSemantics []) changing
        (⟨_, hValid⟩ : { m : Machine // Valid [] m }).1 := by
  refine ⟨⟨?_, ?_, ?_, ?_, ?_⟩, ?_⟩
  · intro bytes hMem
    rw [List.mem_singleton.1 hMem]
    decide
  · intro value hMem
    rw [List.mem_singleton.1 hMem]
    exact Nat.zero_lt_one
  · intro value hMem
    exact nomatch hMem
  · intro index str hStr
    exact nomatch hStr
  · intro value hMem
    exact nomatch hMem
  · have hExec :
        exec (codeSemantics []) (generateConcat changing false)
            ⟨[computed], [], [.obj 0], []⟩ =
          (.ok ⟨[computed ++ [122, 122, 122]], [], [.obj 0],
              [.obj 0]⟩,
            [([.loadGlobal 0], computed), (appending, [])]) := by
      rfl
    unfold YieldsNaive
    rw [hExec]
    rintro ⟨value, hStack, hNaive⟩
    obtain rfl := (List.cons.inj hStack).1
    rcases hNaive with
      ⟨log₁, bytes₁, log₂, bytes₂, hOne,
        ⟨log₃, bytes₃, log₄, bytes₄, hTwo, ⟨rfl, rfl⟩, rfl, rfl⟩,
        hLog, hBytes⟩
    have hFirst : log₁ = [([.loadGlobal 0], bytes₁)] := hOne
    have hSecond : log₃ = [(appending, bytes₃)] := hTwo
    subst hFirst hSecond
    simp only [List.cons_append, List.nil_append,
      List.append_nil, List.cons.injEq, Prod.mk.injEq,
      true_and, and_true] at hLog
    rcases hLog with ⟨rfl, rfl⟩
    exact absurd hBytes (by decide)

end Concat

end Ydsh
