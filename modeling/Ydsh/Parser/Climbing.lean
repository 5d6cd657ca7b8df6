import Ydsh.Parser.Operands

/-
  What the parser does with the text of an expression.

  The text is read from every base precedence up to its level.
  The loop is then left in front of the words that follow, with
  the node of the expression.

  Main declarations:
    * `Parses`
    * `Parses.extend`
    * `Parses.of_unary`
-/

----
-- Levels
----

namespace Ydsh

namespace Parser

/- The base precedence of the last operand of an expression on
   a level. -/
def lastPrece (level : Nat) : Nat :=
  if level = getPrecedence .ASSIGN ∨
      level = getPrecedence .THROW ∨
      level = getPrecedence .TERNARY ∨
      level = getPrecedence .NULL_COALE then
    level
  else
    level + 1

theorem le_lastPrece (level : Nat) : level ≤ lastPrece level := by
  unfold lastPrece
  split
  · exact Nat.le_refl _
  · exact Nat.le_succ _

theorem rightPrece_eq_lastPrece
    {kind : TokenKind}
    (hBinary : kind.isBinary = true) :
    kind.rightPrece = lastPrece (getPrecedence kind) := by
  cases kind <;> first | rfl | cases hBinary

/- Only the ternary operator is read from the right without the
   mark of it. -/
theorem prece_lt_lastPrece
    {kind : TokenKind}
    (hInfix : (getOpInfo kind).isInfix = true)
    (hTernary : kind ≠ .TERNARY)
    {level : Nat}
    (hLevel : kind.leftPrece ≤ level) :
    getPrecedence kind < lastPrece level := by
  have hNear :
      level = getPrecedence kind →
        lastPrece level = level + 1 := by
    rintro rfl
    cases kind <;>
      first
        | rfl
        | exact absurd rfl hTernary
        | exact absurd hLevel (by decide)
  have hPrece : getPrecedence kind ≤ kind.leftPrece :=
    Nat.le_add_right _ _
  have hLe := le_lastPrece level
  by_cases hEq : level = getPrecedence kind
  · rw [hNear hEq]
    omega
  · omega

theorem stops_mono
    {kind : TokenKind}
    {prece prece' : Nat}
    (hLe : prece ≤ prece')
    (hStops : stops prece kind = true) :
    stops prece' kind = true := by
  unfold stops at hStops ⊢
  simp only [Bool.or_eq_true, decide_eq_true_eq] at hStops ⊢
  rcases hStops with hInfix | hPrece
  · exact Or.inl hInfix
  · exact Or.inr (by omega)

----
-- Words After an Expression
----

/- The words after an expression are none of its last
   operand. -/
def Follows
    (edge : Edge)
    (prece : Nat)
    (rest : List Word) : Prop :=
  ∀ w ∈ rest.head?,
    edge.admits w = true ∧ stops prece (w.kind .EXPR) = true

theorem Follows.mono
    {edge : Edge}
    {prece prece' : Nat}
    {rest : List Word}
    (hFollows : Follows edge prece rest)
    (hLe : prece ≤ prece') :
    Follows edge prece' rest := by
  intro w hMem
  rcases hFollows w hMem with ⟨hAdmits, hStops⟩
  exact ⟨hAdmits, stops_mono hLe hStops⟩

theorem Follows.nil
    (edge : Edge)
    (prece : Nat) :
    Follows edge prece [] :=
  fun _ hMem => by cases hMem

theorem Follows.cons
    {edge : Edge}
    {prece : Nat}
    {w : Word}
    (hAdmits : edge.admits w = true)
    (hStops : stops prece (w.kind .EXPR) = true)
    (rest : List Word) :
    Follows edge prece (w :: rest) := by
  intro v hMem
  cases hMem
  exact ⟨hAdmits, hStops⟩

theorem Edge.kind_of_admits
    {edge : Edge}
    {w : Word}
    (hAdmits : edge.admits w = true) :
    w.kind edge.mode = w.kind .EXPR := by
  unfold Edge.admits at hAdmits
  rw [Bool.and_eq_true, beq_iff_eq] at hAdmits
  exact hAdmits.1

theorem Follows.stops_peek
    {edge : Edge}
    {prece : Nat}
    {rest : List Word}
    (hFollows : Follows edge prece rest)
    (stack : List LexerCond) :
    stops prece (Stream.peek ⟨edge.mode, stack, rest⟩) = true := by
  cases rest with
  | nil => rfl
  | cons w rest =>
      rcases hFollows w rfl with ⟨hAdmits, hStops⟩
      rw [Stream.peek_cons, Edge.kind_of_admits hAdmits]
      exact hStops

/- No operator is read after `&`. -/
theorem stops_stmt
    (base : Nat)
    (stack : List LexerCond)
    (rest : List Word) :
    stops base (Stream.peek ⟨.STMT, stack, rest⟩) = true := by
  cases rest with
  | nil => rfl
  | cons w rest =>
      rw [Stream.peek_cons]
      cases w with
      | symbol s => cases s <;> rfl
      | number value => rfl
      | applied name => rfl
      | name name => rfl
      | file name => rfl
      | env name value => rfl

----
-- Reading an Expression
----

/- The text begins an expression, and with an assignment only
   where the expression is no operand of `with`. -/
def Starts (r : Rendering) : Prop :=
  ∃ w words, r.words = w :: words ∧
    lookahead_expression (w.kind .STMT) = true ∧
      (getPrecedence .WITH ≤ r.level →
        w.kind .STMT ≠ .ENV_ASSIGN)

structure Parses
    (r : Rendering)
    (node : Node) : Prop where
  level_pos : 1 ≤ r.level
  depth_pos : 1 ≤ r.depth
  starts : Starts r
  unary :
    r.level = UNARY_PRECE →
      r.edge = .plain ∧
        ∀ calls stack rest,
          r.depth ≤ calls + 1 →
            parse_unaryExpression calls
                ⟨.STMT, stack, r.words ++ rest⟩ =
              some (node, ⟨.EXPR, stack, rest⟩)
  expression :
    ∀ base calls stack rest,
      base ≤ r.level →
      r.depth ≤ calls + 1 →
      Follows r.edge (lastPrece r.level) rest →
        ∃ rounds,
          rest.length < rounds ∧
            parse_expression (calls + 1) base
                ⟨.STMT, stack, r.words ++ rest⟩ =
              parse_operators (parse_expression calls) calls
                base rounds node ⟨r.edge.mode, stack, rest⟩

theorem parse_operators_of_stops
    {expression : Nat → Stream → Option (Node × Stream)}
    {calls base rounds : Nat}
    {node : Node}
    {s : Stream}
    (hRounds : 0 < rounds)
    (hStops : stops base s.peek = true) :
    parse_operators expression calls base rounds node s =
      some (node, s) := by
  obtain ⟨rounds, rfl⟩ := Nat.exists_eq_add_of_le' hRounds
  rw [parse_operators, if_pos hStops]

/- An operand that nothing of its own precedence follows. -/
theorem Parses.reads
    {r : Rendering}
    {node : Node}
    (hParses : Parses r node)
    {base calls : Nat}
    (hBase : base ≤ r.level)
    (hCalls : r.depth ≤ calls)
    {rest : List Word}
    (hFollows : Follows r.edge base rest)
    (stack : List LexerCond) :
    parse_expression calls base
        ⟨.STMT, stack, r.words ++ rest⟩ =
      some (node, ⟨r.edge.mode, stack, rest⟩) := by
  have hPos := hParses.depth_pos
  obtain ⟨calls, rfl⟩ : ∃ c, calls = c + 1 :=
    ⟨calls - 1, by omega⟩
  rcases hParses.expression base calls stack rest hBase hCalls
      (hFollows.mono (Nat.le_trans hBase (le_lastPrece _)))
    with ⟨rounds, hRounds, hEq⟩
  rw [hEq]
  apply parse_operators_of_stops
  · omega
  · exact hFollows.stops_peek stack

/- The expressions that `parse_unaryExpression` reads whole. -/
theorem Parses.of_unary
    {r : Rendering}
    {node : Node}
    (hLevel : 1 ≤ r.level)
    (hDepth : 1 ≤ r.depth)
    (hStarts : Starts r)
    (hPlain : r.level = UNARY_PRECE → r.edge = .plain)
    (hUnary :
      ∀ calls stack rest,
        r.depth ≤ calls + 1 →
        (r.level ≠ UNARY_PRECE →
          Follows r.edge (lastPrece r.level) rest) →
          parse_unaryExpression calls
              ⟨.STMT, stack, r.words ++ rest⟩ =
            some (node, ⟨r.edge.mode, stack, rest⟩)) :
    Parses r node := by
  refine ⟨hLevel, hDepth, hStarts, ?_, ?_⟩
  · intro hEq
    have hEdge := hPlain hEq
    refine ⟨hEdge, fun calls stack rest hCalls => ?_⟩
    have hRead :=
      hUnary calls stack rest hCalls (fun hNe => absurd hEq hNe)
    rw [hEdge] at hRead
    exact hRead
  · intro base calls stack rest _ hCalls hFollows
    have hRead :=
      hUnary calls stack rest hCalls (fun _ => hFollows)
    refine ⟨(r.words ++ rest).length + 1, ?_, ?_⟩
    · rw [List.length_append]
      omega
    · rw [parse_expression, hRead, Option.bind_some]

/- An operator of the loop, and the words that it takes. -/
theorem Parses.extend
    {left r : Rendering}
    {node node' : Node}
    (hLeft : Parses left node)
    {kind : TokenKind}
    {w : Word}
    {more : List Word}
    (hWords : r.words = left.words ++ w :: more)
    (hLevel : r.level = getPrecedence kind)
    (hDepth : left.depth ≤ r.depth)
    (hKind : w.kind .EXPR = kind)
    (hInfix : (getOpInfo kind).isInfix = true)
    (hAdmits : left.edge.admits w = true)
    (hBelow : getPrecedence kind ≤ left.level)
    (hOpen : getPrecedence kind < lastPrece left.level)
    (hStep :
      ∀ calls stack rest,
        r.depth ≤ calls + 1 →
        Follows r.edge (lastPrece r.level) rest →
          ∃ goesOn,
            parse_operator (parse_expression calls) calls node
                ⟨left.edge.mode, stack, w :: (more ++ rest)⟩ =
              some (goesOn, node', ⟨r.edge.mode, stack, rest⟩) ∧
            (goesOn = true ∨ r.edge = .closed)) :
    Parses r node' := by
  have hPrece : 1 ≤ getPrecedence kind ∧ getPrecedence kind ≤ 17 := by
    cases kind <;> first | decide | cases hInfix
  have hPos := hLeft.depth_pos
  refine ⟨by omega, by omega, ?_, ?_, ?_⟩
  · rcases hLeft.starts with ⟨v, words, hEq, hLook, hEnv⟩
    refine ⟨v, words ++ w :: more, ?_, hLook, ?_⟩
    · rw [hWords, hEq, List.cons_append]
    · intro hWith
      exact hEnv (by omega)
  · intro hUnary
    rw [hLevel] at hUnary
    exact absurd hUnary (by unfold UNARY_PRECE; omega)
  · intro base calls stack rest hBase hCalls hFollows
    have hNot : ¬ stops base kind = true := by
      unfold stops
      rw [hInfix]
      simp only [Bool.not_true, Bool.false_or,
        decide_eq_true_eq]
      unfold getPrecedence at hLevel
      omega
    have hAfter :
        Follows left.edge (lastPrece left.level)
          (w :: (more ++ rest)) := by
      apply Follows.cons hAdmits
      rw [hKind]
      unfold stops
      simp only [Bool.or_eq_true, decide_eq_true_eq]
      exact Or.inr hOpen
    rcases hLeft.expression base calls stack
        (w :: (more ++ rest)) (by omega) (by omega) hAfter
      with ⟨rounds, hRounds, hEq⟩
    rcases hStep calls stack rest hCalls hFollows
      with ⟨goesOn, hOperator, hGoesOn⟩
    obtain ⟨rounds, rfl⟩ : ∃ n, rounds = n + 1 :=
      ⟨rounds - 1, by omega⟩
    rw [List.length_cons, List.length_append] at hRounds
    refine ⟨rounds, by omega, ?_⟩
    rw [hWords, List.append_assoc, List.cons_append, hEq,
      parse_operators, Stream.peek_cons,
      Edge.kind_of_admits hAdmits, hKind, if_neg hNot, hOperator,
      Option.bind_some]
    cases goesOn with
    | true => rfl
    | false =>
        have hClosed : r.edge = .closed := by
          rcases hGoesOn with hTrue | hClosed
          · cases hTrue
          · exact hClosed
        rw [hClosed]
        symm
        apply parse_operators_of_stops
        · omega
        · exact stops_stmt base stack rest

end Parser

end Ydsh
