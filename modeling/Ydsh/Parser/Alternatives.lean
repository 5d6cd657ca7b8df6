import Ydsh.Parser.Climbing

/-
  The kinds of expressions, one after another.

  Main declarations:
    * `Parses.operand`
    * `Parses.binary`
    * `Parses.ternary`
-/

----
-- Atoms and Groups
----

namespace Ydsh

namespace Parser

theorem starts_cons
    {r : Rendering}
    {w : Word}
    {words : List Word}
    (hWords : r.words = w :: words)
    (hLook : lookahead_expression (w.kind .STMT) = true)
    (hEnv : w.kind .STMT ≠ .ENV_ASSIGN) :
    Starts r :=
  ⟨w, words, hWords, hLook, fun _ => hEnv⟩

/- A word that is an expression by itself. -/
theorem Parses.word
    {w : Word}
    {node : Node}
    (hLook : lookahead_expression (w.kind .STMT) = true)
    (hEnv : w.kind .STMT ≠ .ENV_ASSIGN)
    (hRead :
      ∀ calls stack rest,
        parse_unaryExpression (calls + 3)
            ⟨.STMT, stack, w :: rest⟩ =
          some (node, ⟨(Rendering.atom w).edge.mode, stack, rest⟩)) :
    Parses (.atom w) node := by
  apply Parses.of_unary
  · exact Nat.le_add_left 1 _
  · exact Nat.le_add_left 1 _
  · exact starts_cons rfl hLook hEnv
  · exact fun _ => rfl
  · intro calls stack rest hCalls _
    obtain ⟨calls, rfl⟩ : ∃ c, calls = c + 3 :=
      ⟨calls - 3, by simp only [Rendering.atom] at hCalls; omega⟩
    exact hRead calls stack rest

theorem Parses.number
    (value : Fin INT64_RANGE) :
    Parses (.atom (.number value)) (.number value) := by
  apply Parses.word rfl (fun h => by cases h)
  intro calls stack rest
  simp only [parse_unaryExpression, Stream.peek_cons,
    Word.kind, parse_suffixExpression, parse_primaryExpression]
  rw [if_pos ⟨trivial, value.isLt⟩]
  rfl

theorem Parses.var
    (name : Name) :
    Parses (.atom (.applied name)) (.var name) := by
  apply Parses.word rfl (fun h => by cases h)
  intro calls stack rest
  simp only [parse_unaryExpression, Stream.peek_cons,
    Word.kind, parse_suffixExpression, parse_primaryExpression]
  rw [if_pos trivial]
  rfl

theorem Edge.admits_rparen
    (edge : Edge) :
    edge.admits (.symbol .rparen) = true := by
  cases edge with
  | plain => rfl
  | typed isBase => cases isBase <;> rfl
  | redirected => rfl
  | closed => rfl

theorem Edge.plain_admits
    (w : Word) :
    Edge.plain.admits w = true := by
  unfold Edge.admits
  rw [Bool.and_eq_true, beq_iff_eq]
  exact ⟨rfl, rfl⟩

theorem consume_rparen
    (edge : Edge)
    (stack : List LexerCond)
    (rest : List Word) :
    Stream.peek ⟨edge.mode, .EXPR :: stack,
        .symbol .rparen :: rest⟩ = .RP ∧
      Stream.consume ⟨edge.mode, .EXPR :: stack,
          .symbol .rparen :: rest⟩ =
        ⟨.EXPR, stack, rest⟩ := by
  cases edge with
  | plain => exact ⟨rfl, rfl⟩
  | typed isBase => exact ⟨rfl, rfl⟩
  | redirected => exact ⟨rfl, rfl⟩
  | closed => exact ⟨rfl, rfl⟩

theorem Parses.grouped
    {r : Rendering}
    {node : Node}
    (hParses : Parses r node) :
    Parses r.grouped node := by
  apply Parses.of_unary
  · exact Nat.le_add_left 1 _
  · exact Nat.le_add_left 1 _
  · exact starts_cons rfl rfl (by decide)
  · exact fun _ => rfl
  · intro calls stack rest hCalls _
    have hPos := hParses.depth_pos
    obtain ⟨calls, rfl⟩ : ∃ c, calls = c + 3 :=
      ⟨calls - 3,
        by simp only [Rendering.grouped] at hCalls; omega⟩
    have hFollows :
        Follows r.edge (getPrecedence .ASSIGN)
          (.symbol .rparen :: rest) :=
      Follows.cons (Edge.admits_rparen r.edge) rfl rest
    have hDepth : r.depth ≤ calls := by
      simp only [Rendering.grouped] at hCalls
      omega
    have hBase : getPrecedence .ASSIGN ≤ r.level :=
      hParses.level_pos
    have hInside :=
      hParses.reads hBase hDepth hFollows (.EXPR :: stack)
    rcases consume_rparen r.edge stack rest
      with ⟨hPeek, hConsume⟩
    have hOpen :
        Stream.consume ⟨.STMT, stack,
            .symbol .lparen ::
              (r.words ++ .symbol .rparen :: rest)⟩ =
          ⟨.STMT, .EXPR :: stack,
            r.words ++ .symbol .rparen :: rest⟩ := rfl
    simp only [Rendering.grouped, List.cons_append,
      List.append_assoc, List.nil_append,
      parse_unaryExpression, Stream.peek_cons, Word.kind,
      Symbol.kind, Symbol.stmtKind, parse_suffixExpression,
      parse_primaryExpression]
    rw [if_pos trivial, hOpen, hInside, Option.bind_some,
      if_pos hPeek, hConsume]
    rfl

theorem Parses.operand
    {r : Rendering}
    {node : Node}
    (hParses : Parses r node)
    {parens : Parens}
    (hParens : parens ≠ .byPrecedence)
    {level : Nat}
    (hLevel : level ≤ UNARY_PRECE)
    (next : Option Word) :
    Parses (r.operand parens level next) node ∧
      level ≤ (r.operand parens level next).level ∧
      ∀ w ∈ next,
        (r.operand parens level next).edge.admits w = true := by
  unfold Rendering.operand
  split
  · exact
      ⟨hParses.grouped, hLevel, fun w _ => Edge.plain_admits w⟩
  · rename_i hNeeds
    cases parens with
    | byPrecedence => exact absurd rfl hParens
    | everywhere => exact absurd rfl hNeeds
    | demanded =>
        unfold Rendering.needsGroup at hNeeds
        simp only [Bool.or_eq_true, decide_eq_true_eq,
          Bool.not_eq_true', not_or, Bool.not_eq_false]
          at hNeeds
        refine ⟨hParses, by omega, ?_⟩
        intro w hMem
        have hAll := hNeeds.2
        rw [Option.mem_def] at hMem
        rw [hMem] at hAll
        exact hAll

----
-- Prefixes
----

theorem kind_of_isUnary
    {kind : TokenKind}
    (hUnary : kind.isUnary = true) :
    kind.word.kind .STMT = kind := by
  cases kind <;> first | rfl | cases hUnary

theorem Parses.unaryOp
    {r : Rendering}
    {node : Node}
    (hParses : Parses r node)
    (op : UnaryOp)
    (hLevel : UNARY_PRECE ≤ r.level)
    (hMax : r.level ≤ UNARY_PRECE) :
    Parses (.unary op r) (.unaryOp op.1 node) := by
  have hKind := kind_of_isUnary op.2
  apply Parses.of_unary
  · exact Nat.le_add_left 1 _
  · exact Nat.le_add_left 1 _
  · apply starts_cons rfl
    · rw [hKind]
      rcases op with ⟨kind, hUnary⟩
      cases kind <;> first | rfl | cases hUnary
    · rw [hKind]
      intro hEnv
      have hUnary := op.2
      rw [hEnv] at hUnary
      cases hUnary
  · exact fun _ => rfl
  · intro calls stack rest hCalls _
    have hPos := hParses.depth_pos
    simp only [Rendering.unary] at hCalls
    obtain ⟨calls, rfl⟩ : ∃ c, calls = c + 1 :=
      ⟨calls - 1, by omega⟩
    rcases hParses.unary (Nat.le_antisymm hMax hLevel)
      with ⟨_, hRead⟩
    have hInner := hRead calls stack rest (by omega)
    have hConsume :
        Stream.consume
            ⟨.STMT, stack, op.1.word :: (r.words ++ rest)⟩ =
          ⟨.STMT, stack, r.words ++ rest⟩ := by
      rcases op with ⟨kind, hUnary⟩
      cases kind <;> first | rfl | cases hUnary
    have hOp :
        parse_unaryOp (parse_unaryExpression calls)
            ⟨.STMT, stack, op.1.word :: (r.words ++ rest)⟩ =
          some (.unaryOp op.1 node, ⟨.EXPR, stack, rest⟩) := by
      rw [parse_unaryOp, hConsume, hInner, Stream.peek_cons,
        hKind]
      rfl
    simp only [Rendering.unary, List.cons_append,
      parse_unaryExpression, Stream.peek_cons, hKind]
    rcases op with ⟨kind, hUnary⟩
    cases kind <;> first | exact hOp | cases hUnary

/- `throw` and `coproc` are read alike. -/
theorem Parses.headed
    {r : Rendering}
    {node : Node}
    (hParses : Parses r node)
    (hLevel : getPrecedence .THROW ≤ r.level)
    {s : Symbol}
    {wrap : Node → Node}
    (hLook : lookahead_expression s.stmtKind = true)
    (hEnv : s.stmtKind ≠ .ENV_ASSIGN)
    (hStep :
      ∀ calls stack words,
        parse_unaryExpression (calls + 1)
            ⟨.STMT, stack, .symbol s :: words⟩ =
          (parse_expression calls (getPrecedence .THROW)
              ⟨.STMT, stack, words⟩).map
            (fun found => (wrap found.1, found.2))) :
    Parses (.headed s r) (wrap node) := by
  apply Parses.of_unary
  · exact Nat.le_add_left 1 _
  · exact Nat.le_add_left 1 _
  · exact starts_cons rfl hLook hEnv
  · intro hUnary
    cases hUnary
  · intro calls stack rest hCalls hFollows
    have hPos := hParses.depth_pos
    simp only [Rendering.headed] at hCalls
    obtain ⟨calls, rfl⟩ : ∃ c, calls = c + 1 :=
      ⟨calls - 1, by omega⟩
    have hDepth : r.depth ≤ calls := by omega
    have hInner :=
      hParses.reads hLevel hDepth
        (hFollows (fun h => by cases h)) stack
    rw [show (Rendering.headed s r).words ++ rest =
        .symbol s :: (r.words ++ rest) from rfl,
      hStep, hInner]
    rfl

theorem Parses.throwExpr
    {r : Rendering}
    {node : Node}
    (hParses : Parses r node)
    (hLevel : getPrecedence .THROW ≤ r.level) :
    Parses (.headed .kwThrow r) (.throwNode node) := by
  apply hParses.headed hLevel rfl (by decide)
  intro calls stack words
  rw [parse_unaryExpression]
  rfl

theorem Parses.coproc
    {r : Rendering}
    {node : Node}
    (hParses : Parses r node)
    (hLevel : getPrecedence .COPROC ≤ r.level) :
    Parses (.headed .kwCoproc r) (.coproc node) := by
  apply hParses.headed hLevel rfl (by decide)
  intro calls stack words
  rw [parse_unaryExpression]
  rfl

/- No assignment is left in front of the words. -/
theorem takeEnvs_words
    (envs : List (Name × Name))
    {w : Word}
    (hWord : w.kind .STMT ≠ .ENV_ASSIGN)
    (words : List Word) :
    takeEnvs
        (envs.map (fun env => .env env.1 env.2) ++ w :: words) =
      (envs, w :: words) := by
  induction envs with
  | nil =>
      cases w with
      | env name value => exact absurd rfl hWord
      | symbol s => rfl
      | number value => rfl
      | applied name => rfl
      | name name => rfl
      | file name => rfl
  | cons env envs ih =>
      rw [List.map_cons, List.cons_append, takeEnvs, ih]

theorem Parses.prefixAssign
    {r : Rendering}
    {node : Node}
    (hParses : Parses r node)
    (hLevel : getPrecedence .WITH ≤ r.level)
    (env : Name × Name)
    (envs : List (Name × Name)) :
    Parses (.prefixAssign (env :: envs) r)
      (.prefixAssign (env :: envs) node) := by
  rcases hParses.starts with ⟨w, words, hWords, hLook, hEnv⟩
  apply Parses.of_unary
  · exact Nat.le_add_left 1 _
  · exact Nat.le_add_left 1 _
  · refine ⟨.env env.1 env.2, _, rfl, rfl, ?_⟩
    intro hWith
    exact absurd hWith (Nat.not_succ_le_self 8)
  · intro hUnary
    cases hUnary
  · intro calls stack rest hCalls hFollows
    simp only [Rendering.prefixAssign] at hCalls
    obtain ⟨calls, rfl⟩ : ∃ c, calls = c + 4 :=
      ⟨calls - 4, by omega⟩
    have hDepth : r.depth ≤ calls := by omega
    have hInner :=
      hParses.reads hLevel hDepth
        (hFollows (fun h => by cases h)) stack
    have hTake :
        takeEnvs
            ((env :: envs).map (fun env => .env env.1 env.2) ++
              (r.words ++ rest)) =
          (env :: envs, r.words ++ rest) := by
      rw [hWords]
      exact takeEnvs_words (env :: envs) (hEnv hLevel)
        (words ++ rest)
    have hPeek :
        Stream.peek ⟨.STMT, stack, r.words ++ rest⟩ =
          w.kind .STMT := by
      rw [hWords]
      rfl
    have hWhole :
        parse_prefixAssign (calls + 1)
            ⟨.STMT, stack,
              (env :: envs).map (fun env => .env env.1 env.2) ++
                (r.words ++ rest)⟩ =
          some (.prefixAssign (env :: envs) node,
            ⟨r.edge.mode, stack, rest⟩) := by
      rw [parse_prefixAssign, if_neg (by omega)]
      simp only [hTake, hPeek]
      rw [if_pos hLook, hInner]
      rfl
    simp only [Rendering.prefixAssign, List.append_assoc,
      List.map_cons, List.cons_append] at hWhole ⊢
    simp only [parse_unaryExpression, Stream.peek_cons,
      Word.kind, parse_suffixExpression,
      parse_primaryExpression, reduceIte]
    exact hWhole

----
-- Operators of the Loop
----

theorem isInfix_of_isBinary
    {kind : TokenKind}
    (hBinary : kind.isBinary = true) :
    (getOpInfo kind).isInfix = true := by
  unfold TokenKind.isBinary at hBinary
  rw [Bool.and_eq_true] at hBinary
  exact hBinary.1

theorem kind_of_isBinary
    {kind : TokenKind}
    (hBinary : kind.isBinary = true) :
    kind.word.kind .EXPR = kind := by
  cases kind <;> first | rfl | cases hBinary

theorem consume_binary
    {kind : TokenKind}
    (hBinary : kind.isBinary = true)
    {mode : LexerCond}
    {w : Word}
    (hKind : w.kind mode = kind)
    (stack : List LexerCond)
    (words : List Word) :
    Stream.consume ⟨mode, stack, w :: words⟩ =
      ⟨.STMT, stack, words⟩ := by
  rw [Stream.consume_cons, hKind]
  · cases kind <;> first | rfl | cases hBinary
  · rw [hKind]
    rintro rfl
    cases hBinary
  · rw [hKind]
    rintro rfl
    cases hBinary

theorem parse_operator_binary
    {s : Stream}
    (hBinary : s.peek.isBinary = true)
    (expression : Nat → Stream → Option (Node × Stream))
    (calls : Nat)
    (node : Node) :
    parse_operator expression calls node s =
      parse_binary expression node s := by
  unfold parse_operator
  cases hKind : s.peek <;>
    first
      | rfl
      | rw [hKind] at hBinary
        cases hBinary

theorem Parses.binary
    {left right : Rendering}
    {node node' : Node}
    (hLeft : Parses left node)
    (hRight : Parses right node')
    (op : BinaryOp)
    (hLevel : op.1.leftPrece ≤ left.level)
    (hAdmits : left.edge.admits op.1.word = true)
    (hLast : op.1.rightPrece ≤ right.level) :
    Parses (.binary left op right)
      (createBinaryNode node op.1 node') := by
  have hInfix := isInfix_of_isBinary op.2
  have hTernary : op.1 ≠ .TERNARY := by
    intro hEq
    have hBinary := op.2
    rw [hEq] at hBinary
    cases hBinary
  have hBelow : getPrecedence op.1 ≤ op.1.leftPrece :=
    Nat.le_add_right _ _
  have hKind := kind_of_isBinary op.2
  apply hLeft.extend rfl rfl (Nat.le_max_left _ _) hKind hInfix
    hAdmits (by omega)
    (prece_lt_lastPrece hInfix hTernary hLevel)
  intro calls stack rest hCalls hFollows
  have hMode : op.1.word.kind left.edge.mode = op.1 := by
    rw [Edge.kind_of_admits hAdmits, hKind]
  have hPeek :
      Stream.peek
          ⟨left.edge.mode, stack,
            op.1.word :: (right.words ++ rest)⟩ =
        op.1 :=
    hMode
  have hConsume :=
    consume_binary op.2 hMode stack (right.words ++ rest)
  have hDepth : right.depth ≤ calls := by
    simp only [Rendering.binary] at hCalls
    omega
  have hPrece :
      lastPrece (getPrecedence op.1) = op.1.rightPrece :=
    (rightPrece_eq_lastPrece op.2).symm
  simp only [Rendering.binary, hPrece] at hFollows
  have hRead := hRight.reads hLast hDepth hFollows stack
  refine ⟨true, ?_, Or.inl rfl⟩
  rw [parse_operator_binary (by rw [hPeek]; exact op.2)]
  unfold parse_binary
  rw [hPeek, hConsume]
  unfold TokenKind.rightPrece at hRead
  simp only [hRead]
  rfl

theorem Parses.ternary
    {cond thenExpr elseExpr : Rendering}
    {node node' node'' : Node}
    (hCond : Parses cond node)
    (hThen : Parses thenExpr node')
    (hElse : Parses elseExpr node'')
    (hLevel : getPrecedence .TERNARY + 1 ≤ cond.level)
    (hAdmits : cond.edge.admits (.symbol .question) = true)
    (hThenLevel : getPrecedence .TERNARY ≤ thenExpr.level)
    (hColon : thenExpr.edge.admits (.symbol .colon) = true)
    (hElseLevel : getPrecedence .TERNARY ≤ elseExpr.level) :
    Parses (.ternary cond thenExpr elseExpr)
      (.ternary node node' node'') := by
  have hBelow : getPrecedence .TERNARY < lastPrece cond.level :=
    Nat.lt_of_lt_of_le hLevel (le_lastPrece _)
  have hWords :
      (Rendering.ternary cond thenExpr elseExpr).words =
        cond.words ++ .symbol .question ::
          (thenExpr.words ++ .symbol .colon :: elseExpr.words) :=
    rfl
  apply hCond.extend hWords rfl (Nat.le_max_left _ _) rfl rfl
    hAdmits (by omega) hBelow
  intro calls stack rest hCalls hFollows
  have hPeek :
      Stream.peek
          ⟨cond.edge.mode, stack,
            .symbol .question ::
              ((thenExpr.words ++
                .symbol .colon :: elseExpr.words) ++ rest)⟩ =
        .TERNARY := by
    rw [Stream.peek_cons, Edge.kind_of_admits hAdmits]
    rfl
  have hConsume :
      Stream.consume
          ⟨cond.edge.mode, stack,
            .symbol .question ::
              ((thenExpr.words ++
                .symbol .colon :: elseExpr.words) ++ rest)⟩ =
        ⟨.STMT, stack,
          (thenExpr.words ++ .symbol .colon :: elseExpr.words) ++
            rest⟩ := by
    unfold Stream.consume
    rw [hPeek]
    rfl
  simp only [Rendering.ternary] at hCalls
  have hDepth : thenExpr.depth ≤ calls := by omega
  have hDepth' : elseExpr.depth ≤ calls := by omega
  have hAfter :
      Follows thenExpr.edge (getPrecedence .TERNARY)
        (.symbol .colon :: (elseExpr.words ++ rest)) :=
    Follows.cons hColon rfl _
  have hThenRead := hThen.reads hThenLevel hDepth hAfter stack
  have hElseRead := hElse.reads hElseLevel hDepth' hFollows stack
  have hExpect :
      expectColon
          ⟨thenExpr.edge.mode, stack,
            .symbol .colon :: (elseExpr.words ++ rest)⟩ =
        some ⟨.STMT, stack, elseExpr.words ++ rest⟩ := by
    have hPeek :
        Stream.peek
            ⟨thenExpr.edge.mode, stack,
              .symbol .colon :: (elseExpr.words ++ rest)⟩ =
          .COLON := by
      rw [Stream.peek_cons, Edge.kind_of_admits hColon]
      rfl
    unfold expectColon
    rw [if_pos hPeek]
    rfl
  refine ⟨true, ?_, Or.inl rfl⟩
  unfold parse_operator
  rw [hPeek]
  unfold parse_ternary
  rw [hConsume]
  simp only [List.append_assoc, List.cons_append, hThenRead,
    Option.bind_some, hExpect, hElseRead]
  rfl

/- `as` and `is` are operators only in front of an operand's
   end in the mode of expressions. -/
theorem consume_typeOpWord
    {edge : Edge}
    {isCast : Bool}
    (hAdmits :
      edge.admits (Rendering.typeOpWord isCast) = true)
    (stack : List LexerCond)
    (words : List Word) :
    Stream.consume
        ⟨edge.mode, stack,
          Rendering.typeOpWord isCast :: words⟩ =
      ⟨.EXPR, stack, words⟩ := by
  have hKind := Edge.kind_of_admits hAdmits
  cases edge with
  | plain => cases isCast <;> rfl
  | typed isBase => cases isCast <;> rfl
  | redirected => cases isCast <;> cases hKind
  | closed => cases isCast <;> cases hKind

theorem endsType_of_follows
    {type : TypeNode}
    {prece : Nat}
    {rest : List Word}
    (hFollows : Follows (.typed type.isBase) prece rest) :
    EndsType type rest := by
  cases rest with
  | nil =>
      constructor
      · intro hPeek
        cases hPeek
      · intro _ hPeek
        cases hPeek
  | cons w rest =>
      have hTakes :
          (Edge.typed type.isBase).takes (w.kind .TYPE) =
            false := by
        have hAdmits := (hFollows w rfl).1
        unfold Edge.admits at hAdmits
        simp only [Bool.and_eq_true, Bool.not_eq_true']
          at hAdmits
        exact hAdmits.2
      simp only [Edge.takes, Bool.or_eq_false_iff,
        beq_eq_false_iff_ne, Bool.and_eq_false_imp] at hTakes
      exact ⟨hTakes.1, hTakes.2⟩

theorem Parses.typeOp
    {left : Rendering}
    {node : Node}
    (hLeft : Parses left node)
    (type : TypeTree)
    (isCast : Bool)
    (hLevel : TokenKind.leftPrece .AS ≤ left.level)
    (hAdmits :
      left.edge.admits (Rendering.typeOpWord isCast) = true) :
    Parses (.typeOp left type isCast)
      (.typeOp node type.1 isCast) := by
  have hKind :
      (Rendering.typeOpWord isCast).kind .EXPR =
        if isCast then .AS else .IS := by
    cases isCast <;> rfl
  have hLast : getPrecedence .AS < lastPrece left.level :=
    prece_lt_lastPrece rfl (fun h => by cases h) hLevel
  have hPrece :
      getPrecedence (if isCast then .AS else .IS) =
        getPrecedence .AS := by
    cases isCast <;> rfl
  apply hLeft.extend rfl (by rw [hPrece]; rfl)
    (Nat.le_max_left _ _) hKind (by cases isCast <;> rfl)
    hAdmits (by rw [hPrece]; exact hLevel)
    (by rw [hPrece]; exact hLast)
  intro calls stack rest hCalls hFollows
  have hPeek :
      Stream.peek
          ⟨left.edge.mode, stack,
            Rendering.typeOpWord isCast ::
              (type.1.words ++ rest)⟩ =
        if isCast then .AS else .IS := by
    rw [Stream.peek_cons, Edge.kind_of_admits hAdmits, hKind]
  have hDepth : type.1.depth ≤ calls := by
    simp only [Rendering.typeOp] at hCalls
    omega
  have hRead :=
    parse_typeName_words type hDepth (endsType_of_follows hFollows)
  have hBody :
      parse_typeOp calls node
          ⟨left.edge.mode, stack,
            Rendering.typeOpWord isCast ::
              (type.1.words ++ rest)⟩ =
        some (true, .typeOp node type.1 isCast,
          ⟨.EXPR, stack, rest⟩) := by
    unfold parse_typeOp
    rw [consume_typeOpWord hAdmits, hRead, hPeek]
    cases isCast <;> rfl
  refine ⟨true, ?_, Or.inl rfl⟩
  unfold parse_operator
  rw [hPeek]
  cases isCast with
  | true => exact hBody
  | false => exact hBody

theorem endsRedirs_of_follows
    {prece : Nat}
    {rest : List Word}
    (hFollows : Follows .redirected prece rest) :
    EndsRedirs rest := by
  cases rest with
  | nil => exact ⟨rfl, fun h => by cases h⟩
  | cons w rest =>
      have hKind := Edge.kind_of_admits (hFollows w rfl).1
      unfold EndsRedirs
      rw [Stream.peek_cons]
      cases w with
      | symbol s =>
          cases s <;>
            first
              | exact ⟨rfl, fun h => by cases h⟩
              | cases hKind
      | number value => cases hKind
      | applied name => cases hKind
      | name name => cases hKind
      | file name => cases hKind
      | env name value => cases hKind

theorem depth_le_of_mem
    {redirs : List Redir}
    {redir : Redir}
    (hMem : redir ∈ redirs)
    (depth : Nat) :
    redir.depth ≤ (redirs.map Redir.depth).foldr max depth := by
  induction redirs with
  | nil => cases hMem
  | cons first redirs ih =>
      rw [List.map_cons, List.foldr_cons]
      rcases List.mem_cons.mp hMem with rfl | hMore
      · exact Nat.le_max_left _ _
      · exact Nat.le_trans (ih hMore) (Nat.le_max_right _ _)

theorem le_foldr_depth
    (redirs : List Redir)
    (depth : Nat) :
    depth ≤ (redirs.map Redir.depth).foldr max depth := by
  induction redirs with
  | nil => exact Nat.le_refl _
  | cons first redirs ih =>
      exact Nat.le_trans ih (Nat.le_max_right _ _)

theorem length_le_redirWords
    (redirs : List Redir) :
    redirs.length ≤ (redirs.flatMap Redir.words).length := by
  induction redirs with
  | nil => exact Nat.le_refl _
  | cons redir redirs ih =>
      have hWords : 1 ≤ (Redir.words redir).length :=
        Nat.le_add_left 1 _
      simp only [List.flatMap_cons, List.length_cons,
        List.length_append]
      omega

theorem Parses.redirected
    {left : Rendering}
    {node : Node}
    (hLeft : Parses left node)
    (redir : Redir)
    (redirs : List Redir)
    (hLevel : TokenKind.leftPrece .WITH ≤ left.level)
    (hAdmits : left.edge.admits (.symbol .kwWith) = true) :
    Parses (.redirected left (redir :: redirs))
      (.redirected node (redir.1 :: redirs.map Subtype.val)) := by
  have hLast : getPrecedence .WITH < lastPrece left.level :=
    prece_lt_lastPrece rfl (fun h => by cases h) hLevel
  apply hLeft.extend rfl rfl (le_foldr_depth _ _) rfl rfl
    hAdmits hLevel hLast
  intro calls stack rest hCalls hFollows
  have hPeek :
      Stream.peek
          ⟨left.edge.mode, stack,
            .symbol .kwWith ::
              ((redir :: redirs).flatMap Redir.words ++ rest)⟩ =
        .WITH := by
    rw [Stream.peek_cons, Edge.kind_of_admits hAdmits]
    rfl
  have hConsume :
      Stream.consume
          ⟨left.edge.mode, stack,
            .symbol .kwWith ::
              ((redir :: redirs).flatMap Redir.words ++ rest)⟩ =
        ⟨.CMD, stack,
          (redir :: redirs).flatMap Redir.words ++ rest⟩ := by
    unfold Stream.consume
    rw [hPeek]
    rfl
  have hDepth :
      ∀ r ∈ redir :: redirs, Redir.depth r ≤ calls + 1 := by
    intro r hMem
    exact Nat.le_trans (depth_le_of_mem hMem left.depth) hCalls
  have hFirst :=
    parse_redirOption_words redir
      (hDepth redir List.mem_cons_self) stack
      (redirs.flatMap Redir.words ++ rest)
  have hLength := length_le_redirWords redirs
  have hRounds :
      redirs.length <
        (Word.symbol .kwWith ::
          ((redir :: redirs).flatMap Redir.words ++
            rest)).length + 1 := by
    simp only [List.length_cons, List.length_append,
      List.flatMap_cons]
    omega
  have hMore :=
    parse_redirs_words redirs
      (fun r hMem => hDepth r (List.mem_cons_of_mem _ hMem))
      stack (endsRedirs_of_follows hFollows) hRounds
  refine ⟨true, ?_, Or.inl rfl⟩
  unfold parse_operator
  rw [hPeek]
  unfold parse_with
  simp only [hConsume]
  rw [List.flatMap_cons, List.append_assoc, hFirst,
    Option.bind_some]
  rw [List.flatMap_cons, List.append_assoc] at hMore
  rw [hMore]
  rfl

theorem Parses.background
    {left : Rendering}
    {node : Node}
    (hLeft : Parses left node)
    (disown : Bool)
    (hLevel : TokenKind.leftPrece .BACKGROUND ≤ left.level)
    (hAdmits :
      left.edge.admits (Rendering.backgroundWord disown) =
        true) :
    Parses (.background left disown)
      (.background node disown) := by
  have hKind :
      (Rendering.backgroundWord disown).kind .EXPR =
        if disown then .DISOWN_BG else .BACKGROUND := by
    cases disown <;> rfl
  have hLast : getPrecedence .BACKGROUND < lastPrece left.level :=
    prece_lt_lastPrece rfl (fun h => by cases h) hLevel
  have hPrece :
      getPrecedence (if disown then .DISOWN_BG else .BACKGROUND) =
        getPrecedence .BACKGROUND := by
    cases disown <;> rfl
  have hDepth :
      left.depth ≤ (Rendering.background left disown).depth :=
    Nat.le_refl _
  apply hLeft.extend rfl (by rw [hPrece]; rfl)
    hDepth hKind (by cases disown <;> rfl)
    hAdmits (by rw [hPrece]; exact hLevel)
    (by rw [hPrece]; exact hLast)
  intro calls stack rest _ _
  have hPeek :
      Stream.peek
          ⟨left.edge.mode, stack,
            Rendering.backgroundWord disown :: ([] ++ rest)⟩ =
        if disown then .DISOWN_BG else .BACKGROUND := by
    rw [Stream.peek_cons, Edge.kind_of_admits hAdmits, hKind]
  refine ⟨false, ?_, Or.inr rfl⟩
  unfold parse_operator Stream.consume
  rw [hPeek]
  cases disown with
  | true => rfl
  | false => rfl

end Parser

end Ydsh
