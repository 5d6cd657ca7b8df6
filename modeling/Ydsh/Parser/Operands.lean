import Ydsh.Parser.Rendering

/-
  The operands that are no expressions: types and
  redirections.

  Main declarations:
    * `parse_typeName_words`
    * `parse_redirs_words`
-/

----
-- Types
----

namespace Ydsh

namespace Parser

/- What may stand after the text of a type. -/
structure EndsType
    (type : TypeNode)
    (rest : List Word) : Prop where
  noOpt : typePeek rest ≠ .TYPE_OPT
  noOpen : type.isBase = true → typePeek rest ≠ .TYPE_OPEN

theorem typePeek_symbol
    (s : Symbol)
    (rest : List Word) :
    typePeek (.symbol s :: rest) = s.typeKind := rfl

theorem parse_typeOpts_of_noOpt
    (type : TypeNode)
    {rest : List Word}
    (hRest : typePeek rest ≠ .TYPE_OPT) :
    parse_typeOpts type rest = (type, rest) := by
  cases rest with
  | nil => rfl
  | cons w rest =>
      rw [parse_typeOpts, if_neg]
      exact hRest

theorem length_le_typesWords
    (types : List TypeNode)
    (hTypes : ∀ type ∈ types, 1 ≤ type.words.length) :
    types.length ≤ (typesWords types).length := by
  induction types with
  | nil => exact Nat.zero_le _
  | cons type types ih =>
      have hType := hTypes type List.mem_cons_self
      have hMore :=
        ih (fun t hMem => hTypes t (List.mem_cons_of_mem _ hMem))
      cases types with
      | nil => simpa [typesWords] using hType
      | cons second types =>
          simp only [typesWords, List.length_cons,
            List.length_append] at hMore ⊢
          omega

theorem one_le_words_length
    (type : TypeNode) :
    1 ≤ type.words.length := by
  cases type with
  | base name => simp [TypeNode.words]
  | reified name types => simp [TypeNode.words]
  | option type => simp [TypeNode.words]

mutual

/- The optional types are made after the type under them. -/
theorem parse_typeName_opts :
    (type : TypeNode) →
    type.proper = true →
    (calls : Nat) →
    type.depth ≤ calls →
    (rest : List Word) →
    (type.isBase = true → typePeek rest ≠ .TYPE_OPEN) →
    parse_typeName calls (type.words ++ rest) =
      some (parse_typeOpts type rest)
  | .base name, _, calls, hCalls, rest, hOpen => by
      have hRest := hOpen rfl
      rw [TypeNode.depth] at hCalls
      obtain ⟨calls, rfl⟩ := Nat.exists_eq_add_of_le' hCalls
      simp only [TypeNode.words, List.cons_append,
        List.nil_append, parse_typeName,
        parse_basicOrReifiedType]
      rw [if_neg hRest]
      rfl
  | .reified name types, hProper, calls, hCalls, rest, _ => by
      rw [TypeNode.depth] at hCalls
      obtain ⟨calls, rfl⟩ : ∃ c, calls = c + 2 :=
        ⟨calls - 2, by omega⟩
      simp only [TypeNode.proper, Bool.and_eq_true,
        Bool.not_eq_true', List.isEmpty_eq_false_iff]
        at hProper
      have hTypes :=
        parse_types_words types hProper.1 hProper.2 calls
          (by omega) (.symbol .gt :: rest) rfl
          ((Word.symbol .lt ::
            (typesWords types ++ [Word.symbol .gt])) ++ rest).length
          (by
            have := length_le_typesWords types
              (fun type _ => one_le_words_length type)
            simp only [List.length_append, List.length_cons]
            omega)
      simp only [TypeNode.words, List.cons_append,
        parse_typeName, parse_basicOrReifiedType]
      simp only [typePeek_symbol, Symbol.typeKind, reduceIte,
        List.cons_append, List.append_assoc, List.nil_append,
        List.tail_cons] at hTypes ⊢
      rw [hTypes]
      rfl
  | .option type, hProper, calls, hCalls, rest, _ => by
      have hType :=
        parse_typeName_opts type hProper calls hCalls
          (.symbol .bang :: rest) (fun _ h => by cases h)
      rw [TypeNode.words, List.append_assoc]
      exact hType

theorem parse_types_words :
    (types : List TypeNode) →
    types ≠ [] →
    properTypes types = true →
    (calls : Nat) →
    typesDepth types ≤ calls →
    (rest : List Word) →
    typePeek rest = .TYPE_CLOSE →
    (rounds : Nat) →
    types.length ≤ rounds →
    parse_types (parse_typeName calls) rounds
        (typesWords types ++ rest) =
      some (types, rest)
  | [], hNil, _, _, _, _, _, _, _ => absurd rfl hNil
  | [type], _, hProper, calls, hCalls, rest, hRest, rounds,
      hRounds => by
      obtain ⟨rounds, rfl⟩ := Nat.exists_eq_add_of_le' hRounds
      simp only [properTypes, Bool.and_true] at hProper
      simp only [typesDepth, Nat.max_zero] at hCalls
      have hType :=
        parse_typeName_opts type hProper calls hCalls rest
          (fun _ => by rw [hRest]; decide)
      rw [parse_typeOpts_of_noOpt type
        (by rw [hRest]; decide)] at hType
      simp only [List.length_singleton, typesWords, parse_types,
        hType, Option.bind_some, hRest]
      rfl
  | type :: second :: types, _, hProper, calls, hCalls, rest,
      hRest, rounds, hRounds => by
      rw [List.length_cons] at hRounds
      obtain ⟨rounds, rfl⟩ : ∃ n, rounds = n + 1 :=
        ⟨rounds - 1, by omega⟩
      rw [properTypes, Bool.and_eq_true] at hProper
      rw [typesDepth] at hCalls
      have hType :=
        parse_typeName_opts type hProper.1 calls (by omega)
          (.symbol .comma :: (typesWords (second :: types) ++ rest))
          (fun _ h => by cases h)
      rw [parse_typeOpts_of_noOpt type (fun h => by cases h)]
        at hType
      have hMore :=
        parse_types_words (second :: types) (List.cons_ne_nil _ _)
          hProper.2 calls (by omega) rest hRest rounds
          (by omega)
      rw [typesWords]
      · simp only [List.append_assoc, List.cons_append,
          parse_types, hType, Option.bind_some, typePeek_symbol,
          Symbol.typeKind, reduceIte, List.tail_cons]
        rw [hMore]
        rfl
      · exact fun h => List.cons_ne_nil _ _ h

end

theorem parse_typeName_words
    (type : TypeTree)
    {calls : Nat}
    (hCalls : type.1.depth ≤ calls)
    {rest : List Word}
    (hRest : EndsType type.1 rest) :
    parse_typeName calls (type.1.words ++ rest) =
      some (type.1, rest) := by
  rw [parse_typeName_opts type.1 type.2 calls hCalls rest
      hRest.noOpen,
    parse_typeOpts_of_noOpt type.1 hRest.noOpt]

----
-- Redirections
----

theorem isRedir_of_proper
    {redir : RedirNode}
    (hProper : redir.proper = true) :
    isRedir redir.op = true := by
  unfold RedirNode.proper at hProper
  unfold isRedir
  simp only [Bool.or_eq_true, Bool.and_eq_true] at hProper ⊢
  rcases hProper with ⟨hFile, _⟩ | ⟨hNoFile, _⟩
  · exact Or.inl hFile
  · exact Or.inr hNoFile

theorem kind_of_isRedir
    {kind : TokenKind}
    (hRedir : isRedir kind = true) :
    kind.word.kind .CMD = kind := by
  cases kind <;> first | rfl | cases hRedir

theorem nextMode_of_isRedir
    {kind : TokenKind}
    (hRedir : isRedir kind = true) :
    nextMode .CMD kind = .CMD := by
  cases kind <;> first | rfl | cases hRedir

theorem consume_redir
    {kind : TokenKind}
    (hRedir : isRedir kind = true)
    (stack : List LexerCond)
    (rest : List Word) :
    Stream.consume ⟨.CMD, stack, kind.word :: rest⟩ =
      ⟨.CMD, stack, rest⟩ := by
  rw [Stream.consume_cons, kind_of_isRedir hRedir,
    nextMode_of_isRedir hRedir]
  · rw [kind_of_isRedir hRedir]
    rintro rfl
    cases hRedir
  · rw [kind_of_isRedir hRedir]
    rintro rfl
    cases hRedir

theorem parse_cmdArg_file
    (calls : Nat)
    (stack : List LexerCond)
    (target : Name)
    (rest : List Word) :
    parse_cmdArg (calls + 3) ⟨.CMD, stack, .file target :: rest⟩ =
      some (target, ⟨.CMD, stack, rest⟩) := rfl

theorem parse_redirOption_words
    (redir : Redir)
    {calls : Nat}
    (hCalls : redir.depth ≤ calls + 1)
    (stack : List LexerCond)
    (rest : List Word) :
    parse_redirOption calls ⟨.CMD, stack, redir.words ++ rest⟩ =
      some (redir.1, ⟨.CMD, stack, rest⟩) := by
  rcases redir with ⟨⟨op, target⟩, hProper⟩
  have hRedir := isRedir_of_proper hProper
  unfold Redir.depth at hCalls
  unfold RedirNode.proper at hProper
  unfold Redir.words
  simp only [Bool.or_eq_true, Bool.and_eq_true] at hProper
  cases target with
  | none =>
      have hNoFile : isRedirNoFile op = true := by
        simpa using hProper
      have hFile : ¬ isRedirFile op = true := by
        cases op <;> first | decide | cases hNoFile
      obtain ⟨calls, rfl⟩ : ∃ c, calls = c + 1 :=
        ⟨calls - 1, by simp at hCalls; omega⟩
      simp only [Option.toList_none, List.map_nil,
        List.cons_append, List.nil_append, parse_redirOption,
        Stream.peek_cons, kind_of_isRedir hRedir,
        consume_redir hRedir]
      rw [if_neg hFile, if_pos hNoFile]
  | some target =>
      have hFile : isRedirFile op = true := by
        simpa using hProper
      obtain ⟨calls, rfl⟩ : ∃ c, calls = c + 4 :=
        ⟨calls - 4, by simp at hCalls; omega⟩
      simp only [Option.toList_some, List.map_cons, List.map_nil,
        List.cons_append, List.nil_append, parse_redirOption,
        Stream.peek_cons, kind_of_isRedir hRedir,
        consume_redir hRedir]
      rw [if_pos hFile, parse_cmdArg_file]
      rfl

/- What may stand after redirections. -/
def EndsRedirs (rest : List Word) : Prop :=
  isRedir (Stream.peek ⟨.CMD, [], rest⟩) = false ∧
    Stream.peek ⟨.CMD, [], rest⟩ ≠ .INVALID

theorem parse_redirs_words
    (redirs : List Redir)
    {calls : Nat}
    (hCalls : ∀ redir ∈ redirs, Redir.depth redir ≤ calls + 1)
    (stack : List LexerCond)
    {rest : List Word}
    (hRest : EndsRedirs rest)
    {rounds : Nat}
    (hRounds : redirs.length < rounds) :
    parse_redirs calls rounds
        ⟨.CMD, stack, redirs.flatMap Redir.words ++ rest⟩ =
      some (redirs.map Subtype.val, ⟨.CMD, stack, rest⟩) := by
  induction redirs generalizing rounds with
  | nil =>
      obtain ⟨rounds, rfl⟩ := Nat.exists_eq_add_of_le' hRounds
      have hPeek :
          Stream.peek ⟨.CMD, stack, rest⟩ =
            Stream.peek ⟨.CMD, [], rest⟩ := rfl
      simp only [List.flatMap_nil, List.nil_append, parse_redirs,
        hPeek]
      rw [if_neg (by rw [hRest.1]; decide), if_neg hRest.2]
      rfl
  | cons redir redirs ih =>
      rw [List.length_cons] at hRounds
      obtain ⟨rounds, rfl⟩ : ∃ n, rounds = n + 1 :=
        ⟨rounds - 1, by omega⟩
      have hLength : redirs.length < rounds := by omega
      have hRedir := isRedir_of_proper redir.2
      have hMore :=
        ih (fun r hMem => hCalls r (List.mem_cons_of_mem _ hMem))
          hLength
      have hPeek :
          Stream.peek
              ⟨.CMD, stack,
                redir.words ++
                  (redirs.flatMap Redir.words ++ rest)⟩ =
            redir.1.op :=
        kind_of_isRedir hRedir
      rw [List.flatMap_cons, List.append_assoc, parse_redirs,
        hPeek, if_pos hRedir,
        parse_redirOption_words redir
          (hCalls redir List.mem_cons_self),
        Option.bind_some, hMore]
      rfl

end Parser

end Ydsh
