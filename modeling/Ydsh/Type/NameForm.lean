import Ydsh.Library.Nesting

/-
  How names of types are spelled.

  The name of a type is put together from the names of the
  types it is made of.  The parts can be found again in the
  name, so a name has one reading.

  Main declarations:
    * `NameForm`
    * `Spells`
    * `NameForm.readName`
    * `Spells.read_eq`
-/

----
-- Marks of Characters
----

namespace Ydsh

namespace Pool

open Library.Nesting

def mark (c : Char) : Mark :=
  if c = '(' ∨ c = '[' then
    .opening
  else if c = ')' ∨ c = ']' then
    .closing
  else if c = ',' ∨ c = ':' then
    .separator
  else
    .plain

abbrev COMMA : List Char := [',', ' ']
abbrev ARROW : List Char := [' ', '-', '>', ' ']

/- A name that is not put together. -/
structure IsAtom (name : List Char) : Prop where
  ne_nil : name ≠ []
  plain : ∀ c ∈ name, mark c = .plain ∧ c ≠ '!'

theorem isAtom_iff
    {name : List Char} :
    (name ≠ [] ∧
        name.all (fun c => mark c = .plain ∧ c ≠ '!') = true) ↔
      IsAtom name := by
  rw [List.all_eq_true]
  constructor
  · rintro ⟨hNe, hAll⟩
    exact ⟨hNe, fun c hMem => of_decide_eq_true (hAll c hMem)⟩
  · rintro ⟨hNe, hPlain⟩
    exact ⟨hNe, fun c hMem => decide_eq_true (hPlain c hMem)⟩

instance (name : List Char) : Decidable (IsAtom name) :=
  decidable_of_iff _ isAtom_iff

theorem IsAtom.closed
    {name : List Char}
    (hAtom : IsAtom name) :
    Closed mark name :=
  .all_plain (fun c hMem => (hAtom.plain c hMem).1)

/- The constructor of a type and the names it is applied to. -/
inductive NameForm where
  | atom (name : List Char)
  | array (element : List Char)
  | map (key value : List Char)
  | tuple (elements : List (List Char))
  | option (element : List Char)
  | function (ret : List Char) (params : List (List Char))
  deriving DecidableEq, Repr

/- A name that may be part of another one. -/
structure IsName (name : List Char) : Prop where
  closed : Closed mark name
  ne_nil : name ≠ []

/- An option type is not put into another option type. -/
inductive Spells : NameForm → List Char → Prop where
  | atom {name : List Char} :
      IsAtom name →
      Spells (.atom name) name
  | array {element : List Char} :
      IsName element →
      Spells (.array element) ('[' :: (element ++ [']']))
  | map {key value : List Char} :
      IsName key →
      IsName value →
      Spells (.map key value)
        ('[' :: (key ++ ' ' :: ':' :: ' ' :: (value ++ [']'])))
  | single {element : List Char} :
      IsName element →
      Spells (.tuple [element]) ('(' :: (element ++ [',', ')']))
  | tuple {elements : List (List Char)} :
      2 ≤ elements.length →
      (∀ element ∈ elements, IsName element) →
      Spells (.tuple elements)
        ('(' :: (COMMA.intercalate elements ++ [')']))
  | function {ret : List Char} {params : List (List Char)} :
      IsName ret →
      (∀ param ∈ params, IsName param) →
      Spells (.function ret params)
        ('(' :: (COMMA.intercalate params ++
          ')' :: (ARROW ++ ret)))
  | option {form : NameForm} {element : List Char} :
      Spells form element →
      (∀ inner, form ≠ .option inner) →
      (∀ ret params, form ≠ .function ret params) →
      Spells (.option element) (element ++ ['!'])
  | optionFunc
      {ret : List Char} {params : List (List Char)}
      {element : List Char} :
      Spells (.function ret params) element →
      Spells (.option element) ('(' :: (element ++ [')', '!']))

----
-- Names Are Closed
----

theorem closed_bang : Closed mark ['!'] :=
  .plain (by decide)

theorem closed_space : Closed mark [' '] :=
  .plain (by decide)

theorem closed_arrow : Closed mark ARROW := by
  apply Closed.all_plain
  intro c hMem
  have hAll :
      ARROW.all (fun c => mark c = .plain) = true := by
    decide
  exact of_decide_eq_true (List.all_eq_true.mp hAll c hMem)

theorem inner_comma : Inner mark COMMA :=
  (Inner.separator (show mark ',' = .separator by decide)).append
    closed_space.inner

theorem closed_parens
    {word : List Char}
    (hInner : Inner mark word) :
    Closed mark ('(' :: (word ++ [')'])) :=
  .bracket (by decide) (by decide) hInner

theorem closed_squares
    {word : List Char}
    (hInner : Inner mark word) :
    Closed mark ('[' :: (word ++ [']'])) :=
  .bracket (by decide) (by decide) hInner

namespace Spells

variable {form form' : NameForm}
variable {name : List Char}

theorem closed (hSpells : Spells form name) :
    Closed mark name := by
  induction hSpells with
  | atom hAtom => exact hAtom.closed
  | array hElement => exact closed_squares hElement.closed.inner
  | @map key value hKey hValue =>
      have hColon : Inner mark [' ', ':', ' '] :=
        (closed_space.inner.append
          (.separator (show mark ':' = .separator by decide))).append
          closed_space.inner
      have hInner :=
        (hKey.closed.inner.append hColon).append
          hValue.closed.inner
      have hAll := closed_squares hInner
      simp only [List.append_assoc] at hAll
      exact hAll
  | @single element hElement =>
      have hInner : Inner mark (element ++ [',']) :=
        hElement.closed.inner.append
          (.separator (show mark ',' = .separator by decide))
      have hAll := closed_parens hInner
      rw [List.append_assoc] at hAll
      exact hAll
  | tuple _ hElements =>
      apply closed_parens
      apply Inner.intercalate inner_comma
      intro element hMem
      exact (hElements element hMem).closed
  | @function ret params hRet hParams =>
      have hInner : Inner mark (COMMA.intercalate params) := by
        apply Inner.intercalate inner_comma
        intro param hMem
        exact (hParams param hMem).closed
      have hAll :=
        (closed_parens hInner).append
          (closed_arrow.append hRet.closed)
      rw [List.cons_append, List.append_assoc] at hAll
      exact hAll
  | option _ _ _ ih => exact ih.append closed_bang
  | @optionFunc _ _ element _ ih =>
      have hAll := (closed_parens ih.inner).append closed_bang
      rw [List.cons_append, List.append_assoc] at hAll
      exact hAll

theorem ne_nil (hSpells : Spells form name) : name ≠ [] := by
  cases hSpells with
  | atom hAtom => exact hAtom.ne_nil
  | option hElement _ _ =>
      intro hNil
      simp at hNil
  | _ => exact List.cons_ne_nil _ _

theorem isName (hSpells : Spells form name) : IsName name :=
  ⟨hSpells.closed, hSpells.ne_nil⟩

end Spells

namespace NameForm

/- A name in parentheses, cut into `words` and `rest`. -/
def readParens
    (name : List Char)
    (words : List (List Char))
    (rest : List Char) : NameForm :=
  if rest = [')'] ∨ rest = [',', ')'] then
    .tuple words
  else if (')' :: ARROW).isPrefixOf rest then
    .function (rest.drop 5) (if words = [[]] then [] else words)
  else if rest = [')', '!'] ∧ words.length = 1 then
    .option (words.headD [])
  else
    .option name.dropLast

/- A name in brackets, cut at `:`. -/
def readMap
    (name key : List Char)
    (parts : List Char × List Char) : NameForm :=
  if parts.2 = [']'] then
    .map key.dropLast parts.1
  else
    .option name.dropLast

def readSquares
    (name word rest : List Char) : NameForm :=
  if rest = [']'] then
    .array word
  else if [':', ' '].isPrefixOf rest then
    readMap name word (cut mark 0 (rest.drop 2))
  else
    .option name.dropLast

def readName (name : List Char) : NameForm :=
  match name with
  | '(' :: rest =>
      let parts := cutAll mark COMMA rest.length rest
      readParens name parts.1 parts.2
  | '[' :: rest =>
      let parts := cut mark 0 rest
      readSquares name parts.1 parts.2
  | name =>
      if name.getLast? = some '!' then
        .option name.dropLast
      else
        .atom name

/- The equations that proofs unfold. -/
attribute [local simp] readParens readMap readSquares readName

end NameForm

----
-- Each Name Has One Form
----

open NameForm

theorem length_le_intercalate
    {words : List (List Char)}
    (hWords : ∀ word ∈ words, IsName word) :
    words.length ≤ (COMMA.intercalate words).length := by
  induction words with
  | nil => exact Nat.zero_le _
  | cons word words ih =>
      have hPos :=
        List.length_pos_iff.mpr
          (hWords word List.mem_cons_self).ne_nil
      have hRest :=
        ih (fun found hMem =>
          hWords found (List.mem_cons_of_mem _ hMem))
      cases words with
      | nil =>
          rw [List.intercalate_singleton, List.length_singleton]
          exact hPos
      | cons next words =>
          rw [List.intercalate_cons_cons, List.length_append,
            List.length_append, List.length_cons]
          omega

/- The names in parentheses up to a character that ends them. -/
theorem cutAll_names
    {words : List (List Char)}
    {c : Char}
    (rest : List Char)
    (hNe : words ≠ [])
    (hWords : ∀ word ∈ words, IsName word)
    (hStops : Stops mark c)
    (hRest : ¬COMMA.isPrefixOf (c :: rest)) :
    cutAll mark COMMA
        (COMMA.intercalate words ++ c :: rest).length
        (COMMA.intercalate words ++ c :: rest) =
      (words, c :: rest) := by
  apply cutAll_intercalate _ (by decide) hStops hRest hNe
  · intro word hMem
    exact (hWords word hMem).closed
  · rw [List.length_append]
    exact
      Nat.le_trans (length_le_intercalate hWords)
        (Nat.le_add_right _ _)

/- Parentheses without names. -/
theorem cutAll_none
    (rest : List Char) :
    cutAll mark COMMA (')' :: rest).length (')' :: rest) =
      ([[]], ')' :: rest) := by
  have hCut : cut mark 0 (')' :: rest) = ([], ')' :: rest) :=
    rfl
  rw [List.length_cons, cutAll]
  simp only [hCut]
  rw [if_neg]
  simp

theorem stops_close : Stops mark ')' :=
  .inl (by decide)

theorem stops_comma : Stops mark ',' :=
  .inr (by decide)

namespace Spells

theorem read_array
    {element : List Char}
    (hElement : IsName element) :
    readName ('[' :: (element ++ [']'])) = .array element := by
  have hCut :=
    cut_of_closed hElement.closed
      (show Stops mark ']' from .inl (by decide)) []
  simp only [NameForm.readName, hCut, readSquares, if_true]

/- The key of a map, with the space that follows it. -/
theorem cut_key
    {key : List Char}
    (hKey : IsName key)
    (rest : List Char) :
    cut mark 0 (key ++ ' ' :: ':' :: rest) =
      (key ++ [' '], ':' :: rest) := by
  have hCut :=
    cut_of_closed (hKey.closed.append closed_space)
      (show Stops mark ':' from .inr (by decide)) rest
  rw [List.append_assoc] at hCut
  exact hCut

theorem read_map
    {key value : List Char}
    (hKey : IsName key)
    (hValue : IsName value) :
    readName
        ('[' :: (key ++ ' ' :: ':' :: ' ' :: (value ++ [']']))) =
      .map key value := by
  have hCut := cut_key hKey (' ' :: (value ++ [']']))
  have hCut' :=
    cut_of_closed hValue.closed
      (show Stops mark ']' from .inl (by decide)) []
  simp [NameForm.readName, hCut, readSquares, hCut', readMap]

theorem read_single
    {element : List Char}
    (hElement : IsName element) :
    readName ('(' :: (element ++ [',', ')'])) =
      .tuple [element] := by
  have hCut :=
    cutAll_names [')'] (List.cons_ne_nil element [])
      (by simpa using hElement) stops_comma (by decide)
  rw [List.intercalate_singleton] at hCut
  simp only [NameForm.readName, hCut, readParens, or_true, if_true]

theorem read_tuple
    {elements : List (List Char)}
    (hTwo : 2 ≤ elements.length)
    (hElements : ∀ element ∈ elements, IsName element) :
    readName ('(' :: (COMMA.intercalate elements ++ [')'])) =
      .tuple elements := by
  have hNe : elements ≠ [] := by
    intro hNil
    rw [hNil] at hTwo
    simp at hTwo
  have hCut :=
    cutAll_names [] hNe hElements stops_close
      (show ¬COMMA.isPrefixOf [')'] by decide)
  simp only [NameForm.readName, hCut, readParens, true_or, if_true]

theorem read_function
    {ret : List Char}
    {params : List (List Char)}
    (hParams : ∀ param ∈ params, IsName param) :
    readName
        ('(' :: (COMMA.intercalate params ++
          ')' :: (ARROW ++ ret))) =
      .function ret params := by
  have hWords :
      cutAll mark COMMA
          (COMMA.intercalate params ++
            ')' :: (ARROW ++ ret)).length
          (COMMA.intercalate params ++ ')' :: (ARROW ++ ret)) =
        (if params = [] then [[]] else params,
          ')' :: (ARROW ++ ret)) := by
    cases params with
    | nil => exact cutAll_none _
    | cons param params =>
        exact
          cutAll_names _ (List.cons_ne_nil _ _) hParams
            stops_close (by simp)
  simp only [NameForm.readName, hWords, readParens]
  rw [if_neg (by simp), if_pos (by simp)]
  cases params with
  | nil => rfl
  | cons param params =>
      have hParam := hParams param List.mem_cons_self
      rw [if_neg (List.cons_ne_nil _ _), if_neg]
      · rfl
      · intro hEq
        cases hEq
        exact hParam.ne_nil rfl

theorem read_optionFunc
    {element : List Char}
    (hElement : IsName element) :
    readName ('(' :: (element ++ [')', '!'])) =
      .option element := by
  have hCut :=
    cutAll_names ['!'] (List.cons_ne_nil element [])
      (by simpa using hElement) stops_close (by decide)
  rw [List.intercalate_singleton] at hCut
  simp only [NameForm.readName, hCut, readParens]
  rw [if_neg (by decide), if_neg (by decide),
    if_pos ⟨trivial, rfl⟩]
  rfl

theorem dropLast_bang
    (name : List Char) :
    (name ++ ['!']).dropLast = name :=
  List.dropLast_concat

/- A name that does not begin with a bracket. -/
theorem read_plain
    {name : List Char}
    (hNe : name ≠ [])
    (hHead : ∀ c, name.head? = some c → mark c = .plain) :
    readName name =
      if name.getLast? = some '!' then
        .option name.dropLast
      else
        .atom name := by
  rw [NameForm.readName.eq_def]
  split
  · have hMark := hHead '(' rfl
    exact absurd hMark (by decide)
  · have hMark := hHead '[' rfl
    exact absurd hMark (by decide)
  · rfl

theorem read_atom
    {name : List Char}
    (hAtom : IsAtom name) :
    readName name = .atom name := by
  rw [read_plain hAtom.ne_nil, if_neg]
  · intro hLast
    have hMem := List.mem_of_getLast? hLast
    exact (hAtom.plain '!' hMem).2 rfl
  · intro c hHead
    exact (hAtom.plain c (List.mem_of_mem_head? hHead)).1

/- The name of an option type without parentheses. -/
theorem read_option
    {form : NameForm}
    {element : List Char}
    (hSpells : Spells form element)
    (hOption : ∀ inner, form ≠ .option inner)
    (hFunction : ∀ ret params, form ≠ .function ret params) :
    readName (element ++ ['!']) = .option element := by
  have hDrop := dropLast_bang element
  cases hSpells with
  | atom hAtom =>
      rw [read_plain (by simp), if_pos (by simp), hDrop]
      intro c hHead
      apply (hAtom.plain c _).1
      cases element with
      | nil => exact absurd rfl hAtom.ne_nil
      | cons first rest =>
          cases hHead
          exact List.mem_cons_self
  | @array inner hInner =>
      have hText :
          '[' :: (inner ++ [']']) ++ ['!'] =
            '[' :: (inner ++ [']', '!']) := by
        simp
      have hCut :=
        cut_of_closed hInner.closed
          (show Stops mark ']' from .inl (by decide)) ['!']
      rw [hText] at hDrop ⊢
      simp only [NameForm.readName, hCut, readSquares]
      rw [if_neg (by decide), if_neg (by decide), hDrop]
  | @map key value hKey hValue =>
      have hText :
          '[' :: (key ++ ' ' :: ':' :: ' ' :: (value ++ [']'])) ++
              ['!'] =
            '[' :: (key ++
              ' ' :: ':' :: ' ' :: (value ++ [']', '!'])) := by
        simp
      have hCut := cut_key hKey (' ' :: (value ++ [']', '!']))
      have hCut' :=
        cut_of_closed hValue.closed
          (show Stops mark ']' from .inl (by decide)) ['!']
      rw [hText] at hDrop ⊢
      simp only [NameForm.readName, hCut, readSquares]
      rw [if_neg (by simp), if_pos (by simp)]
      simp only [List.drop_succ_cons, List.drop_zero, readMap,
        hCut']
      rw [if_neg (by decide), hDrop]
  | @single inner hInner =>
      have hText :
          '(' :: (inner ++ [',', ')']) ++ ['!'] =
            '(' :: (inner ++ [',', ')', '!']) := by
        simp
      have hCut :=
        cutAll_names [')', '!'] (List.cons_ne_nil inner [])
          (by simpa using hInner) stops_comma (by decide)
      rw [List.intercalate_singleton] at hCut
      rw [hText] at hDrop ⊢
      simp only [NameForm.readName, hCut, readParens]
      rw [if_neg (by decide), if_neg (by decide),
        if_neg (by simp), hDrop]
  | @tuple elements hTwo hElements =>
      have hText :
          '(' :: (COMMA.intercalate elements ++ [')']) ++ ['!'] =
            '(' :: (COMMA.intercalate elements ++
              [')', '!']) := by
        simp
      have hNe : elements ≠ [] := by
        intro hNil
        rw [hNil] at hTwo
        simp at hTwo
      have hCut :=
        cutAll_names ['!'] hNe hElements stops_close
          (by decide)
      have hMany :
          ¬(True ∧ elements.length = 1) := by
        omega
      rw [hText] at hDrop ⊢
      simp only [NameForm.readName, hCut, readParens]
      rw [if_neg (by decide), if_neg (by decide),
        if_neg hMany, hDrop]
  | function _ _ => exact absurd rfl (hFunction _ _)
  | option _ _ _ => exact absurd rfl (hOption _)
  | optionFunc _ => exact absurd rfl (hOption _)

variable {form form' : NameForm}
variable {name : List Char}

/- The form is found again in the name. -/
theorem read_eq (hSpells : Spells form name) :
    readName name = form := by
  cases hSpells with
  | atom hAtom => exact read_atom hAtom
  | array hElement => exact read_array hElement
  | map hKey hValue => exact read_map hKey hValue
  | single hElement => exact read_single hElement
  | tuple hTwo hElements => exact read_tuple hTwo hElements
  | function _ hParams => exact read_function hParams
  | option hElement hOption hFunction =>
      exact read_option hElement hOption hFunction
  | optionFunc hElement => exact read_optionFunc hElement.isName

theorem form_unique
    (hSpells : Spells form name)
    (hSpells' : Spells form' name) :
    form = form' :=
  hSpells.read_eq.symm.trans hSpells'.read_eq

end Spells

end Pool

end Ydsh
