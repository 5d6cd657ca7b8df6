import Ydsh.Json.Items

/-
  Which values come back from their text.

  Main declarations:
    * `reads_serialize`
    * `parseText_serializeText`
    * `roundTrip_iff`
-/

----
-- Parts of Values
----

namespace Ydsh

namespace Json

variable {δ : Type}
variable {doubles : DoubleText δ}

theorem JSON.Plain.element
    {value : List (JSON δ)}
    (hPlain : (JSON.array value).Plain)
    {e : JSON δ}
    (hMem : e ∈ value) :
    e.Plain :=
  fun v hV => hPlain v (JSON.subvalues_element hMem hV)

theorem JSON.Plain.member
    {value : List (List UInt8 × JSON δ)}
    (hPlain : (JSON.object value).Plain)
    {e : List UInt8 × JSON δ}
    (hMem : e ∈ value) :
    e.2.Plain :=
  fun v hV => hPlain v (JSON.subvalues_member hMem hV)

theorem JSON.WellFormed.element
    {value : List (JSON δ)}
    (hFormed : (JSON.array value).WellFormed)
    {e : JSON δ}
    (hMem : e ∈ value) :
    e.WellFormed :=
  fun v hV => hFormed v (JSON.subvalues_element hMem hV)

theorem JSON.WellFormed.member
    {value : List (List UInt8 × JSON δ)}
    (hFormed : (JSON.object value).WellFormed)
    {e : List UInt8 × JSON δ}
    (hMem : e ∈ value) :
    e.2.WellFormed :=
  fun v hV => hFormed v (JSON.subvalues_member hMem hV)

theorem JSON.Plain.valid
    {value : JSON δ}
    (hPlain : value.Plain) :
    value.isInvalid = false ∧ value.isDouble = false :=
  hPlain value (JSON.mem_subvalues_self value)

/- Plain elements are all written. -/
theorem elementTexts_eq
    {value : List (JSON δ)}
    (hValid : ∀ e ∈ value, e.isInvalid = false)
    (tab level : Nat) :
    elementTexts doubles tab level value =
      value.map (serialize doubles tab level) := by
  induction value with
  | nil => rw [elementTexts, List.map_nil]
  | cons e value ih =>
      rw [elementTexts,
        if_neg (by rw [hValid e List.mem_cons_self]; decide),
        ih (fun f hMem => hValid f (List.mem_cons_of_mem _ hMem)),
        List.map_cons]

def memberText
    (doubles : DoubleText δ)
    (tab level : Nat)
    (e : List UInt8 × JSON δ) : List UInt8 :=
  serializeKey tab e.1 ++ serialize doubles tab level e.2

theorem memberTexts_eq
    {value : List (List UInt8 × JSON δ)}
    (hValid : ∀ e ∈ value, e.2.isInvalid = false)
    (tab level : Nat) :
    memberTexts doubles tab level value =
      value.map (memberText doubles tab level) := by
  induction value with
  | nil => rw [memberTexts, List.map_nil]
  | cons e value ih =>
      rw [memberTexts,
        if_neg (by rw [hValid e List.mem_cons_self]; decide),
        ih (fun f hMem => hValid f (List.mem_cons_of_mem _ hMem)),
        List.map_cons]
      rfl

----
-- First Tokens
----

theorem beginsIn_of_kind
    {kind : JSONTokenKind}
    {kinds : List JSONTokenKind}
    (hMem : kind ∈ kinds)
    {text : List UInt8}
    (hKind :
      ∀ rest, Delimits rest →
        (fetchNext (text ++ rest)).curKind = kind) :
    BeginsIn kinds text := by
  intro rest hRest
  rw [hKind rest hRest]
  exact hMem

theorem beginsIn_string
    (value more : List UInt8) :
    BeginsIn [.INVALID, .STRING]
      (serializeString value ++ more) := by
  by_cases hLex : Lexable value
  · have hString :
        .STRING ∈ [JSONTokenKind.INVALID, .STRING] := by
      decide
    apply beginsIn_of_kind hString
    intro rest _
    rw [List.append_assoc, fetchNext_string hLex]
  · have hInvalid :
        .INVALID ∈ [JSONTokenKind.INVALID, .STRING] := by
      decide
    apply beginsIn_of_kind hInvalid
    intro rest _
    rw [List.append_assoc, fetchNext_invalid hLex]

theorem beginsIn_block
    {opening ch : UInt8}
    {openKind : JSONTokenKind}
    (hOpen :
      ∀ rest,
        fetchNext (opening :: rest) =
          ⟨openKind, [opening], rest⟩)
    (hClosing : ch = 0x5D ∨ ch = 0x7D)
    (tab level : Nat)
    (texts : List (List UInt8)) :
    BeginsIn [openKind]
      (serializeBlock tab level opening ch texts) := by
  intro rest _
  rcases serializeBlock_items tab level texts rest
      hClosing with
    ⟨inner, -, hText, -⟩
  rw [hText, hOpen]
  exact List.mem_cons_self

theorem BeginsIn.mono
    {kinds more : List JSONTokenKind}
    {text : List UInt8}
    (hBegins : BeginsIn kinds text)
    (hSubset : kinds ⊆ more) :
    BeginsIn more text :=
  fun rest hRest => hSubset (hBegins rest hRest)

theorem beginsIn_serialize
    {value : JSON δ}
    (hPlain : value.Plain)
    (tab level : Nat) :
    BeginsIn (.INVALID :: valueAlters)
      (serialize doubles tab level value) := by
  have hValid := hPlain.valid
  cases value with
  | invalid => cases hValid.1
  | null =>
      have hNil : .NIL ∈ JSONTokenKind.INVALID :: valueAlters := by
        decide
      apply beginsIn_of_kind hNil
      intro rest _
      rw [serialize, fetchNext_null]
  | bool value =>
      cases value with
      | true =>
          have hTrue :
              .TRUE ∈ JSONTokenKind.INVALID :: valueAlters := by
            decide
          apply beginsIn_of_kind hTrue
          intro rest _
          rw [serialize, if_pos rfl, fetchNext_true]
      | false =>
          have hFalse :
              .FALSE ∈ JSONTokenKind.INVALID :: valueAlters := by
            decide
          apply beginsIn_of_kind hFalse
          intro rest _
          rw [serialize, if_neg (by decide), fetchNext_false]
  | long value =>
      have hNumber :
          .NUMBER ∈ JSONTokenKind.INVALID :: valueAlters := by
        decide
      apply beginsIn_of_kind hNumber
      intro rest hRest
      rw [serialize, fetchNext_to_string value hRest]
  | double value => cases hValid.2
  | string value =>
      have hBegins := beginsIn_string value []
      rw [List.append_nil] at hBegins
      rw [serialize]
      exact hBegins.mono (by decide)
  | array value =>
      have hBegins :=
        beginsIn_block fetchNext_open_array (.inl rfl) tab level
          (elementTexts doubles tab (level + 1) value)
      rw [serialize]
      exact hBegins.mono (by decide)
  | object value =>
      have hBegins :=
        beginsIn_block fetchNext_open_object (.inr rfl) tab
          level (memberTexts doubles tab (level + 1) value)
      rw [serialize]
      exact hBegins.mono (by decide)

theorem wants_parseValue
    (limit calls : Nat) :
    Wants (parseValue doubles limit calls) valueAlters := by
  intro p result hDone
  cases calls with
  | zero => cases hDone
  | succ calls =>
      rw [parseValue] at hDone
      cases hKind : p.curKind
      all_goals
        rw [hKind] at hDone
        first
          | decide
          | cases hDone

theorem wants_parseMember
    (element : Fetched → Outcome (JSON δ × Fetched)) :
    Wants (parseMember element) [.STRING] := by
  intro p result hDone
  by_cases hKind : p.curKind = .STRING
  · rw [hKind]
    exact List.mem_cons_self
  · unfold parseMember expect at hDone
    rw [if_neg hKind] at hDone
    cases hDone

theorem serialize_ne_nil
    {value : JSON δ}
    (hPlain : value.Plain)
    (tab level : Nat) :
    serialize doubles tab level value ≠ [] := by
  intro hNil
  have hBegins :
      BeginsIn (.INVALID :: valueAlters)
        (serialize doubles tab level value) :=
    beginsIn_serialize hPlain tab level
  rw [hNil] at hBegins
  have hComma := hBegins [0x2C] (.inl rfl)
  revert hComma
  decide

----
-- Objects
----

/- A key after all the others goes to the end. -/
theorem insertMember_last
    {value : List (List UInt8 × JSON δ)}
    {member : List UInt8 × JSON δ}
    (hLast : ∀ found ∈ value, found.1 < member.1) :
    insertMember value member = value ++ [member] := by
  induction value with
  | nil => rfl
  | cons found value ih =>
      have hLt := hLast found List.mem_cons_self
      have hNot : ¬member.1 < found.1 := by
        intro hBack
        exact List.lt_irrefl _ (List.lt_trans hLt hBack)
      rw [insertMember, if_neg hNot, if_pos hLt,
        ih (fun f hMem => hLast f (List.mem_cons_of_mem _ hMem)),
        List.cons_append]

/- Members in order are all inserted, in that order. -/
theorem foldl_insertMember
    (value acc : List (List UInt8 × JSON δ))
    (hSorted :
      (acc ++ value).Pairwise
        (fun found next => found.1 < next.1)) :
    value.foldl insertMember acc = acc ++ value := by
  induction value generalizing acc with
  | nil => rw [List.foldl_nil, List.append_nil]
  | cons member value ih =>
      have hLast : ∀ found ∈ acc, found.1 < member.1 := by
        intro found hMem
        exact
          (List.pairwise_append.mp hSorted).2.2 found hMem
            member List.mem_cons_self
      rw [List.foldl_cons, insertMember_last hLast, ih]
      · rw [List.append_assoc, List.singleton_append]
      · rw [List.append_assoc, List.singleton_append]
        exact hSorted

theorem foldl_push
    (value acc : List (JSON δ)) :
    value.foldl (fun found e => found ++ [e]) acc =
      acc ++ value := by
  induction value generalizing acc with
  | nil => rw [List.foldl_nil, List.append_nil]
  | cons e value ih =>
      rw [List.foldl_cons, ih, List.append_assoc,
        List.singleton_append]

/- The keys read back are in order, and none is lost. -/
theorem foldl_insertMember_reencode
    {value : List (List UInt8 × JSON δ)}
    (hSorted : (JSON.object value).KeysSorted) :
    (value.map
          (fun e => (reencode e.1, e.2.reencode))).foldl
        insertMember [] =
      JSON.reencodeMembers value := by
  rw [foldl_insertMember, List.nil_append,
    JSON.reencodeMembers_eq]
  rw [List.nil_append]
  apply List.Pairwise.map _ _ hSorted
  intro found next hLt
  exact reencode_lt hLt

----
-- Reading Values
----

/- The texts of all its strings are tokens. -/
def Readable (value : JSON δ) : Prop :=
  ∀ str ∈ value.strings, Lexable str

theorem reads_leaf
    {α : Type}
    {item : Fetched → Outcome (α × Fetched)}
    {text : List UInt8}
    {value : α}
    {readable : Prop}
    (hReadable : readable)
    (hReads :
      ∀ rest, Delimits rest →
        item (fetchNext (text ++ rest)) =
          done (value, fetchNext rest)) :
    Reads item text readable value where
  reads _ := hReads
  refuses hNot := absurd hReadable hNot

theorem reads_number
    (limit calls : Nat)
    (value : Int64) :
    Reads (parseValue doubles limit (calls + 1))
      (to_string value) True (JSON.long value) := by
  apply reads_leaf trivial
  intro rest hRest
  rw [fetchNext_to_string value hRest]
  show
    parseNumber doubles ⟨.NUMBER, to_string value, rest⟩ = _
  unfold parseNumber expect
  rw [if_pos rfl, TRY_done]
  simp only [isFloat_to_string, convertToNum_to_string]
  rfl

theorem reads_string
    (limit calls : Nat)
    (value : List UInt8) :
    Reads (parseValue doubles limit (calls + 1))
      (serializeString value) (Lexable value)
      (JSON.string (reencode value)) := by
  constructor
  · intro hLex rest _
    rw [fetchNext_string hLex]
    show
      parseString ⟨.STRING, serializeString value, rest⟩ = _
    unfold parseString expect
    rw [if_pos rfl, TRY_done, unescapeToken_serializeString,
      TRY_done]
    rfl
  · intro hLex rest _
    have hKind := fetchNext_invalid hLex rest
    rw [parseValue, hKind]
    exact ⟨_, rfl⟩

theorem fetchNext_colonSpace
    (tab : Nat)
    (rest : List UInt8) :
    fetchNext
        ((if tab > 0 then ascii [' '] else []) ++ rest) =
      fetchNext rest := by
  apply fetchNext_spaces
  intro b hMem
  split_ifs at hMem
  · rw [List.mem_singleton.mp hMem]
    rfl
  · cases hMem

theorem reads_member
    {element : Fetched → Outcome (JSON δ × Fetched)}
    {e : List UInt8 × JSON δ}
    {tab level : Nat}
    (hElement :
      Reads element (serialize doubles tab level e.2)
        (Readable e.2) e.2.reencode) :
    Reads (parseMember element)
      (memberText doubles tab level e)
      (Lexable e.1 ∧ Readable e.2)
      (reencode e.1, e.2.reencode) := by
  have hText :
      ∀ rest,
        memberText doubles tab level e ++ rest =
          serializeString e.1 ++
            (0x3A ::
              ((if tab > 0 then ascii [' '] else []) ++
                (serialize doubles tab level e.2 ++ rest))) := by
    intro rest
    unfold memberText serializeKey
    simp [ascii]
    rfl
  -- up to the colon, where the key is a token
  have hKey :
      Lexable e.1 →
        ∀ rest,
          parseMember element
              (fetchNext
                (memberText doubles tab level e ++ rest)) =
            TRY
              (element
                (fetchNext
                  (serialize doubles tab level e.2 ++ rest)))
              (fun value =>
                TRY (unescapeToken (serializeString e.1))
                  (fun key =>
                    done ((key, value.1), value.2))) := by
    intro hLex rest
    rw [hText, fetchNext_string hLex]
    unfold parseMember expect
    rw [if_pos rfl, TRY_done]
    unfold consume
    simp only [fetchNext_colon, if_pos, TRY_done,
      fetchNext_colonSpace]
  constructor
  · rintro ⟨hLex, hReadable⟩ rest hRest
    rw [hKey hLex, hElement.reads hReadable rest hRest,
      TRY_done, unescapeToken_serializeString, TRY_done]
  · intro hNot rest hRest
    by_cases hLex : Lexable e.1
    · have hValue : ¬Readable e.2 :=
        fun hReadable => hNot ⟨hLex, hReadable⟩
      rcases hElement.refuses hValue rest hRest with
        ⟨error, hFail⟩
      rw [hKey hLex, hFail, TRY_fail]
      exact ⟨_, rfl⟩
    · have hKind := fetchNext_invalid hLex
      unfold parseMember expect
      rw [hText, if_neg (by rw [hKind]; decide), TRY_fail]
      exact ⟨_, rfl⟩

theorem Reads.congr
    {α : Type}
    {item other : Fetched → Outcome (α × Fetched)}
    {text : List UInt8}
    {readable readable' : Prop}
    {value : α}
    (hReads : Reads item text readable value)
    (hIff : readable ↔ readable')
    (hItem :
      ∀ rest, Delimits rest →
        other (fetchNext (text ++ rest)) =
          item (fetchNext (text ++ rest))) :
    Reads other text readable' value where
  reads hReadable rest hRest := by
    rw [hItem rest hRest]
    exact hReads.reads (hIff.mpr hReadable) rest hRest
  refuses hNot rest hRest := by
    rw [hItem rest hRest]
    exact hReads.refuses (fun h => hNot (hIff.mp h)) rest hRest

/- The bracket a block starts with decides who reads it. -/
theorem fetchNext_block_kind
    {opening ch : UInt8}
    {openKind : JSONTokenKind}
    (hOpen :
      ∀ rest,
        fetchNext (opening :: rest) =
          ⟨openKind, [opening], rest⟩)
    (hClosing : ch = 0x5D ∨ ch = 0x7D)
    (tab level : Nat)
    (texts : List (List UInt8))
    {rest : List UInt8}
    (hRest : Delimits rest) :
    (fetchNext
        (serializeBlock tab level opening ch texts ++
          rest)).curKind =
      openKind :=
  List.mem_singleton.mp
    (beginsIn_block hOpen hClosing tab level texts rest hRest)

theorem readable_array_iff
    {value : List (JSON δ)} :
    (∀ e ∈ value, Readable e) ↔ Readable (.array value) := by
  unfold Readable
  rw [JSON.strings_array]
  constructor
  · intro hAll str hMem
    rcases List.mem_flatMap.mp hMem with ⟨e, hE, hStr⟩
    exact hAll e hE str hStr
  · intro hAll e hE str hStr
    exact hAll str (List.mem_flatMap.mpr ⟨e, hE, hStr⟩)

theorem readable_object_iff
    {value : List (List UInt8 × JSON δ)} :
    (∀ e ∈ value, Lexable e.1 ∧ Readable e.2) ↔
      Readable (.object value) := by
  unfold Readable
  constructor
  · intro hAll str hMem
    rcases JSON.mem_strings_object.mp hMem with
      ⟨e, hE, hEq | hStr⟩
    · rw [hEq]
      exact (hAll e hE).1
    · exact (hAll e hE).2 str hStr
  · intro hAll e hE
    constructor
    · exact
        hAll e.1
          (JSON.mem_strings_object.mpr ⟨e, hE, .inl rfl⟩)
    · intro str hStr
      exact
        hAll str
          (JSON.mem_strings_object.mpr ⟨e, hE, .inr hStr⟩)

theorem reads_array
    {value : List (JSON δ)}
    (hPlain : (JSON.array value).Plain)
    {calls limit tab level : Nat}
    (hLimit :
      (serialize doubles tab level (.array value)).length ≤
        limit)
    (hElements :
      ∀ e ∈ value,
        (serialize doubles tab (level + 1) e).length ≤ limit →
          Reads (parseValue doubles limit calls)
            (serialize doubles tab (level + 1) e) (Readable e)
            e.reencode) :
    Reads (parseValue doubles limit (calls + 1))
      (serialize doubles tab level (.array value))
      (Readable (.array value)) (JSON.array value).reencode := by
  have hValid : ∀ e ∈ value, e.isInvalid = false :=
    fun e hMem => (hPlain.element hMem).valid.1
  rw [serialize, elementTexts_eq hValid] at hLimit ⊢
  have hWritten :
      ItemsWritten (parseValue doubles limit calls)
        .ARRAY_CLOSE valueAlters value
        (serialize doubles tab (level + 1)) Readable
        JSON.reencode := by
    constructor
    · intro e hMem
      apply hElements e hMem
      exact
        Nat.le_trans
          (length_le_serializeBlock tab level
            (List.mem_map_of_mem hMem))
          hLimit
    · intro e hMem
      exact beginsIn_serialize (hPlain.element hMem) _ _
    · exact wants_parseValue _ _
    · decide
    · decide
  have hLength : value.length < limit := by
    apply Nat.lt_of_lt_of_le _ hLimit
    rw [← List.length_map (serialize doubles tab (level + 1))]
    apply length_lt_serializeBlock
    intro t hMem
    rcases List.mem_map.mp hMem with ⟨e, hE, rfl⟩
    exact serialize_ne_nil (hPlain.element hE) _ _
  have hBlock :
      Reads (parseArray limit (parseValue doubles limit calls))
        (serializeBlock tab level 0x5B 0x5D
          (value.map (serialize doubles tab (level + 1))))
        (∀ e ∈ value, Readable e)
        (JSON.array
          ((value.map JSON.reencode).foldl
            (fun found e => found ++ [e]) [])) :=
    reads_block fetchNext_open_array fetchNext_close_array
      (.inl rfl) hWritten hLength [] JSON.array tab level
  rw [foldl_push, List.nil_append] at hBlock
  rw [JSON.reencode, JSON.reencodeElements_eq]
  apply hBlock.congr readable_array_iff
  intro rest hRest
  rw [parseValue,
    fetchNext_block_kind fetchNext_open_array (.inl rfl) tab
      level _ hRest]

theorem reads_object
    {value : List (List UInt8 × JSON δ)}
    (hPlain : (JSON.object value).Plain)
    (hSorted : (JSON.object value).KeysSorted)
    {calls limit tab level : Nat}
    (hLimit :
      (serialize doubles tab level (.object value)).length ≤
        limit)
    (hMembers :
      ∀ e ∈ value,
        (serialize doubles tab (level + 1) e.2).length ≤
            limit →
          Reads (parseValue doubles limit calls)
            (serialize doubles tab (level + 1) e.2)
            (Readable e.2) e.2.reencode) :
    Reads (parseValue doubles limit (calls + 1))
      (serialize doubles tab level (.object value))
      (Readable (.object value))
      (JSON.object value).reencode := by
  have hValid : ∀ e ∈ value, e.2.isInvalid = false :=
    fun e hMem => (hPlain.member hMem).valid.1
  rw [serialize, memberTexts_eq hValid] at hLimit ⊢
  have hNe :
      ∀ e, memberText doubles tab (level + 1) e ≠ [] := by
    intro e hNil
    unfold memberText serializeKey serializeString at hNil
    cases hNil
  have hWritten :
      ItemsWritten
        (parseMember (parseValue doubles limit calls))
        .OBJECT_CLOSE [.STRING] value
        (memberText doubles tab (level + 1))
        (fun e => Lexable e.1 ∧ Readable e.2)
        (fun e => (reencode e.1, e.2.reencode)) := by
    constructor
    · intro e hMem
      apply reads_member
      apply hMembers e hMem
      have hLe :
          (memberText doubles tab (level + 1) e).length ≤
            limit :=
        Nat.le_trans
          (length_le_serializeBlock tab level
            (List.mem_map_of_mem hMem))
          hLimit
      unfold memberText at hLe
      rw [List.length_append] at hLe
      exact Nat.le_trans (Nat.le_add_left _ _) hLe
    · intro e _
      unfold memberText serializeKey
      rw [List.append_assoc, List.append_assoc]
      exact beginsIn_string _ _
    · exact wants_parseMember _
    · decide
    · decide
  have hLength : value.length < limit := by
    apply Nat.lt_of_lt_of_le _ hLimit
    rw [← List.length_map (memberText doubles tab (level + 1))]
    apply length_lt_serializeBlock
    intro t hMem
    rcases List.mem_map.mp hMem with ⟨e, -, rfl⟩
    exact hNe e
  have hBlock :
      Reads (parseObject limit (parseValue doubles limit calls))
        (serializeBlock tab level 0x7B 0x7D
          (value.map (memberText doubles tab (level + 1))))
        (∀ e ∈ value, Lexable e.1 ∧ Readable e.2)
        (JSON.object
          ((value.map
                (fun e => (reencode e.1, e.2.reencode))).foldl
            insertMember [])) :=
    reads_block fetchNext_open_object fetchNext_close_object
      (.inr rfl) hWritten hLength [] JSON.object tab level
  rw [foldl_insertMember_reencode hSorted] at hBlock
  rw [JSON.reencode]
  apply hBlock.congr readable_object_iff
  intro rest hRest
  rw [parseValue,
    fetchNext_block_kind fetchNext_open_object (.inr rfl) tab
      level _ hRest]

/- Every value is read back with its strings reencoded. -/
theorem reads_serialize
    (value : JSON δ)
    (hPlain : value.Plain)
    (hFormed : value.WellFormed)
    {calls limit tab level : Nat}
    (hCalls : value.nesting ≤ calls)
    (hLimit :
      (serialize doubles tab level value).length ≤ limit) :
    Reads (parseValue doubles limit calls)
      (serialize doubles tab level value) (Readable value)
      value.reencode := by
  induction value using JSON.induct generalizing calls level with
  | invalid => cases hPlain.valid.1
  | null =>
      cases calls with
      | zero => cases hCalls
      | succ calls =>
          apply reads_leaf
          · intro str hMem
            cases hMem
          · intro rest _
            rw [serialize, fetchNext_null]
            rfl
  | bool value =>
      cases calls with
      | zero => cases hCalls
      | succ calls =>
          apply reads_leaf
          · intro str hMem
            cases hMem
          · intro rest _
            rw [serialize]
            cases value with
            | true =>
                rw [if_pos rfl, fetchNext_true]
                rfl
            | false =>
                rw [if_neg (by decide), fetchNext_false]
                rfl
  | long value =>
      cases calls with
      | zero => cases hCalls
      | succ calls =>
          have hReads :
              Reads (parseValue doubles limit (calls + 1))
                (to_string value) True (JSON.long value) :=
            reads_number limit calls value
          rw [serialize]
          apply hReads.congr _ (fun _ _ => rfl)
          constructor
          · intro _ str hMem
            cases hMem
          · intro _
            trivial
  | double value => cases hPlain.valid.2
  | string value =>
      cases calls with
      | zero => cases hCalls
      | succ calls =>
          have hReads :
              Reads (parseValue doubles limit (calls + 1))
                (serializeString value) (Lexable value)
                (JSON.string (reencode value)) :=
            reads_string limit calls value
          rw [serialize]
          apply hReads.congr _ (fun _ _ => rfl)
          constructor
          · intro hLex str hMem
            rw [List.mem_singleton.mp hMem]
            exact hLex
          · intro hAll
            exact hAll value List.mem_cons_self
  | array value ih =>
      cases calls with
      | zero => cases hCalls
      | succ calls =>
          apply reads_array hPlain hLimit
          intro e hMem hLe
          apply ih e hMem (hPlain.element hMem)
            (hFormed.element hMem) _ hLe
          rw [JSON.nesting] at hCalls
          exact
            Nat.le_trans (JSON.nesting_of_mem hMem)
              (Nat.le_of_succ_le_succ hCalls)
  | object value ih =>
      cases calls with
      | zero => cases hCalls
      | succ calls =>
          have hSorted :=
            hFormed _ (JSON.mem_subvalues_self _)
          apply reads_object hPlain hSorted hLimit
          intro e hMem hLe
          apply ih e hMem (hPlain.member hMem)
            (hFormed.member hMem) _ hLe
          rw [JSON.nesting] at hCalls
          exact
            Nat.le_trans (JSON.nesting_of_mem_members hMem)
              (Nat.le_of_succ_le_succ hCalls)

----
-- Round Trips
----

/- After the value the buffer has only its end. -/
theorem sourceBuffer_serialize
    (tab : Nat)
    (text : List UInt8) :
    ∃ rest,
      sourceBuffer (text ++ newline tab) = text ++ rest ∧
        Delimits rest ∧
        fetchNext rest = ⟨.EOS, [], [0]⟩ := by
  unfold sourceBuffer newline
  by_cases hTab : tab > 0
  · have hLast :
        (text ++ ascii ['\n']).getLast? = some 0x0A :=
      List.getLast?_concat
    rw [if_pos hTab, if_pos hLast, List.append_assoc]
    exact ⟨_, rfl, .inr (.inr (.inr (.inl rfl))), rfl⟩
  · rw [if_neg hTab, List.append_nil]
    by_cases hLast : text.getLast? = some 0x0A
    · rw [if_pos hLast]
      exact ⟨_, rfl, .inr (.inr (.inr (.inr rfl))), rfl⟩
    · rw [if_neg hLast]
      exact ⟨_, rfl, .inr (.inr (.inr (.inl rfl))), rfl⟩

/- What the parser makes of the text of any value. -/
theorem parseText_serializeText
    {value : JSON δ}
    (hPlain : value.Plain)
    (hFormed : value.WellFormed)
    (hNesting : value.nesting < MAX_NESTING_DEPTH)
    (tab : Nat) :
    (Readable value →
        parseText doubles (serializeText doubles tab value) =
          done value.reencode) ∧
      (¬Readable value →
        ∃ e,
          parseText doubles
              (serializeText doubles tab value) =
            fail e) := by
  rcases sourceBuffer_serialize tab
      (serialize doubles tab 0 value) with
    ⟨rest, hBuffer, hRest, hEnd⟩
  have hText :
      sourceBuffer (serializeText doubles tab value) =
        serialize doubles tab 0 value ++ rest := by
    unfold serializeText
    rw [if_neg (by rw [hPlain.valid.1]; decide), hBuffer]
  have hReads :
      Reads
        (parseValue doubles
          (serialize doubles tab 0 value ++ rest).length
          (MAX_NESTING_DEPTH - 1))
        (serialize doubles tab 0 value) (Readable value)
        value.reencode := by
    apply reads_serialize value hPlain hFormed
    · exact Nat.le_sub_one_of_lt hNesting
    · rw [List.length_append]
      exact Nat.le_add_right _ _
  unfold parseText
  rw [hText]
  constructor
  · intro hReadable
    rw [hReads.reads hReadable rest hRest, TRY_done, hEnd]
    rfl
  · intro hNot
    rcases hReads.refuses hNot rest hRest with ⟨e, hFail⟩
    rw [hFail, TRY_fail]
    exact ⟨_, rfl⟩

theorem map_fixed
    {α : Type}
    {f : α → α}
    {xs : List α}
    (hMap : xs.map f = xs) :
    ∀ x ∈ xs, f x = x :=
  List.map_inj_left.mp (hMap.trans (List.map_id xs).symm)

/- Reencoding changes every string with a byte above `\x7F`. -/
theorem reencode_fixed
    (value : JSON δ)
    (hEq : value.reencode = value) :
    ∀ str ∈ value.strings, reencode str = str := by
  induction value using JSON.induct with
  | invalid =>
      intro str hMem
      cases hMem
  | null =>
      intro str hMem
      cases hMem
  | bool value =>
      intro str hMem
      cases hMem
  | long value =>
      intro str hMem
      cases hMem
  | double value =>
      intro str hMem
      cases hMem
  | string value =>
      intro str hMem
      rw [JSON.reencode] at hEq
      rw [List.mem_singleton.mp hMem]
      exact JSON.string.inj hEq
  | array value ih =>
      intro str hMem
      rw [JSON.reencode, JSON.reencodeElements_eq] at hEq
      have hMap := JSON.array.inj hEq
      rw [JSON.strings_array] at hMem
      rcases List.mem_flatMap.mp hMem with ⟨e, hE, hStr⟩
      have hFixed : e.reencode = e :=
        map_fixed hMap e hE
      exact ih e hE hFixed str hStr
  | object value ih =>
      intro str hMem
      rw [JSON.reencode, JSON.reencodeMembers_eq] at hEq
      have hMap := JSON.object.inj hEq
      rcases JSON.mem_strings_object.mp hMem with
        ⟨e, hE, hCase⟩
      have hFixed := map_fixed hMap e hE
      rcases hCase with hKey | hStr
      · rw [hKey]
        exact congrArg Prod.fst hFixed
      · exact ih e hE (congrArg Prod.snd hFixed) str hStr

theorem reencode_of_strings
    (value : JSON δ)
    (hStrings : ∀ str ∈ value.strings, reencode str = str) :
    value.reencode = value := by
  induction value using JSON.induct with
  | invalid => rw [JSON.reencode] <;> simp
  | null => rw [JSON.reencode] <;> simp
  | bool value => rw [JSON.reencode] <;> simp
  | long value => rw [JSON.reencode] <;> simp
  | double value => rw [JSON.reencode] <;> simp
  | string value =>
      rw [JSON.reencode, hStrings value List.mem_cons_self]
  | array value ih =>
      rw [JSON.reencode, JSON.reencodeElements_eq]
      congr 1
      apply (List.map_congr_left _).trans (List.map_id value)
      intro e hE
      apply ih e hE
      intro str hStr
      apply hStrings
      rw [JSON.strings_array]
      exact List.mem_flatMap.mpr ⟨e, hE, hStr⟩
  | object value ih =>
      rw [JSON.reencode, JSON.reencodeMembers_eq]
      congr 1
      apply (List.map_congr_left _).trans (List.map_id value)
      intro e hE
      have hKey : reencode e.1 = e.1 :=
        hStrings e.1
          (JSON.mem_strings_object.mpr ⟨e, hE, .inl rfl⟩)
      have hValue : e.2.reencode = e.2 := by
        apply ih e hE
        intro str hStr
        exact
          hStrings str
            (JSON.mem_strings_object.mpr ⟨e, hE, .inr hStr⟩)
      rw [hKey, hValue]
      rfl

/- Text in ASCII is read as the value it is of. -/
theorem parseText_of_ascii
    {value : JSON δ}
    (hPlain : value.Plain)
    (hFormed : value.WellFormed)
    (hNesting : value.nesting < MAX_NESTING_DEPTH)
    (hAscii :
      ∀ str ∈ value.strings, ∀ b ∈ str, b < 0x80 ∧ b ≠ 0x1F)
    (tab : Nat) :
    parseText doubles (serializeText doubles tab value) =
      done value := by
  have hReadable : Readable value := by
    intro str hStr
    apply lexable_of_ascii
    intro b hMem
    have hByte := hAscii str hStr b hMem
    exact ⟨UInt8.lt_iff_toNat_lt.mp hByte.1, hByte.2⟩
  rw [(parseText_serializeText hPlain hFormed hNesting tab).1
    hReadable, reencode_of_strings]
  intro str hStr
  apply reencode_of_ascii
  intro b hMem
  exact UInt8.lt_iff_toNat_lt.mp (hAscii str hStr b hMem).1

/-
  A value comes back from its text when its strings and keys
  have only bytes below `\x80`, and not `\x1F` among them.
-/
theorem roundTrip_iff
    {value : JSON δ}
    (hPlain : value.Plain)
    (hFormed : value.WellFormed)
    (hNesting : value.nesting < MAX_NESTING_DEPTH)
    (tab : Nat) :
    parseText doubles (serializeText doubles tab value) =
        done value ↔
      ∀ str ∈ value.strings,
        ∀ b ∈ str, b < 0x80 ∧ b ≠ 0x1F := by
  have hParse :
      (Readable value →
          parseText doubles (serializeText doubles tab value) =
            done value.reencode) ∧
        (¬Readable value →
          ∃ e,
            parseText doubles
                (serializeText doubles tab value) =
              fail e) :=
    parseText_serializeText hPlain hFormed hNesting tab
  constructor
  · intro hBack str hStr b hMem
    by_cases hReadable : Readable value
    · have hEq : value.reencode = value :=
        done_inj ((hParse.1 hReadable).symm.trans hBack)
      have hFixed := reencode_fixed value hEq str hStr
      have hNot : (0x1F : UInt8) ∉ str :=
        not_mem_of_lexes
          (show CharState.char.InText from trivial)
          (hReadable str hStr)
      refine ⟨?_, ?_⟩
      · exact
          UInt8.lt_iff_toNat_lt.mpr
            (ascii_of_reencode hFixed b hMem)
      · intro hUnit
        exact hNot (hUnit ▸ hMem)
    · rcases hParse.2 hReadable with ⟨e, hFail⟩
      rw [hFail] at hBack
      cases hBack
  · intro hAscii
    exact parseText_of_ascii hPlain hFormed hNesting hAscii tab

/- No `double` is ever written or read. -/
def noDoubles : DoubleText Empty :=
  { to_string := Empty.elim,
    convertToDouble := fun _ => none }

/- `{"a":["b\u0001",-12]}` over several lines. -/
theorem roundTrip_object :
    parseText noDoubles
        (serializeText noDoubles 2
          (.object
            [([0x61],
              .array [.string [0x62, 0x01], .long (-12)])])) =
      done
        (.object
          [([0x61],
            .array [.string [0x62, 0x01], .long (-12)])]) := by
  apply (roundTrip_iff _ _ _ _).mpr
  · have hAll :
        ([[0x61], [0x62, 0x01]] : List (List UInt8)).all
            (fun str =>
              str.all (fun b => b < 0x80 && b ≠ 0x1F)) =
          true := by
      decide
    intro str hStr b hMem
    have hStr' := List.all_eq_true.mp hAll str hStr
    have hByte := List.all_eq_true.mp hStr' b hMem
    simpa only [Bool.and_eq_true, decide_eq_true_eq] using
      hByte
  · intro v hMem
    simp only [JSON.subvalues, JSON.memberSubvalues,
      JSON.elementSubvalues, List.append_nil, List.cons_append,
      List.nil_append, List.mem_cons, List.not_mem_nil,
      or_false] at hMem
    rcases hMem with h | h | h | h
    all_goals
      rw [h]
      exact ⟨rfl, rfl⟩
  · intro v hMem
    simp only [JSON.subvalues, JSON.memberSubvalues,
      JSON.elementSubvalues, List.append_nil, List.cons_append,
      List.nil_append, List.mem_cons, List.not_mem_nil,
      or_false] at hMem
    rcases hMem with h | h | h | h
    all_goals
      rw [h]
      unfold JSON.KeysSorted
    · exact List.pairwise_singleton _ _
    all_goals trivial
  · decide

/- `é` comes back as the two code points of its bytes. -/
theorem not_roundTrip_nonAscii :
    parseText noDoubles
        (serializeText noDoubles 0 (.string [0xC3, 0xA9])) ≠
      done (.string [0xC3, 0xA9]) := by
  intro hBack
  have hReads :
      parseText noDoubles
          (serializeText noDoubles 0 (.string [0xC3, 0xA9])) =
        done (.string [0xC3, 0x83, 0xC2, 0xA9]) := by
    apply (parseText_serializeText _ _ _ 0).1
    · intro str hMem
      rw [List.mem_singleton.mp hMem]
      decide
    · intro v hMem
      rw [List.mem_singleton.mp hMem]
      exact ⟨rfl, rfl⟩
    · intro v hMem
      rw [List.mem_singleton.mp hMem]
      trivial
    · decide
  rw [hReads] at hBack
  have hEq := JSON.string.inj (done_inj hBack)
  revert hEq
  decide

end Json

end Ydsh
