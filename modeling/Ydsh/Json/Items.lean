import Ydsh.Json.Reread

/-
  The loop over the items of an array or of an object, run on
  what the serializer writes for them.

  Main declarations:
    * `Reads`
    * `ItemsWritten`
    * `parseItems_serializeItems`
-/

----
-- Reading One Item
----

namespace Ydsh

namespace Json

variable {α σ ι : Type}

/-
  Before any delimiter the text is read as the value when it
  can be read, and is an error when it cannot.
-/
structure Reads
    (item : Fetched → Outcome (α × Fetched))
    (text : List UInt8)
    (readable : Prop)
    (value : α) : Prop where
  reads :
    readable →
      ∀ rest, Delimits rest →
        item (fetchNext (text ++ rest)) =
          done (value, fetchNext rest)
  refuses :
    ¬readable →
      ∀ rest, Delimits rest →
        ∃ e, item (fetchNext (text ++ rest)) = fail e

/- The token an item starts with. -/
def BeginsIn
    (kinds : List JSONTokenKind)
    (text : List UInt8) : Prop :=
  ∀ rest, Delimits rest →
    (fetchNext (text ++ rest)).curKind ∈ kinds

/- The item parser wants one of these tokens. -/
def Wants
    (item : Fetched → Outcome (α × Fetched))
    (alters : List JSONTokenKind) : Prop :=
  ∀ p result, item p = done result → p.curKind ∈ alters

----
-- Delimiters
----

theorem fetchNext_newline
    (tab : Nat)
    (rest : List UInt8) :
    fetchNext (newline tab ++ rest) = fetchNext rest :=
  fetchNext_spaces (newline_spaces tab) rest

theorem fetchNext_indent
    (tab level : Nat)
    (rest : List UInt8) :
    fetchNext (indent tab level ++ rest) = fetchNext rest :=
  fetchNext_spaces (indent_spaces tab level) rest

theorem fetchNext_leave
    (tab level : Nat)
    (ch : UInt8)
    (rest : List UInt8) :
    fetchNext (leave tab level ch ++ rest) =
      fetchNext (ch :: rest) := by
  unfold leave
  rw [List.append_assoc, List.append_assoc, fetchNext_newline,
    fetchNext_indent]
  rfl

theorem delimits_leave
    (tab level : Nat)
    {ch : UInt8}
    (hClosing : ch = 0x5D ∨ ch = 0x7D)
    (rest : List UInt8) :
    Delimits (leave tab level ch ++ rest) := by
  unfold leave newline
  by_cases hTab : tab > 0
  · rw [if_pos hTab]
    exact .inr (.inr (.inr (.inl rfl)))
  · have hZero : tab = 0 := by omega
    rw [if_neg hTab, hZero]
    unfold indent
    rw [Nat.mul_zero]
    rcases hClosing with hEq | hEq
    · exact .inr (.inl hEq)
    · exact .inr (.inr (.inl hEq))

theorem serializeItems_comma
    (tab level count : Nat)
    (text : List UInt8)
    (texts : List (List UInt8)) :
    serializeItems tab level (count + 1) (text :: texts) =
      0x2C ::
        (newline tab ++
          (indent tab level ++
            (text ++
              serializeItems tab level (count + 2) texts))) := by
  rw [serializeItems, if_pos (Nat.succ_pos count)]
  rfl

theorem delimits_items
    (tab level count : Nat)
    (texts : List (List UInt8))
    {rest : List UInt8}
    (hRest : Delimits rest) :
    Delimits
      (serializeItems tab level (count + 1) texts ++ rest) := by
  cases texts with
  | nil => exact hRest
  | cons text texts =>
      rw [serializeItems_comma]
      exact .inl rfl

----
-- The Loop
----

section

variable {item : Fetched → Outcome (α × Fetched)}
variable {closing : JSONTokenKind}
variable {alters : List JSONTokenKind}
variable {insert : σ → α → σ}

theorem parseItems_close
    {p : Fetched}
    (hKind : p.curKind = closing)
    (bound count : Nat)
    (value : σ) :
    parseItems closing alters item insert (bound + 1) count
        value p =
      done (value, p) := by
  rw [parseItems, if_pos hKind]

/- One round, from the first token of the item on. -/
theorem parseItems_item
    {p : Fetched}
    (hClosing : p.curKind ≠ closing)
    {count : Nat}
    (hComma : count > 0 → p.curKind = .COMMA)
    (bound : Nat)
    (value : σ) :
    parseItems closing alters item insert (bound + 1) count
        value p =
      if (if count > 0 then consume p else p).curKind ∈ alters
        then
        TRY (item (if count > 0 then consume p else p))
          (fun found =>
            parseItems closing alters item insert bound
              (count + 1) (insert value found.1) found.2)
      else
        fail
          (reportNoViableAlterError
            (if count > 0 then consume p else p)
            (alters ++ [closing])) := by
  rw [parseItems, if_neg hClosing,
    if_neg (fun hBoth => hBoth.2 (hComma hBoth.1))]

/- The texts of the items and what is read from each. -/
structure ItemsWritten
    (item : Fetched → Outcome (α × Fetched))
    (closing : JSONTokenKind)
    (alters : List JSONTokenKind)
    (items : List ι)
    (text : ι → List UInt8)
    (readable : ι → Prop)
    (value : ι → α) : Prop where
  reads :
    ∀ x ∈ items,
      Reads item (text x) (readable x) (value x)
  begins :
    ∀ x ∈ items, BeginsIn (.INVALID :: alters) (text x)
  wants : Wants item alters
  closing_new : closing ∉ JSONTokenKind.INVALID :: alters
  closing_comma : closing ≠ .COMMA

theorem ItemsWritten.tail
    {x : ι}
    {items : List ι}
    {text : ι → List UInt8}
    {readable : ι → Prop}
    {value : ι → α}
    (hWritten :
      ItemsWritten item closing alters (x :: items) text
        readable value) :
    ItemsWritten item closing alters items text readable
      value where
  reads y hMem := hWritten.reads y (List.mem_cons_of_mem _ hMem)
  begins y hMem :=
    hWritten.begins y (List.mem_cons_of_mem _ hMem)
  wants := hWritten.wants
  closing_new := hWritten.closing_new
  closing_comma := hWritten.closing_comma

variable {tab level : Nat}
variable {text : ι → List UInt8}
variable {readable : ι → Prop}
variable {value : ι → α}

/- The state the loop is in before an item. -/
theorem parseItems_written
    {x : ι}
    {items : List ι}
    (hWritten :
      ItemsWritten item closing alters (x :: items) text
        readable value)
    (bound count : Nat)
    (acc : σ)
    {rest : List UInt8}
    (hRest : Delimits rest) :
    let more :=
      serializeItems tab level (count + 1) (items.map text) ++
        rest
    parseItems closing alters item insert (bound + 1) count acc
        (fetchNext
          (serializeItems tab level count
              ((x :: items).map text) ++
            rest)) =
      if (fetchNext (text x ++ more)).curKind ∈ alters then
        TRY (item (fetchNext (text x ++ more)))
          (fun found =>
            parseItems closing alters item insert bound
              (count + 1) (insert acc found.1) found.2)
      else
        fail
          (reportNoViableAlterError
            (fetchNext (text x ++ more))
            (alters ++ [closing])) := by
  intro more
  have hMore : Delimits more :=
    delimits_items tab level count _ hRest
  cases count with
  | zero =>
      have hFetch :
          fetchNext
              (serializeItems tab level 0
                  ((x :: items).map text) ++
                rest) =
            fetchNext (text x ++ more) := by
        rw [List.map_cons, serializeItems,
          if_neg (Nat.lt_irrefl 0), List.nil_append,
          List.append_assoc, fetchNext_indent,
          List.append_assoc]
      have hClosing :
          (fetchNext (text x ++ more)).curKind ≠ closing := by
        intro hEq
        apply hWritten.closing_new
        rw [← hEq]
        exact
          hWritten.begins x List.mem_cons_self more hMore
      rw [hFetch,
        parseItems_item hClosing
          (fun hPos => absurd hPos (Nat.lt_irrefl 0))]
      rfl
  | succ count =>
      have hFetch :
          fetchNext
              (serializeItems tab level (count + 1)
                  ((x :: items).map text) ++
                rest) =
            ⟨.COMMA, [0x2C],
              newline tab ++
                (indent tab level ++ (text x ++ more))⟩ := by
        rw [List.map_cons, serializeItems_comma,
          List.cons_append, fetchNext_comma, List.append_assoc,
          List.append_assoc, List.append_assoc]
      have hConsume :
          consume
              ⟨.COMMA, [0x2C],
                newline tab ++
                  (indent tab level ++ (text x ++ more))⟩ =
            fetchNext (text x ++ more) := by
        unfold consume
        rw [fetchNext_newline, fetchNext_indent]
      rw [hFetch,
        parseItems_item (Ne.symm hWritten.closing_comma)
          (fun _ => rfl),
        if_pos (Nat.succ_pos count), hConsume]

/- Every item is read, and the loop stops at the bracket. -/
theorem parseItems_serializeItems
    {items : List ι}
    (hWritten :
      ItemsWritten item closing alters items text readable
        value)
    (hReadable : ∀ x ∈ items, readable x)
    {bound : Nat}
    (hBound : items.length < bound)
    (count : Nat)
    (acc : σ)
    {rest : List UInt8}
    (hRest : Delimits rest)
    (hClose : (fetchNext rest).curKind = closing) :
    parseItems closing alters item insert bound count acc
        (fetchNext
          (serializeItems tab level count (items.map text) ++
            rest)) =
      done
        ((items.map value).foldl insert acc,
          fetchNext rest) := by
  induction items generalizing bound count acc with
  | nil =>
      cases bound with
      | zero => exact absurd hBound (Nat.not_lt_zero _)
      | succ bound => exact parseItems_close hClose _ _ _
  | cons x items ih =>
      cases bound with
      | zero => exact absurd hBound (Nat.not_lt_zero _)
      | succ bound =>
          have hMore :=
            delimits_items tab level count (items.map text)
              hRest
          have hItem :=
            (hWritten.reads x List.mem_cons_self).reads
              (hReadable x List.mem_cons_self) _ hMore
          rw [parseItems_written hWritten _ _ _ hRest,
            if_pos (hWritten.wants _ _ hItem), hItem, TRY_done]
          apply ih hWritten.tail
          · intro y hMem
            exact hReadable y (List.mem_cons_of_mem _ hMem)
          · exact Nat.lt_of_succ_lt_succ hBound

/- The first item that cannot be read ends the loop. -/
theorem parseItems_refuses
    {items : List ι}
    (hWritten :
      ItemsWritten item closing alters items text readable
        value)
    (hNot : ¬∀ x ∈ items, readable x)
    {bound : Nat}
    (hBound : items.length < bound)
    (count : Nat)
    (acc : σ)
    {rest : List UInt8}
    (hRest : Delimits rest) :
    ∃ e,
      parseItems closing alters item insert bound count acc
          (fetchNext
            (serializeItems tab level count
                (items.map text) ++
              rest)) =
        fail e := by
  induction items generalizing bound count acc with
  | nil =>
      apply absurd _ hNot
      intro x hMem
      cases hMem
  | cons x items ih =>
      cases bound with
      | zero => exact absurd hBound (Nat.not_lt_zero _)
      | succ bound =>
          have hMore :=
            delimits_items tab level count (items.map text)
              hRest
          have hReads := hWritten.reads x List.mem_cons_self
          rw [parseItems_written hWritten _ _ _ hRest]
          by_cases hHead : readable x
          · have hItem := hReads.reads hHead _ hMore
            rw [if_pos (hWritten.wants _ _ hItem), hItem,
              TRY_done]
            apply ih hWritten.tail
            · intro hAll
              apply hNot
              intro y hMem
              rcases List.mem_cons.mp hMem with hEq | hTail
              · rw [hEq]
                exact hHead
              · exact hAll y hTail
            · exact Nat.lt_of_succ_lt_succ hBound
          · rcases hReads.refuses hHead _ hMore with ⟨e, hItem⟩
            rw [hItem, TRY_fail]
            split_ifs
            · exact ⟨_, rfl⟩
            · exact ⟨_, rfl⟩

end

----
-- Blocks
----

section

variable {item : Fetched → Outcome (α × Fetched)}
variable {closing : JSONTokenKind}
variable {alters : List JSONTokenKind}
variable {insert : σ → α → σ}
variable {items : List ι}
variable {text : ι → List UInt8}
variable {readable : ι → Prop}
variable {value : ι → α}
variable {opening ch : UInt8}

/- What follows the opening bracket, up to the closing one. -/
theorem serializeBlock_items
    (tab level : Nat)
    (texts : List (List UInt8))
    (rest : List UInt8)
    (hClosing : ch = 0x5D ∨ ch = 0x7D) :
    ∃ inner tail,
      serializeBlock tab level opening ch texts ++ rest =
          opening :: inner ∧
        fetchNext inner =
          fetchNext
            (serializeItems tab (level + 1) 0 texts ++ tail) ∧
        Delimits tail ∧
        fetchNext tail = fetchNext (ch :: rest) := by
  unfold serializeBlock
  cases texts with
  | nil =>
      refine ⟨ch :: rest, ch :: rest, rfl, rfl, ?_, rfl⟩
      rcases hClosing with hEq | hEq
      · exact .inr (.inl hEq)
      · exact .inr (.inr (.inl hEq))
  | cons head texts =>
      rw [if_neg (by simp)]
      refine
        ⟨newline tab ++
            (serializeItems tab (level + 1) 0 (head :: texts) ++
              (leave tab level ch ++ rest)),
          leave tab level ch ++ rest, ?_, ?_, ?_, ?_⟩
      · unfold enter
        simp
      · exact fetchNext_newline tab _
      · exact delimits_leave tab level hClosing rest
      · exact fetchNext_leave tab level ch rest

/- Every item puts at least one byte into the text. -/
theorem length_lt_serializeBlock
    (tab level : Nat)
    {texts : List (List UInt8)}
    (hTexts : ∀ t ∈ texts, t ≠ []) :
    texts.length <
      (serializeBlock tab level opening ch texts).length := by
  have hItems :
      ∀ (texts : List (List UInt8)) count,
        (∀ t ∈ texts, t ≠ []) →
          texts.length ≤
            (serializeItems tab (level + 1) count
              texts).length := by
    intro texts
    induction texts with
    | nil =>
        intro count _
        exact Nat.zero_le _
    | cons t texts ih =>
        intro count hNe
        have hRest :=
          ih (count + 1)
            (fun u hMem => hNe u (List.mem_cons_of_mem _ hMem))
        have hHead :=
          List.length_pos_of_ne_nil (hNe t List.mem_cons_self)
        rw [serializeItems]
        simp only [List.length_append, List.length_cons]
        omega
  unfold serializeBlock
  by_cases hNil : texts.length = 0
  · rw [if_pos hNil, hNil]
    exact Nat.succ_pos _
  · have hLe := hItems texts 0 hTexts
    rw [if_neg hNil]
    unfold enter
    simp only [List.length_append, List.length_cons,
      List.length_nil]
    omega

theorem length_le_serializeItems
    (tab level count : Nat)
    {texts : List (List UInt8)}
    {t : List UInt8}
    (hMem : t ∈ texts) :
    t.length ≤
      (serializeItems tab level count texts).length := by
  induction texts generalizing count with
  | nil => cases hMem
  | cons head texts ih =>
      rw [serializeItems]
      simp only [List.length_append]
      rcases List.mem_cons.mp hMem with hEq | hTail
      · rw [hEq]
        omega
      · have hLe := ih (count + 1) hTail
        omega

/- The text of an item is a part of the text of the block. -/
theorem length_le_serializeBlock
    (tab level : Nat)
    {texts : List (List UInt8)}
    {t : List UInt8}
    (hMem : t ∈ texts) :
    t.length ≤
      (serializeBlock tab level opening ch texts).length := by
  have hLe := length_le_serializeItems tab (level + 1) 0 hMem
  have hNe : texts.length ≠ 0 := by
    intro hZero
    rw [List.length_eq_zero_iff.mp hZero] at hMem
    cases hMem
  unfold serializeBlock
  rw [if_neg hNe]
  simp only [List.length_append]
  omega

/- A block is read when each of its items is. -/
theorem reads_block
    {β : Type}
    {openKind : JSONTokenKind}
    (hOpen :
      ∀ rest,
        fetchNext (opening :: rest) =
          ⟨openKind, [opening], rest⟩)
    (hClose :
      ∀ rest, fetchNext (ch :: rest) = ⟨closing, [ch], rest⟩)
    (hClosing : ch = 0x5D ∨ ch = 0x7D)
    (hWritten :
      ItemsWritten item closing alters items text readable
        value)
    {limit : Nat}
    (hLimit : items.length < limit)
    (empty : σ)
    (wrap : σ → β)
    (tab level : Nat) :
    Reads
      (parseBlock openKind closing alters item insert empty wrap
        limit)
      (serializeBlock tab level opening ch (items.map text))
      (∀ x ∈ items, readable x)
      (wrap ((items.map value).foldl insert empty)) := by
  constructor
  · intro hReadable rest _
    rcases serializeBlock_items tab level (items.map text) rest
        hClosing with
      ⟨inner, tail, hText, hInner, hTail, hEnd⟩
    have hStop : (fetchNext tail).curKind = closing := by
      rw [hEnd, hClose]
    rw [hText, hOpen]
    unfold parseBlock expect
    rw [if_pos rfl, TRY_done]
    unfold consume
    rw [hInner,
      parseItems_serializeItems hWritten hReadable hLimit 0
        empty hTail hStop,
      TRY_done, hEnd, hClose, if_pos rfl, TRY_done]
  · intro hNot rest _
    rcases serializeBlock_items tab level (items.map text) rest
        hClosing with
      ⟨inner, tail, hText, hInner, hTail, -⟩
    have hFails :
        ∃ e,
          parseItems closing alters item insert limit 0 empty
              (fetchNext
                (serializeItems tab (level + 1) 0
                    (items.map text) ++
                  tail)) =
            fail e :=
      parseItems_refuses hWritten hNot hLimit 0 empty hTail
    rcases hFails with ⟨e, hItems⟩
    refine ⟨e, ?_⟩
    rw [hText, hOpen]
    unfold parseBlock expect
    rw [if_pos rfl, TRY_done]
    unfold consume
    rw [hInner, hItems, TRY_fail]

end

end Json

end Ydsh
