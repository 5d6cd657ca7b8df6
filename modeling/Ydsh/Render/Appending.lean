import Ydsh.Render.ToStrBuf

/-
  What an appending operation adds to the buffer.

  As long as the objects stay as they were and no join has left
  something behind, an operation that succeeds has added the
  text of its operand and nothing else.

  Main declarations:
    * `Undisturbed`, `Entry.Good`
    * `Keeps`
    * `Appends`, `CallSound`
    * `opStr_appends`, `opInterp_appends`
-/

----
-- Histories
----

namespace Ydsh

namespace Render

/- No join met an absent element while there was text in the
   buffer. -/
def Undisturbed (state : State) : Prop :=
  ∀ text ∈ state.absences, text = ""

/-
  A conversion that began and ended with an empty buffer, and
  whose result is an error or the rendering of its operand.
-/
structure Entry.Good (entry : Entry) : Prop where
  before : entry.before = ""
  after : entry.after = ""
  rendered :
    entry.ret = .error ∨
      ∃ text,
        entry.ret = .value text ∧
          entry.request.Renders entry.heap text

def AllGood (state : State) : Prop :=
  ∀ entry ∈ state.entries, entry.Good

/- What is left alone from one state to another. -/
structure Keeps
    (Kept : Nat → Prop)
    (state state' : State) : Prop where
  entries : state'.entries = state.entries
  heap : ∀ id, Kept id → state'.heap id = state.heap id
  calm : Undisturbed state' → Undisturbed state

def Agrees
    (heap : Heap)
    (Kept : Nat → Prop)
    (state : State) : Prop :=
  ∀ id, Kept id → state.heap id = heap id

/- The objects that lead to kept ones only. -/
def Closed
    (heap : Heap)
    (Kept : Nat → Prop) : Prop :=
  ∀ id, Kept id →
    ∀ other, (heap id).Holds (.object other) → Kept other

def Inside
    (Kept : Nat → Prop)
    (value : Option Value) : Prop :=
  ∀ id, value = some (.object id) → Kept id

variable {heap : Heap}
variable {Kept : Nat → Prop}

namespace Keeps

variable {state state' state'' : State}

theorem of_same
    (hEntries : state'.entries = state.entries)
    (hHeap : state'.heap = state.heap)
    (hAbsences : state'.absences = state.absences) :
    Keeps Kept state state' where
  entries := hEntries
  heap := fun id _ => congrFun hHeap id
  calm := by
    intro hCalm
    unfold Undisturbed at hCalm ⊢
    rwa [hAbsences] at hCalm

theorem refl (state : State) : Keeps Kept state state :=
  of_same rfl rfl rfl

theorem append
    (state : State)
    (text : String) :
    Keeps Kept state (state.append text) :=
  of_same rfl rfl rfl

theorem clear (state : State) : Keeps Kept state state.clear :=
  of_same rfl rfl rfl

theorem trans
    (hFirst : Keeps Kept state state')
    (hSecond : Keeps Kept state' state'') :
    Keeps Kept state state'' where
  entries := hSecond.entries.trans hFirst.entries
  heap := fun id hKept =>
    (hSecond.heap id hKept).trans (hFirst.heap id hKept)
  calm := fun hCalm => hFirst.calm (hSecond.calm hCalm)

theorem agrees
    (hKeeps : Keeps Kept state state')
    (hAgrees : Agrees heap Kept state) :
    Agrees heap Kept state' :=
  fun id hKept =>
    (hKeeps.heap id hKept).trans (hAgrees id hKept)

end Keeps

/- An operation that adds `text` to the buffer when it
   succeeds. -/
def Appends
    (heap : Heap)
    (Kept : Nat → Prop)
    (item : State → Bool × State)
    (text : Option String) : Prop :=
  ∀ state ok state',
    Agrees heap Kept state →
    item state = (ok, state') →
      Keeps Kept state state' ∧
        (ok = true →
          Undisturbed state' →
            ∃ added,
              text = some added ∧
                state'.toStrBuf = state.toStrBuf ++ added)

/- The value handed back, and the buffer after it. -/
def Returns
    (state : State)
    (ret : Ret)
    (state' : State)
    (text : Option String) : Prop :=
  match ret with
  | .error => True
  | .invalid =>
      ∃ added,
        text = some added ∧
          state'.toStrBuf = state.toStrBuf ++ added
  | .value own =>
      text = some own ∧ state'.toStrBuf = state.toStrBuf

def CallSound
    (heap : Heap)
    (Kept : Nat → Prop)
    (call : Call)
    (elem : Op → Option Value → Option String) : Prop :=
  ∀ op value state ret state',
    Inside Kept (some value) →
    Agrees heap Kept state →
    call op value state = (ret, state') →
      Keeps Kept state state' ∧
        (Undisturbed state' →
          Returns state ret state' (elem op (some value)))

----
-- Elements
----

section Elements

variable {call : Call}
variable {elem : Op → Option Value → Option String}
variable (hCall : CallSound heap Kept call elem)
variable
  (hString : ∀ op text, elem op (some (.string text)) = some text)

include hCall hString

theorem appendOP_appends
    (op : Op)
    {value : Option Value}
    (hInside : Inside Kept value) :
    Appends heap Kept (appendOP call op value)
      (elem op value) := by
  -- A value that is no string goes through the method.
  have hThrough :
      ∀ value : Value,
        Inside Kept (some value) →
          Appends heap Kept
            (fun state => appendRet (call op value state))
            (elem op (some value)) := by
    intro value hInside state ok state' hAgrees hItem
    rcases hResult : call op value state with ⟨ret, after⟩
    rcases
      hCall op value state ret after hInside hAgrees hResult with
      ⟨hKeeps, hReturns⟩
    simp only [hResult] at hItem
    cases ret with
    | error =>
        rcases hItem with ⟨⟩
        exact ⟨hKeeps, fun hOk => by cases hOk⟩
    | invalid =>
        rcases hItem with ⟨⟩
        exact ⟨hKeeps, fun _ hCalm => hReturns hCalm⟩
    | value text =>
        rcases hItem with ⟨⟩
        constructor
        · exact hKeeps.trans (Keeps.append after text)
        · intro _ hCalm
          rcases hReturns hCalm with ⟨hText, hBuf⟩
          apply Exists.intro text
          exact ⟨hText, by rw [State.append, hBuf]⟩
  intro state ok state' hAgrees hItem
  unfold appendOP callOP at hItem
  rcases value with _ | ⟨own | own | id⟩
  · rcases hItem with ⟨⟩
    exact ⟨Keeps.refl _, fun hOk => by cases hOk⟩
  · rcases hItem with ⟨⟩
    constructor
    · exact Keeps.append _ _
    · intro _ _
      exact ⟨own, hString op own, rfl⟩
  · exact hThrough (.other own) hInside _ _ _ hAgrees hItem
  · exact hThrough (.object id) hInside _ _ _ hAgrees hItem

theorem appendEntry_appends
    {entry : Value × Option Value}
    (hKey : Inside Kept (some entry.1))
    (hValue : Inside Kept entry.2) :
    Appends heap Kept (appendEntry call entry)
      (entryText elem entry) := by
  intro state ok state' hAgrees hItem
  unfold appendEntry at hItem
  rcases hFirst :
    appendOP call .OP_STR (some entry.1) state with ⟨okKey, mid⟩
  rcases
    appendOP_appends hCall hString .OP_STR hKey _ _ _ hAgrees
      hFirst with
    ⟨hKeepsKey, hAddsKey⟩
  rw [hFirst] at hItem
  cases okKey with
  | false =>
      rcases hItem with ⟨⟩
      exact ⟨hKeepsKey, fun hOk => by cases hOk⟩
  | true =>
      have hKeepsColon :=
        hKeepsKey.trans (Keeps.append mid " : ")
      rcases
        appendOP_appends hCall hString .OP_STR hValue _ _ _
          (hKeepsColon.agrees hAgrees) hItem with
        ⟨hKeeps, hAdds⟩
      apply And.intro (hKeepsColon.trans hKeeps)
      intro hOk hCalm
      rcases hAddsKey rfl (hKeeps.calm hCalm) with
        ⟨key, hText, hBuf⟩
      rcases hAdds hOk hCalm with ⟨value, hText', hBuf'⟩
      apply Exists.intro (key ++ " : " ++ value)
      constructor
      · rw [entryText, hText, hText']
        rfl
      · rw [hBuf', State.append, hBuf, String.append_assoc,
          String.append_assoc, String.append_assoc]

end Elements

----
-- Loops
----

/- What a loop adds, from an index on. -/
def eachText
    (sep : String)
    (i : Nat)
    (texts : List String) : String :=
  if 0 < i ∧ texts ≠ [] then
    sep ++ sep.intercalate texts
  else
    sep.intercalate texts

theorem eachText_zero
    (sep : String)
    (texts : List String) :
    eachText sep 0 texts = sep.intercalate texts := by
  simp [eachText]

theorem eachText_cons
    (sep : String)
    (i : Nat)
    (text : String)
    (texts : List String) :
    eachText sep i (text :: texts) =
      (if 0 < i then sep else "") ++ text ++
        eachText sep (i + 1) texts := by
  cases texts with
  | nil =>
      by_cases hPos : 0 < i
      · simp [eachText, hPos]
      · simp [eachText, hPos]
  | cons next texts =>
      by_cases hPos : 0 < i
      · simp [eachText, hPos, String.append_assoc]
      · simp [eachText, hPos, String.append_assoc]

section Loops

variable {α : Type}
variable {values : List α}
variable {item : Nat → State → Bool × State}
variable {text : α → Option String}
variable
  (hItem :
    ∀ i value,
      values[i]? = some value →
        Appends heap Kept (item i) (text value))

include hItem

/- By induction on the items that are left. -/
theorem appendEach_appends
    (sep : String)
    {i left : Nat}
    (hLeft : i + left = values.length) :
    ∀ state ok state',
      Agrees heap Kept state →
      appendEach sep item i left state = (ok, state') →
        Keeps Kept state state' ∧
          (ok = true →
            Undisturbed state' →
              ∃ texts,
                (values.drop i).mapM text = some texts ∧
                  state'.toStrBuf =
                    state.toStrBuf ++ eachText sep i texts) := by
  induction left generalizing i with
  | zero =>
      intro state ok state' _ hLoop
      rcases hLoop with ⟨⟩
      apply And.intro (Keeps.refl _)
      intro _ _
      refine ⟨[], ?_, by simp [eachText]⟩
      rw [List.drop_of_length_le (by omega)]
      rfl
  | succ left ih =>
      intro state ok state' hAgrees hLoop
      have hLt : i < values.length := by
        omega
      rw [appendEach] at hLoop
      have hBefore :
          Keeps Kept state
              (if 0 < i then state.append sep else state) ∧
            (if 0 < i then state.append sep
                else state).toStrBuf =
              state.toStrBuf ++ (if 0 < i then sep else "") := by
        by_cases hPos : 0 < i
        · rw [if_pos hPos, if_pos hPos]
          exact ⟨Keeps.append _ _, rfl⟩
        · rw [if_neg hPos, if_neg hPos]
          exact ⟨Keeps.refl _, by simp⟩
      generalize
        (if 0 < i then state.append sep else state) = begun
        at hLoop hBefore
      rcases hBefore with ⟨hKeepsSep, hBufSep⟩
      rcases hResult : item i begun with ⟨okItem, mid⟩
      rcases
        hItem i _ (List.getElem?_eq_getElem hLt) _ _ _
          (hKeepsSep.agrees hAgrees) hResult with
        ⟨hKeepsItem, hAdds⟩
      have hKeepsHead := hKeepsSep.trans hKeepsItem
      rw [hResult] at hLoop
      cases okItem with
      | false =>
          rcases hLoop with ⟨⟩
          exact ⟨hKeepsHead, fun hOk => by cases hOk⟩
      | true =>
          rcases
            ih (i := i + 1) (by omega) mid _ _
              (hKeepsHead.agrees hAgrees) hLoop with
            ⟨hKeepsRest, hRest⟩
          apply And.intro (hKeepsHead.trans hKeepsRest)
          intro hOk hCalm
          rcases hAdds rfl (hKeepsRest.calm hCalm) with
            ⟨added, hText, hBuf⟩
          rcases hRest hOk hCalm with ⟨texts, hTexts, hBuf'⟩
          apply Exists.intro (added :: texts)
          constructor
          · rw [List.drop_eq_getElem_cons hLt, List.mapM_cons,
              hText, hTexts]
            rfl
          · rw [hBuf', hBuf, hBufSep, eachText_cons,
              String.append_assoc, String.append_assoc,
              String.append_assoc]

/- A whole loop, with what stands around it. -/
theorem enclosed_appends
    (first last sep : String) :
    Appends heap Kept
      (fun state =>
        thenAppend
          (appendEach sep item 0 values.length
            (state.append first)) last)
      ((values.mapM text).map
        (fun texts => first ++ sep.intercalate texts ++ last)) := by
  intro state ok state' hAgrees hResult
  have hFirst : Keeps Kept state (state.append first) :=
    Keeps.append state first
  rcases hLoop :
    appendEach sep item 0 values.length (state.append first) with
    ⟨okLoop, mid⟩
  rcases
    appendEach_appends hItem sep (Nat.zero_add _) _ _ _
      (hFirst.agrees hAgrees) hLoop with
    ⟨hKeepsLoop, hAdds⟩
  have hKeeps := hFirst.trans hKeepsLoop
  simp only [hLoop] at hResult
  cases okLoop with
  | false =>
      rcases hResult with ⟨⟩
      exact ⟨hKeeps, fun hOk => by cases hOk⟩
  | true =>
      rcases hResult with ⟨⟩
      apply And.intro (hKeeps.trans (Keeps.append mid last))
      intro _ hCalm
      rcases hAdds rfl hCalm with ⟨texts, hTexts, hBuf⟩
      rw [List.drop_zero] at hTexts
      refine
        ⟨first ++ sep.intercalate texts ++ last,
          by rw [hTexts]; rfl, ?_⟩
      rw [State.append, hBuf, State.append, eachText_zero,
        String.append_assoc, String.append_assoc,
        String.append_assoc]

theorem open_appends (sep : String) :
    Appends heap Kept
      (appendEach sep item 0 values.length)
      ((values.mapM text).map sep.intercalate) := by
  intro state ok state' hAgrees hLoop
  rcases
    appendEach_appends hItem sep (Nat.zero_add _) _ _ _ hAgrees
      hLoop with
    ⟨hKeeps, hAdds⟩
  apply And.intro hKeeps
  intro hOk hCalm
  rcases hAdds hOk hCalm with ⟨texts, hTexts, hBuf⟩
  rw [List.drop_zero] at hTexts
  rw [eachText_zero] at hBuf
  exact ⟨_, by rw [hTexts]; rfl, hBuf⟩

end Loops

----
-- Objects
----

section Objects

variable {call : Call}
variable {elem : Op → Option Value → Option String}
variable (hClosed : Closed heap Kept)
variable (hCall : CallSound heap Kept call elem)
variable
  (hString : ∀ op text, elem op (some (.string text)) = some text)
variable {id : Nat}
variable (hId : Kept id)

include hClosed hCall hString hId

/- The object is still the one the loop began with. -/
theorem appendElement_appends
    (op : Op)
    (i : Nat)
    (value : Option Value)
    (hValue : (heap id).elements[i]? = some value) :
    Appends heap Kept (appendElement call op id i)
      (elem op value) := by
  intro state ok state' hAgrees hItem
  have hInside : Inside Kept value := by
    rintro other rfl
    exact
      hClosed id hId other
        (Or.inl (List.mem_of_getElem? hValue))
  unfold appendElement at hItem
  rw [hAgrees id hId, hValue] at hItem
  exact
    appendOP_appends hCall hString op hInside _ _ _ hAgrees hItem

theorem mapElement_appends
    (i : Nat)
    (entry : Value × Option Value)
    (hEntry : (heap id).entries[i]? = some entry) :
    Appends heap Kept (MapObject.element call id (heap id) i)
      (entryText elem entry) := by
  intro state ok state' hAgrees hItem
  have hMem := List.mem_of_getElem? hEntry
  have hKey : Inside Kept (some entry.1) := by
    intro other hOther
    exact
      hClosed id hId other
        (Or.inr ⟨entry, hMem, Or.inl (Option.some.inj hOther)⟩)
  have hValue : Inside Kept entry.2 := by
    intro other hOther
    exact
      hClosed id hId other (Or.inr ⟨entry, hMem, Or.inr hOther⟩)
  unfold MapObject.element at hItem
  rw [if_pos (hAgrees id hId), hEntry] at hItem
  exact
    appendEntry_appends hCall hString hKey hValue _ _ _ hAgrees
      hItem

omit hId in
/- An object given as an array, a map or a tuple. -/
theorem opStr_appends
    {value : Value}
    (hInside : Inside Kept (some value)) :
    Appends heap Kept (DSValue.opStr call value)
      (valueText heap elem .OP_STR value) := by
  intro state ok state' hAgrees hItem
  unfold DSValue.opStr at hItem
  cases value with
  | string text | other text =>
      rcases hItem with ⟨⟩
      exact ⟨Keeps.append _ _, fun _ _ => ⟨text, rfl, rfl⟩⟩
  | object id =>
      have hId := hInside id rfl
      have hSame := hAgrees id hId
      have hElements :=
        appendElement_appends hClosed hCall hString hId .OP_STR
      have hEntries :=
        mapElement_appends hClosed hCall hString hId
      simp only [hSame] at hItem
      rw [valueText]
      cases hObject : heap id with
      | array values =>
          simp only [hObject] at hItem hElements
          unfold ArrayObject.opStr appendElements State.append
            at hItem
          simp only [hSame, hObject] at hItem
          exact
            enclosed_appends hElements "[" "]" ", " _ _ _ hAgrees
              hItem
      | map entries =>
          simp only [hObject] at hItem hEntries
          unfold MapObject.opStr at hItem
          simp only [hSame, hObject] at hItem
          exact
            enclosed_appends hEntries "[" "]" ", " _ _ _ hAgrees
              hItem
      | tuple fields =>
          simp only [hObject] at hItem hElements
          unfold BaseObject.opStrAsTuple appendElements
            State.append at hItem
          simp only [hSame, hObject] at hItem
          exact
            enclosed_appends hElements "(" (tupleEnd fields.length)
              ", " _ _ _ hAgrees hItem

omit hId in
theorem opInterp_appends
    {value : Value}
    (hInside : Inside Kept (some value)) :
    Appends heap Kept (DSValue.opInterp call value)
      (valueText heap elem .OP_INTERP value) := by
  intro state ok state' hAgrees hItem
  have hStr := opStr_appends hClosed hCall hString hInside
  unfold DSValue.opInterp at hItem
  cases value with
  | string text => exact hStr _ _ _ hAgrees hItem
  | other text => exact hStr _ _ _ hAgrees hItem
  | object id =>
      have hId := hInside id rfl
      have hSame := hAgrees id hId
      have hElements :=
        appendElement_appends hClosed hCall hString hId .OP_INTERP
      simp only [hSame] at hItem
      rw [valueText]
      cases hObject : heap id with
      | array values =>
          simp only [hObject] at hItem hElements
          unfold ArrayObject.opInterp appendElements at hItem
          simp only [hSame, hObject] at hItem
          exact open_appends hElements " " _ _ _ hAgrees hItem
      | map entries =>
          simp only [hObject] at hItem
          have hMap := hStr _ _ _ hAgrees hItem
          simp only [valueText, hObject] at hMap
          exact hMap
      | tuple fields =>
          simp only [hObject] at hItem hElements
          unfold BaseObject.opInterpAsTuple appendElements at hItem
          simp only [hSame, hObject] at hItem
          exact open_appends hElements " " _ _ _ hAgrees hItem

end Objects

end Render

end Ydsh
