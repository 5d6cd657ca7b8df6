import Ydsh.Render.Appending

/-
  When every conversion starts and ends with an empty buffer.

  A join that meets an absent element after it has appended
  something leaves text in the buffer, and a signal handler that
  is started while a value is converted finds text there, or
  changes what is converted.  Everything else is exact.

  Main declarations:
    * `callMethod_sound`
    * `perform_good`
    * `checkVMEvent_sound`
    * `buffer_of_calm`
-/

----
-- Native Methods
----

namespace Ydsh

namespace Render

variable {heap : Heap}
variable {Kept : Nat → Prop}

theorem elemText_string
    (heap : Heap)
    (depth : Nat)
    (op : Op)
    (text : String) :
    elemText heap depth op (some (.string text)) = some text := by
  cases depth with
  | zero => rfl
  | succ depth => rfl

/- How the text that was added is handed back. -/
theorem ret_returns
    {state after state' : State}
    {ret : Ret}
    {text : Option String}
    {added : String}
    (hText : text = some added)
    (hBuf : after.toStrBuf = state.toStrBuf ++ added)
    (hRet : after.ret state.toStrBuf.isEmpty = (ret, state')) :
    Returns state ret state' text := by
  unfold State.ret at hRet
  by_cases hEmpty : state.toStrBuf.isEmpty = true
  · rw [if_pos hEmpty] at hRet
    rcases hRet with ⟨⟩
    have hNil : state.toStrBuf = "" :=
      String.isEmpty_iff.mp hEmpty
    constructor
    · rw [hText, hBuf, hNil, String.empty_append]
    · rw [hNil]
      rfl
  · rw [if_neg hEmpty] at hRet
    rcases hRet with ⟨⟩
    exact ⟨added, hText, hBuf⟩

theorem ret_keeps
    {state state' : State}
    {hasRet : Bool}
    {ret : Ret}
    (hRet : state.ret hasRet = (ret, state')) :
    Keeps Kept state state' := by
  unfold State.ret at hRet
  cases hasRet with
  | true =>
      rcases hRet with ⟨⟩
      exact Keeps.clear _
  | false =>
      rcases hRet with ⟨⟩
      exact Keeps.refl _

theorem ret_ne_error
    {state state' : State}
    {hasRet : Bool}
    {ret : Ret}
    (hRet : state.ret hasRet = (ret, state')) :
    ret ≠ .error := by
  unfold State.ret at hRet
  intro hError
  cases hasRet with
  | true | false =>
      rcases hRet with ⟨⟩
      cases hError

theorem ret_ne_invalid
    {state state' : State}
    {ret : Ret}
    (hRet : state.ret true = (ret, state')) :
    ret ≠ .invalid := by
  rcases hRet with ⟨⟩
  intro hEq
  cases hEq

/- The outcome of a native method on its receiver. -/
def Converts
    (heap : Heap)
    (Kept : Nat → Prop)
    (native : State → Ret × State)
    (text : Option String) : Prop :=
  ∀ state ret state',
    Agrees heap Kept state →
    native state = (ret, state') →
      Keeps Kept state state' ∧
        (Undisturbed state' →
          (ret = .error → state'.toStrBuf = "") ∧
            Returns state ret state' text)

theorem convert_converts
    {op : State → Bool × State}
    {text : Option String}
    (hOp : Appends heap Kept op text) :
    Converts heap Kept (convert op) text := by
  intro state ret state' hAgrees hConvert
  unfold convert at hConvert
  rcases hResult : op state with ⟨ok, after⟩
  rcases hOp _ _ _ hAgrees hResult with ⟨hKeeps, hAdds⟩
  rw [hResult] at hConvert
  cases ok with
  | false =>
      rcases hConvert with ⟨⟩
      exact
        ⟨hKeeps.trans (Keeps.clear after),
          fun _ => ⟨fun _ => rfl, trivial⟩⟩
  | true =>
      have hKeepsRet : Keeps Kept _ _ := ret_keeps hConvert
      apply And.intro (hKeeps.trans hKeepsRet)
      intro hCalm
      rcases hAdds rfl (hKeepsRet.calm hCalm) with
        ⟨added, hText, hBuf⟩
      exact
        ⟨fun hError => absurd hError (ret_ne_error hConvert),
          ret_returns hText hBuf hConvert⟩

theorem native_converts
    {call : Call}
    {elem : Op → Option Value → Option String}
    (hClosed : Closed heap Kept)
    (hCall : CallSound heap Kept call elem)
    (hString :
      ∀ op text, elem op (some (.string text)) = some text)
    (op : Op)
    {value : Value}
    (hInside : Inside Kept (some value)) :
    Converts heap Kept (native call op value)
      (valueText heap elem op value) := by
  cases op with
  | OP_STR =>
      exact
        convert_converts
          (opStr_appends hClosed hCall hString hInside)
  | OP_INTERP =>
      exact
        convert_converts
          (opInterp_appends hClosed hCall hString hInside)

----
-- Calls
----

/- A check for events that leaves buffer and objects as they
   were. -/
structure CheckSound
    (Kept : Nat → Prop)
    (check : State → Bool × State) : Prop where
  keeps : ∀ state, Keeps Kept state (check state).2
  same : ∀ state, (check state).2.toStrBuf = state.toStrBuf

theorem callMethod_sound
    {check : State → Bool × State}
    (hClosed : Closed heap Kept)
    (hCheck : CheckSound Kept check)
    (depth : Nat) :
    CallSound heap Kept (callMethod check depth)
      (elemText heap depth) := by
  induction depth with
  | zero =>
      intro op value state ret state' _ _ hCall
      rcases hCall with ⟨⟩
      exact ⟨Keeps.refl _, fun _ => trivial⟩
  | succ depth ih =>
      intro op value state ret state' hInside hAgrees hCall
      have hElem :
          elemText heap (depth + 1) op (some value) =
            valueText heap (elemText heap depth) op value := by
        cases value with
        | string text => rfl
        | other text => rfl
        | object id => rfl
      rw [hElem]
      unfold callMethod at hCall
      have hKeepsBegin := hCheck.keeps state
      have hSameBegin := hCheck.same state
      rcases hBegin : check state with ⟨okBegin, begun⟩
      rw [hBegin] at hCall hKeepsBegin hSameBegin
      cases okBegin with
      | false =>
          rcases hCall with ⟨⟩
          exact ⟨hKeepsBegin, fun _ => trivial⟩
      | true =>
          rcases hNative :
            native (callMethod check depth) op value begun with
            ⟨own, done⟩
          rcases
            native_converts hClosed ih (elemText_string heap depth)
              op hInside begun own done
              (hKeepsBegin.agrees hAgrees) hNative with
            ⟨hKeepsNative, hReturns⟩
          have hKeepsDone := hKeepsBegin.trans hKeepsNative
          have hKeepsEnd := hCheck.keeps done
          have hSameEnd := hCheck.same done
          rcases hEnd : check done with ⟨okEnd, ended⟩
          rw [hEnd] at hKeepsEnd hSameEnd
          have hKeepsAll := hKeepsDone.trans hKeepsEnd
          simp only [hNative] at hCall
          cases own with
          | error =>
              rcases hCall with ⟨⟩
              exact ⟨hKeepsDone, fun _ => trivial⟩
          | invalid =>
              simp only [hEnd] at hCall
              cases okEnd with
              | false =>
                  rcases hCall with ⟨⟩
                  exact ⟨hKeepsAll, fun _ => trivial⟩
              | true =>
                  rcases hCall with ⟨⟩
                  apply And.intro hKeepsAll
                  intro hCalm
                  rcases hReturns (hKeepsEnd.calm hCalm) with
                    ⟨_, added, hText, hAdded⟩
                  refine ⟨added, hText, ?_⟩
                  rw [hSameEnd, hAdded, hSameBegin]
          | value text =>
              simp only [hEnd] at hCall
              cases okEnd with
              | false =>
                  rcases hCall with ⟨⟩
                  exact ⟨hKeepsAll, fun _ => trivial⟩
              | true =>
                  rcases hCall with ⟨⟩
                  apply And.intro hKeepsAll
                  intro hCalm
                  rcases hReturns (hKeepsEnd.calm hCalm) with
                    ⟨_, hText, hSame⟩
                  refine ⟨hText, ?_⟩
                  rw [hSameEnd, hSame, hSameBegin]

----
-- Joins
----

theorem meetAbsent_keeps (state : State) :
    Keeps Kept state state.meetAbsent where
  entries := rfl
  heap := fun _ _ => rfl
  calm := fun hCalm text hMem =>
    hCalm text (List.mem_append_left _ hMem)

theorem meetAbsent_empty
    {state : State}
    (hCalm : Undisturbed state.meetAbsent) :
    state.toStrBuf = "" :=
  hCalm _ (List.mem_append_right _ (List.mem_singleton.mpr rfl))

section Joins

variable {call : Call}
variable {depth : Nat}
variable (hClosed : Closed heap Kept)
variable (hCall : CallSound heap Kept call (elemText heap depth))

include hClosed hCall

theorem joinItem_appends
    {value : Option Value}
    (hInside : Inside Kept value) :
    Appends heap Kept (joinItem call value)
      (joinedText heap depth value) := by
  intro state ok state' hAgrees hItem
  unfold joinItem at hItem
  cases value with
  | none =>
      rcases hItem with ⟨⟩
      exact ⟨meetAbsent_keeps state, fun hOk => by cases hOk⟩
  | some value =>
      rcases hResult : DSValue.opStr call value state with
        ⟨okItem, mid⟩
      rcases
        opStr_appends hClosed hCall (elemText_string heap depth)
          hInside _ _ _ hAgrees hResult with
        ⟨hKeeps, hAdds⟩
      simp only [hResult] at hItem
      cases okItem with
      | false =>
          rcases hItem with ⟨⟩
          exact
            ⟨hKeeps.trans (Keeps.clear mid),
              fun hOk => by cases hOk⟩
      | true =>
          rcases hItem with ⟨⟩
          exact ⟨hKeeps, hAdds⟩

theorem joinElement_appends
    {id : Nat}
    (hId : Kept id)
    (i : Nat)
    (value : Option Value)
    (hValue : (heap id).elements[i]? = some value) :
    Appends heap Kept (joinElement call id (heap id) i)
      (joinedText heap depth value) := by
  intro state ok state' hAgrees hItem
  have hInside : Inside Kept value := by
    rintro other rfl
    exact
      hClosed id hId other
        (Or.inl (List.mem_of_getElem? hValue))
  unfold joinElement at hItem
  rw [if_pos (hAgrees id hId), hValue] at hItem
  exact
    joinItem_appends hClosed hCall hInside _ _ _ hAgrees hItem

end Joins

/- A join that fails and is not disturbed leaves nothing. -/
theorem joinItem_false
    {call : Call}
    {value : Option Value}
    {state state' : State}
    (hItem : joinItem call value state = (false, state'))
    (hCalm : Undisturbed state') :
    state'.toStrBuf = "" := by
  unfold joinItem at hItem
  cases value with
  | none =>
      rcases hItem with ⟨⟩
      have hEmpty : state.toStrBuf = "" := meetAbsent_empty hCalm
      exact hEmpty
  | some value =>
      rcases hResult : DSValue.opStr call value state with
        ⟨okItem, mid⟩
      simp only [hResult] at hItem
      cases okItem with
      | false =>
          rcases hItem with ⟨⟩
          rfl
      | true => cases hItem

/- By induction on the items that are left: the array is there
   and each of its elements is read. -/
theorem joinLoop_false
    {call : Call}
    {depth id : Nat}
    (hClosed : Closed heap Kept)
    (hCall : CallSound heap Kept call (elemText heap depth))
    (hId : Kept id)
    (delim : String)
    {i left : Nat}
    (hLeft : i + left = (heap id).elements.length)
    {state state' : State}
    (hAgrees : Agrees heap Kept state)
    (hLoop :
      appendEach delim (joinElement call id (heap id)) i left
          state =
        (false, state'))
    (hCalm : Undisturbed state') :
    state'.toStrBuf = "" := by
  induction left generalizing i state with
  | zero => cases hLoop
  | succ left ih =>
      have hLt : i < (heap id).elements.length := by
        omega
      have hValue := List.getElem?_eq_getElem hLt
      rw [appendEach] at hLoop
      have hBegun :
          Agrees heap Kept
            (if 0 < i then state.append delim else state) := by
        split
        · exact (Keeps.append state delim).agrees hAgrees
        · exact hAgrees
      generalize
        (if 0 < i then state.append delim else state) = begun
        at hLoop hBegun
      rcases hResult :
        joinElement call id (heap id) i begun with ⟨ok, mid⟩
      have hKeeps :=
        (joinElement_appends hClosed hCall hId i _ hValue _ _ _
          hBegun hResult).1
      rw [hResult] at hLoop
      cases ok with
      | true =>
          exact ih (by omega) (hKeeps.agrees hBegun) hLoop
      | false =>
          rcases hLoop with ⟨⟩
          unfold joinElement at hResult
          rw [if_pos (hBegun id hId), hValue] at hResult
          exact joinItem_false hResult hCalm

----
-- Requests
----

theorem run_converts
    {call : Call}
    {depth : Nat}
    (hClosed : Closed heap Kept)
    (hCall : CallSound heap Kept call (elemText heap depth))
    {request : Request}
    (hInside : Inside Kept (some request.operand)) :
    Converts heap Kept (request.run call)
      (request.text heap depth) := by
  have hString := elemText_string heap depth
  cases request with
  | toStr value =>
      exact
        convert_converts
          (opStr_appends hClosed hCall hString hInside)
  | toInterp value =>
      exact
        convert_converts
          (opInterp_appends hClosed hCall hString hInside)
  | join id delim =>
      intro state ret state' hAgrees hRun
      have hId : Kept id := hInside id rfl
      have hItems := joinElement_appends hClosed hCall hId
      unfold Request.run array_join at hRun
      simp only [hAgrees id hId] at hRun
      rcases hLoop :
        appendEach delim (joinElement call id (heap id)) 0
          (heap id).elements.length state with ⟨ok, after⟩
      rcases open_appends hItems delim _ _ _ hAgrees hLoop with
        ⟨hKeeps, hAdds⟩
      simp only [hLoop] at hRun
      cases ok with
      | false =>
          rcases hRun with ⟨⟩
          apply And.intro hKeeps
          intro hCalm
          refine ⟨fun _ => ?_, trivial⟩
          exact
            joinLoop_false hClosed hCall hId delim
              (Nat.zero_add _) hAgrees hLoop hCalm
      | true =>
          have hKeepsRet : Keeps Kept _ _ := ret_keeps hRun
          apply And.intro (hKeeps.trans hKeepsRet)
          intro hCalm
          rcases hAdds rfl (hKeepsRet.calm hCalm) with
            ⟨added, hText, hBuf⟩
          exact
            ⟨fun hError => absurd hError (ret_ne_error hRun),
              ret_returns hText hBuf hRun⟩

/- A request that finds the buffer empty leaves it empty. -/
theorem outermost_returns
    {state state' : State}
    {ret : Ret}
    {text : Option String}
    (hEmpty : state.toStrBuf = "")
    (hError : ret = .error → state'.toStrBuf = "")
    (hReturns : Returns state ret state' text)
    (hInvalid : ret ≠ .invalid) :
    state'.toStrBuf = "" ∧
      (ret = .error ∨
        ∃ own, ret = .value own ∧ text = some own) := by
  cases ret with
  | error => exact ⟨hError rfl, Or.inl rfl⟩
  | invalid => exact absurd rfl hInvalid
  | value own =>
      rcases hReturns with ⟨hText, hSame⟩
      rw [hSame]
      exact ⟨hEmpty, Or.inr ⟨own, rfl, hText⟩⟩

theorem run_ne_invalid
    {call : Call}
    {request : Request}
    {state state' : State}
    {ret : Ret}
    (hEmpty : state.toStrBuf = "")
    (hRun : request.run call state = (ret, state')) :
    ret ≠ .invalid := by
  have hNil : state.toStrBuf.isEmpty = true :=
    String.isEmpty_iff.mpr hEmpty
  have hConvert :
      ∀ op : State → Bool × State,
        convert op state = (ret, state') → ret ≠ .invalid := by
    intro op hConvert
    unfold convert at hConvert
    rcases hResult : op state with ⟨ok, after⟩
    simp only [hResult, hNil] at hConvert
    cases ok with
    | false =>
        rcases hConvert with ⟨⟩
        intro hEq
        cases hEq
    | true => exact ret_ne_invalid hConvert
  cases request with
  | toStr value => exact hConvert _ hRun
  | toInterp value => exact hConvert _ hRun
  | join id delim =>
      unfold Request.run array_join at hRun
      rcases hResult :
        appendEach delim (joinElement call id (state.heap id)) 0
          (state.heap id).elements.length state with ⟨ok, after⟩
      simp only [hResult, hNil] at hRun
      cases ok with
      | false =>
          rcases hRun with ⟨⟩
          intro hEq
          cases hEq
      | true => exact ret_ne_invalid hRun

----
-- Conversions
----

/- A conversion that finds the buffer empty is exact. -/
theorem perform_good
    {check : State → Bool × State}
    (hClosed : Closed heap Kept)
    (hCheck : CheckSound Kept check)
    (depth : Nat)
    {request : Request}
    (hInside : Inside Kept (some request.operand))
    (state : State)
    (hHeap : state.heap = heap)
    (hEmpty : Undisturbed state → state.toStrBuf = "")
    (hCalm : Undisturbed (perform check depth request state)) :
    Undisturbed state ∧
      (perform check depth request state).toStrBuf = "" ∧
        (AllGood state →
          AllGood (perform check depth request state)) := by
  have hAgrees : Agrees heap Kept state :=
    fun id _ => congrFun hHeap id
  have hCall := callMethod_sound hClosed hCheck depth
  unfold perform at hCalm ⊢
  rcases hRun : request.run (callMethod check depth) state with
    ⟨ret, after⟩
  rcases
    run_converts hClosed hCall hInside state ret after hAgrees
      hRun with
    ⟨hKeeps, hReturns⟩
  rw [hRun] at hCalm
  have hBegan : Undisturbed state := hKeeps.calm hCalm
  have hBefore := hEmpty hBegan
  rcases hReturns hCalm with ⟨hError, hText⟩
  rcases
    outermost_returns hBefore hError hText
      (run_ne_invalid hBefore hRun) with
    ⟨hAfter, hRet⟩
  refine ⟨hBegan, hAfter, ?_⟩
  intro hGood entry hMem
  rcases List.mem_append.mp hMem with hOld | hNew
  · rw [hKeeps.entries] at hOld
    exact hGood entry hOld
  · rw [List.mem_singleton.mp hNew]
    refine ⟨hBefore, hAfter, ?_⟩
    rcases hRet with hError | ⟨text, hValue, hText⟩
    · exact Or.inl hError
    · refine Or.inr ⟨text, hValue, depth, ?_⟩
      rw [hHeap]
      exact hText

----
-- Events
----

/- A handler that only changes other objects. -/
theorem handle_keeps
    (events : Nat → Event)
    {actions : List Action}
    (hActions :
      ∀ action ∈ actions,
        ∃ id object, action = .change id object ∧ ¬ Kept id)
    (state : State) :
    Keeps Kept state (handle events actions state) ∧
      (handle events actions state).toStrBuf =
        state.toStrBuf := by
  induction actions generalizing state with
  | nil => exact ⟨Keeps.refl _, rfl⟩
  | cons action actions ih =>
      rcases hActions action List.mem_cons_self with
        ⟨id, object, rfl, hOther⟩
      rcases
        ih
          (fun action hMem =>
            hActions action (List.mem_cons_of_mem _ hMem))
          (state.change id object) with
        ⟨hKeeps, hSame⟩
      have hChange : Keeps Kept state (state.change id object) :=
        { entries := rfl
          heap := fun i hKept =>
            if_neg (fun hEq : i = id => hOther (hEq ▸ hKept))
          calm := fun hCalm => hCalm }
      exact ⟨hChange.trans hKeeps, hSame⟩

theorem checkVMEvent_sound
    {events : Nat → Event}
    (hEvents :
      ∀ n, ∀ action ∈ (events n).handled,
        ∃ id object, action = .change id object ∧ ¬ Kept id) :
    CheckSound Kept (checkVMEvent events) where
  keeps := by
    intro state
    have hTick : Keeps Kept state state.tick :=
      Keeps.of_same rfl rfl rfl
    exact
      hTick.trans (handle_keeps events (hEvents _) state.tick).1
  same := fun state =>
    (handle_keeps events (hEvents _) state.tick).2

----
-- Runs
----

theorem closed_reaches (value : Value) :
    Closed heap (Reaches heap value) :=
  fun _ hReaches _ hPart => .part hReaches hPart

theorem conversion_good
    {conversion : Conversion}
    (hCalm : conversion.Calm)
    {state : State}
    (hEmpty : Undisturbed state → state.toStrBuf = "")
    (hUndisturbed : Undisturbed (conversion.run state)) :
    Undisturbed state ∧
      (conversion.run state).toStrBuf = "" ∧
        (AllGood state → AllGood (conversion.run state)) := by
  have hInside :
      Inside
        (Reaches conversion.heap conversion.request.operand)
        (some conversion.request.operand) :=
    fun _ hOperand => .operand (Option.some.inj hOperand)
  exact
    perform_good (closed_reaches _) (checkVMEvent_sound hCalm)
      conversion.depth hInside
      { state with heap := conversion.heap, checks := 0 } rfl
      hEmpty hUndisturbed

theorem run_good
    {conversions : List Conversion}
    (hCalm : ∀ conversion ∈ conversions, conversion.Calm)
    {state : State}
    (hEmpty : Undisturbed state → state.toStrBuf = "")
    (hUndisturbed : Undisturbed (run conversions state)) :
    Undisturbed state ∧
      (AllGood state → AllGood (run conversions state)) := by
  induction conversions generalizing state with
  | nil => exact ⟨hUndisturbed, id⟩
  | cons conversion conversions ih =>
      have hFirst := hCalm conversion List.mem_cons_self
      have hRest :=
        ih
          (fun other hMem =>
            hCalm other (List.mem_cons_of_mem _ hMem))
          (fun hAfter =>
            (conversion_good hFirst hEmpty hAfter).2.1)
          hUndisturbed
      rcases conversion_good hFirst hEmpty hRest.1 with
        ⟨hBegan, _, hGood⟩
      exact ⟨hBegan, fun hAll => hRest.2 (hGood hAll)⟩

theorem init_allGood : AllGood State.init := by
  intro entry hMem
  cases hMem

/-
  In a run in which no join meets an absent element behind text
  and the handlers keep off what is converted, all conversions
  begin and end with an empty buffer and render their operands.
-/
theorem buffer_of_calm
    {conversions : List Conversion}
    (hCalm : ∀ conversion ∈ conversions, conversion.Calm)
    (hJoins : Undisturbed (run conversions State.init)) :
    AllGood (run conversions State.init) :=
  (run_good hCalm (fun _ => rfl) hJoins).2 init_allGood

/- A handler that clears another array while the first element
   of a nested array is converted. -/
def nested : Conversion where
  heap := fun id =>
    if id = 0 then
      .array [some (.object 1), some (.string "b")]
    else
      .array [some (.string "a")]
  depth := 2
  request := .join 0 ","
  events := fun _ =>
    { handled := [.change 2 (.array [])], fails := false }

theorem calm_nested : nested.Calm := by
  intro n action hMem
  refine ⟨2, .array [], List.mem_singleton.mp hMem, ?_⟩
  have hBelow :
      ∀ id, Reaches nested.heap nested.request.operand id →
        id < 2 := by
    intro id hReaches
    induction hReaches with
    | operand hOperand =>
        cases hOperand
        decide
    | @part id other _ hPart ih =>
        match id with
        | 0 =>
            rcases hPart with hElement | ⟨_, hEntry, _⟩
            · simp [nested, Object.elements] at hElement
              omega
            · cases hEntry
        | 1 =>
            rcases hPart with hElement | ⟨_, hEntry, _⟩
            · simp [nested, Object.elements] at hElement
            · cases hEntry
        | id + 2 => omega
  exact fun hReaches => absurd (hBelow 2 hReaches) (by decide)

theorem buffer_of_calm_nested :
    AllGood (run [nested, nested] State.init) :=
  buffer_of_calm
    (fun conversion hMem => by
      simp only [List.mem_cons, List.not_mem_nil, or_false,
        or_self] at hMem
      rw [hMem]
      exact calm_nested)
    (fun text hMem => by cases hMem)

/- A join that fails after it has appended its first element. -/
def lostJoin : Conversion where
  heap := fun _ => .array [some (.string "a"), none]
  depth := 1
  request := .join 0 ","
  events := fun _ => { handled := [], fails := false }

theorem not_buffer_join :
    ¬ AllGood (run [lostJoin] State.init) := by
  intro hGood
  have hMem :
      (⟨lostJoin.heap, lostJoin.request, "", .error, "a,"⟩ :
          Entry) ∈
        (run [lostJoin] State.init).entries := by
    exact List.mem_singleton.mpr rfl
  have hAfter : "a," = "" := (hGood _ hMem).after
  exact absurd hAfter (by decide)

end Render

end Ydsh
