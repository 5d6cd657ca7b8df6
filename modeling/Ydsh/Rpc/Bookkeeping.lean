import Ydsh.Rpc.Conversation

/-
  The map of the callbacks keeps up with the history.

  A call is in the map until a response with its id is handled.

  Main declarations:
    * `Bookkept`
    * `Bookkept.call`
    * `Bookkept.response`
-/

----
-- Histories
----

namespace Ydsh

namespace Rpc

open Json (JSON)

variable {δ κ : Type}
variable {meaning : List UInt8 → Option (JSON δ)}
variable {source : List UInt8}

@[simp]
theorem sources_concat_message
    (history : List (Event κ))
    (source : List UInt8) :
    sources (history ++ [.message source]) =
      sources history ++ [source] :=
  List.filterMap_append

@[simp]
theorem sources_concat_call
    (history : List (Event κ))
    (id : Int)
    (entry : Entry κ) :
    sources (history ++ [.call id entry]) = sources history := by
  unfold sources
  rw [List.filterMap_append]
  exact List.append_nil _

/- The last event is the one split at, or is after it. -/
theorem concat_split
    {α : Type}
    {xs before after : List α}
    {x e : α}
    (hEq : xs ++ [e] = before ++ x :: after) :
    (after = [] ∧ xs = before ∧ e = x) ∨
      ∃ after', after = after' ++ [e] ∧
        xs = before ++ x :: after' := by
  rcases List.eq_nil_or_concat after with rfl | ⟨start, last, rfl⟩
  · left
    rcases List.append_inj' hEq rfl with ⟨hXs, hLast⟩
    exact ⟨rfl, hXs, List.singleton_inj.mp hLast⟩
  · right
    rw [List.concat_eq_append] at hEq ⊢
    have hSplit :
        before ++ x :: (start ++ [last]) =
          (before ++ x :: start) ++ [last] := by
      rw [List.append_assoc, List.cons_append]
    rw [hSplit] at hEq
    rcases List.append_inj' hEq rfl with ⟨hXs, hLast⟩
    rw [List.singleton_inj.mp hLast]
    exact ⟨start, rfl, hXs⟩

theorem Unanswered.concat
    {id : Int}
    {history : List (Event κ)}
    (hNone : Unanswered meaning id history)
    (hNot : ∀ res, ¬Carries meaning source id res) :
    Unanswered meaning id (history ++ [.message source]) := by
  intro other hMem
  rw [sources_concat_message, List.mem_append,
    List.mem_singleton] at hMem
  rcases hMem with hMem | rfl
  · exact hNone other hMem
  · exact hNot

/- A later event changes nothing unless it answers. -/
theorem InvokedBy.concat
    {id : Int}
    {entry : Entry κ}
    {after : List (Event κ)}
    {invoked : List (Invocation δ κ)}
    (hInvoked : InvokedBy meaning id entry after invoked)
    {event : Event κ}
    (hNot :
      invoked = [] →
      Unanswered meaning id after →
      Unanswered meaning id (after ++ [event])) :
    InvokedBy meaning id entry (after ++ [event]) invoked := by
  rcases hInvoked with ⟨hNone, hNil⟩ |
    ⟨earlier, first, later, res, rfl, hNone, hCarries, hOne⟩
  · exact .inl ⟨hNot hNil hNone, hNil⟩
  · right
    refine ⟨earlier, first, later ++ [event], res, ?_, hNone,
      hCarries, hOne⟩
    rw [List.append_assoc, List.cons_append]

theorem InvokedBy.concat_call
    {id : Int}
    {entry : Entry κ}
    {after : List (Event κ)}
    {invoked : List (Invocation δ κ)}
    (hInvoked : InvokedBy meaning id entry after invoked)
    (id' : Int)
    (entry' : Entry κ) :
    InvokedBy meaning id entry (after ++ [.call id' entry'])
      invoked := by
  refine hInvoked.concat fun _ hNone => ?_
  unfold Unanswered
  rw [sources_concat_call]
  exact hNone

/- A message that has another id, or comes later, changes
   nothing. -/
theorem InvokedBy.concat_message
    {id : Int}
    {entry : Entry κ}
    {after : List (Event κ)}
    {invoked : List (Invocation δ κ)}
    (hInvoked : InvokedBy meaning id entry after invoked)
    (hNot :
      invoked = [] → ∀ res, ¬Carries meaning source id res) :
    InvokedBy meaning id entry (after ++ [.message source])
      invoked :=
  hInvoked.concat fun hNil hNone => hNone.concat (hNot hNil)

/- The first message that has the id invokes the callback. -/
theorem InvokedBy.first
    {id : Int}
    {entry : Entry κ}
    {after : List (Event κ)}
    (hInvoked : InvokedBy meaning id entry after [])
    {res : Response δ}
    (hCarries : Carries meaning source id res) :
    InvokedBy meaning id entry (after ++ [.message source])
      [⟨id, entry, entry.respond res⟩] := by
  rcases hInvoked with ⟨hNone, _⟩ | ⟨_, _, _, _, _, _, _, hOne⟩
  · right
    exact ⟨after, source, [], res, rfl, hNone, hCarries, rfl⟩
  · cases hOne

----
-- Bookkeeping
----

/- The map holds the calls whose callback is not yet invoked. -/
structure Bookkept
    (meaning : List UInt8 → Option (JSON δ))
    (history : List (Event κ))
    (callbackMap : CallbackMap κ)
    (invoked : List (Invocation δ κ)) : Prop where
  index : 0 ≤ callbackMap.index
  ids :
    ∀ id entry, .call id entry ∈ history →
      0 < id ∧ id ≤ callbackMap.index
  keys :
    ∀ id entry, callbackMap.map.lookup id = some entry →
      .call id entry ∈ history
  once :
    ∀ before id entry after,
      history = before ++ .call id entry :: after →
        InvokedBy meaning id entry after
            (invocationsOf invoked id) ∧
          callbackMap.map.lookup id =
            if (invocationsOf invoked id).isEmpty then
              some entry
            else
              none
  noOther : ∀ i ∈ invoked, .call i.id i.entry ∈ history

theorem Bookkept.init :
    Bookkept meaning ([] : List (Event κ)) {} [] where
  index := Int.le_refl 0
  ids := by
    intro id entry hMem
    cases hMem
  keys := by
    intro id entry hLookup
    cases hLookup
  once := by
    intro before id entry after hEq
    cases before <;> cases hEq
  noOther := by
    intro i hMem
    cases hMem

section Bookkeeping

variable {history : List (Event κ)}
variable {callbackMap : CallbackMap κ}
variable {invoked : List (Invocation δ κ)}

theorem Bookkept.lookup_fresh
    (hKept : Bookkept meaning history callbackMap invoked)
    {id : Int}
    (hFresh : callbackMap.index < id) :
    callbackMap.map.lookup id = none := by
  cases hLookup : callbackMap.map.lookup id with
  | none => rfl
  | some entry =>
      have hLe := (hKept.ids id entry (hKept.keys id entry hLookup)).2
      omega

theorem Bookkept.invoked_fresh
    (hKept : Bookkept meaning history callbackMap invoked)
    {id : Int}
    (hFresh : callbackMap.index < id) :
    invocationsOf invoked id = [] := by
  unfold invocationsOf
  rw [List.filter_eq_nil_iff]
  intro i hMem hId
  have hLe := (hKept.ids _ _ (hKept.noOther i hMem)).2
  have hEq : i.id = id := eq_of_beq hId
  omega

/- A new call waits for its response. -/
theorem Bookkept.call
    (hKept : Bookkept meaning history callbackMap invoked)
    {entry : Entry κ}
    {found : Int × CallbackMap κ}
    (hAdd : callbackMap.add entry = some found) :
    Bookkept meaning (registered history found.1 entry) found.2
      invoked := by
  have hIndex := hKept.index
  have hNone :
      callbackMap.map.lookup (callbackMap.index + 1) = none :=
    hKept.lookup_fresh (by omega)
  unfold CallbackMap.add at hAdd
  by_cases hLt : callbackMap.index < LONG_MAX
  · rw [if_pos hLt] at hAdd
    simp only [hNone, Option.isSome_none, Bool.false_eq_true,
      if_false, Option.some.injEq] at hAdd
    subst hAdd
    have hNonzero : callbackMap.index + 1 ≠ 0 := by omega
    unfold registered
    rw [if_neg hNonzero]
    constructor
    · show 0 ≤ callbackMap.index + 1
      omega
    · intro id entry' hMem
      show 0 < id ∧ id ≤ callbackMap.index + 1
      rw [List.mem_append, List.mem_singleton] at hMem
      rcases hMem with hMem | hEq
      · have hRange := hKept.ids id entry' hMem
        omega
      · cases hEq
        omega
    · intro id entry' hLookup
      rw [List.lookup_append] at hLookup
      rw [List.mem_append, List.mem_singleton]
      cases hOld : callbackMap.map.lookup id with
      | some old =>
          rw [hOld] at hLookup
          cases hLookup
          exact .inl (hKept.keys id _ hOld)
      | none =>
          rw [hOld, Option.none_or, List.lookup_cons] at hLookup
          by_cases hId : id = callbackMap.index + 1
          · rw [hId, beq_self_eq_true] at hLookup
            cases hLookup
            rw [hId]
            exact .inr rfl
          · rw [beq_false_of_ne hId] at hLookup
            cases hLookup
    · intro before id entry' after hEq
      rcases concat_split hEq with
        ⟨rfl, rfl, hLast⟩ | ⟨after', rfl, hHistory⟩
      · cases hLast
        have hNil :
            invocationsOf invoked (callbackMap.index + 1) = [] :=
          hKept.invoked_fresh (by omega)
        rw [hNil, List.lookup_append, hNone, Option.none_or]
        refine ⟨.inl ⟨?_, rfl⟩, ?_⟩
        · intro source hMem
          cases hMem
        · rw [List.lookup_cons, beq_self_eq_true]
          rfl
      · rcases hKept.once before id entry' after' hHistory with
          ⟨hInvoked, hLookup⟩
        refine ⟨hInvoked.concat_call _ _, ?_⟩
        have hMem : .call id entry' ∈ history := by
          rw [hHistory]
          exact List.mem_append_right _ List.mem_cons_self
        have hLe := (hKept.ids id entry' hMem).2
        have hNe : (id == callbackMap.index + 1) = false :=
          beq_false_of_ne (by omega)
        rw [List.lookup_append, hLookup, List.lookup_cons, hNe]
        exact Option.or_none
    · intro i hMem
      exact List.mem_append_left _ (hKept.noOther i hMem)
  · rw [if_neg hLt] at hAdd
    cases hAdd

theorem call_of_concat
    {id : Int}
    {entry : Entry κ}
    (hMem : .call id entry ∈ history ++ [.message source]) :
    .call id entry ∈ history := by
  rw [List.mem_append, List.mem_singleton] at hMem
  rcases hMem with hMem | hEq
  · exact hMem
  · cases hEq

/- A message that has no id of a call is of no account. -/
theorem Bookkept.silent
    (hKept : Bookkept meaning history callbackMap invoked)
    (hNot : ∀ id res, ¬Carries meaning source id res) :
    Bookkept meaning (history ++ [.message source]) callbackMap
      invoked := by
  constructor
  · exact hKept.index
  · intro id entry hMem
    exact hKept.ids id entry (call_of_concat hMem)
  · intro id entry hLookup
    exact List.mem_append_left _ (hKept.keys id entry hLookup)
  · intro before id entry after hEq
    rcases concat_split hEq with
      ⟨_, _, hLast⟩ | ⟨after', rfl, hHistory⟩
    · cases hLast
    · rcases hKept.once before id entry after' hHistory with
        ⟨hInvoked, hLookup⟩
      exact ⟨hInvoked.concat_message (fun _ => hNot id), hLookup⟩
  · intro i hMem
    exact List.mem_append_left _ (hKept.noOther i hMem)

theorem lookup_filter_ne
    {ν : Type}
    (entries : List (Int × ν))
    (id other : Int) :
    (entries.filter (fun e => e.1 != id)).lookup other =
      if other = id then none else entries.lookup other := by
  induction entries with
  | nil =>
      by_cases hEq : other = id
      · rw [if_pos hEq]
        rfl
      · rw [if_neg hEq]
        rfl
  | cons e entries ih =>
      by_cases hKey : e.1 = id
      · rw [List.filter_cons_of_neg (by simp [hKey]), ih]
        by_cases hEq : other = id
        · rw [if_pos hEq, if_pos hEq]
        · have hNe : (other == e.1) = false :=
            beq_false_of_ne (hKey ▸ hEq)
          rw [if_neg hEq, if_neg hEq, List.lookup_cons, hNe]
      · rw [List.filter_cons_of_pos (by simp [hKey]),
          List.lookup_cons, List.lookup_cons, ih]
        by_cases hEq : other = id
        · have hNe : (other == e.1) = false :=
            beq_false_of_ne (fun h => hKey (h ▸ hEq))
          rw [if_pos hEq, if_pos hEq, hNe]
        · rw [if_neg hEq, if_neg hEq]

@[simp]
theorem CallbackMap.take_fst
    (callbackMap : CallbackMap κ)
    (id : Int) :
    (callbackMap.take id).1 = callbackMap.map.lookup id := by
  unfold CallbackMap.take
  cases callbackMap.map.lookup id with
  | none => rfl
  | some entry => rfl

@[simp]
theorem CallbackMap.take_index
    (callbackMap : CallbackMap κ)
    (id : Int) :
    (callbackMap.take id).2.index = callbackMap.index := by
  unfold CallbackMap.take
  cases callbackMap.map.lookup id with
  | none => rfl
  | some entry => rfl

/- Only the entry of that id is taken away. -/
theorem CallbackMap.lookup_take
    (callbackMap : CallbackMap κ)
    (id other : Int) :
    (callbackMap.take id).2.map.lookup other =
      if other = id then
        none
      else
        callbackMap.map.lookup other := by
  unfold CallbackMap.take
  cases hLookup : callbackMap.map.lookup id with
  | some entry => exact lookup_filter_ne _ _ _
  | none =>
      by_cases hEq : other = id
      · rw [if_pos hEq, hEq]
        exact hLookup
      · rw [if_neg hEq]

/- What is invoked by a response with the id. -/
def invokedBy
    (callbackMap : CallbackMap κ)
    (id : Int)
    (res : Response δ) : List (Invocation δ κ) :=
  ((callbackMap.take id).1.map
    (fun entry => ⟨id, entry, entry.respond res⟩)).toList

theorem invocationsOf_append
    (id other : Int)
    (res : Response δ) :
    invocationsOf (invoked ++ invokedBy callbackMap id res)
        other =
      invocationsOf invoked other ++
        if other = id then invokedBy callbackMap id res else [] := by
  unfold invocationsOf invokedBy
  rw [List.filter_append]
  cases (callbackMap.take id).1 with
  | none =>
      by_cases hEq : other = id
      · rw [if_pos hEq]
        rfl
      · rw [if_neg hEq]
        rfl
  | some entry =>
      by_cases hEq : other = id
      · rw [if_pos hEq, hEq]
        simp
      · rw [if_neg hEq]
        have hNe : (id == other) = false :=
          beq_false_of_ne (Ne.symm hEq)
        simp [hNe]

/- A response takes the entry of its id. -/
theorem Bookkept.response
    (hKept : Bookkept meaning history callbackMap invoked)
    {res : Response δ}
    (hRes : MeansResponse meaning source res)
    {n : Int64}
    (hId : res.id = .long n) :
    Bookkept meaning (history ++ [.message source])
      (callbackMap.take n.toInt).2
      (invoked ++ invokedBy callbackMap n.toInt res) := by
  have hOther {id : Int} (hNe : id ≠ n.toInt) (res' : Response δ) :
      ¬Carries meaning source id res' := by
    rintro ⟨hRes', m, hM, rfl⟩
    rw [← hRes.unique hRes', hId] at hM
    injection hM with hM
    exact hNe (hM ▸ rfl)
  constructor
  · rw [CallbackMap.take_index]
    exact hKept.index
  · intro id entry hMem
    rw [CallbackMap.take_index]
    exact hKept.ids id entry (call_of_concat hMem)
  · intro id entry hLookup
    rw [CallbackMap.lookup_take] at hLookup
    by_cases hEq : id = n.toInt
    · rw [if_pos hEq] at hLookup
      cases hLookup
    · rw [if_neg hEq] at hLookup
      exact List.mem_append_left _ (hKept.keys id entry hLookup)
  · intro before id entry after hEq
    rcases concat_split hEq with
      ⟨_, _, hLast⟩ | ⟨after', rfl, hHistory⟩
    · cases hLast
    rcases hKept.once before id entry after' hHistory with
      ⟨hInvoked, hLookup⟩
    rw [invocationsOf_append, CallbackMap.lookup_take]
    by_cases hSame : id = n.toInt
    · rw [if_pos hSame, if_pos hSame]
      unfold invokedBy
      rw [CallbackMap.take_fst, ← hSame, hLookup]
      cases hNil : invocationsOf invoked id with
      | nil =>
          rw [hNil] at hInvoked
          exact
            ⟨hInvoked.first ⟨hRes, n, hId, hSame.symm⟩, rfl⟩
      | cons i rest =>
          rw [hNil] at hInvoked
          refine ⟨?_, rfl⟩
          apply InvokedBy.concat_message
          · simpa using hInvoked
          · intro hBad
            cases hBad
    · rw [if_neg hSame, if_neg hSame, List.append_nil]
      refine ⟨hInvoked.concat_message ?_, hLookup⟩
      intro _ res'
      exact hOther hSame res'
  · intro i hMem
    rw [List.mem_append] at hMem
    rcases hMem with hMem | hMem
    · exact List.mem_append_left _ (hKept.noOther i hMem)
    · unfold invokedBy at hMem
      rw [CallbackMap.take_fst, Option.mem_toList,
        Option.map_eq_some_iff] at hMem
      rcases hMem with ⟨entry, hLookup, rfl⟩
      exact List.mem_append_left _ (hKept.keys _ _ hLookup)

end Bookkeeping

end Rpc

end Ydsh
