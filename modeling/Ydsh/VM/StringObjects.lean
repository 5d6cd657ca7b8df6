import Mathlib.Data.List.Basic

/-
  Strings on the operand stack.

  A long string is an object, and a value refers to it.
  Concatenation changes the object of its left operand in
  place when no other reference to it is counted.

  Main declarations:
    * `concatAsStr`
    * `OpCode.run`
    * `concatAsStr_made`
    * `run_valid`
-/

----
-- Strings
----

namespace Ydsh

namespace Concat

abbrev Bytes := List UInt8

/- `StringObject::MAX_SIZE` -/
def MAX_SIZE : Nat := 0x7FFFFFFF

/- `smallStrSize(DSValueKind::SSTR14)` -/
def SMALL_SIZE : Nat := 14

/- A string is stored in the value or is an object. -/
inductive Value where
  | small (bytes : Bytes)
  | obj (id : Nat)
  deriving DecidableEq

/- `DSValueKind::SSTR0` -/
def emptyStr : Value :=
  .small []

/-
  The contents of the string objects, the constant pool, the
  variables, and the operand stack.
-/
structure Machine where
  heap : List Bytes
  consts : List Value
  globals : List Value
  stack : List Value

/- `asStrRef` -/
def content
    (heap : List Bytes) : Value → Bytes
  | .small bytes => bytes
  | .obj id => heap[id]?.getD []

def createStr
    (heap : List Bytes)
    (value : Bytes) : List Bytes × Value :=
  if value.length ≤ SMALL_SIZE then (heap, .small value)
  else (heap ++ [value], .obj heap.length)

/- Why an evaluation does not come to its end. -/
inductive Stop where
  | outOfRange
  | raised
  | fault
  deriving DecidableEq

def appendAsStr
    (heap : List Bytes)
    (left : Value)
    (value : Bytes) : Except Stop (List Bytes × Value) :=
  if (content heap left).length > MAX_SIZE - value.length then
    .error .outOfRange
  else
    match left with
    | .small bytes => .ok (createStr heap (bytes ++ value))
    | .obj id =>
        .ok (heap.set id (content heap left ++ value), left)

/- The references to an object, where `left` and `right` have
been popped. -/
def getRefcount
    (m : Machine)
    (left right : Value)
    (id : Nat) : Nat :=
  (m.consts ++ m.globals ++ m.stack ++ [left, right]).count
    (.obj id)

def concatAsStr
    (m : Machine)
    (left right : Value)
    (selfConcat : Bool) : Except Stop (List Bytes × Value) :=
  if right = emptyStr then .ok (m.heap, left)
  else if left = emptyStr then .ok (m.heap, right)
  else
    let copyCount := if selfConcat then 2 else 1
    match left with
    | .obj id =>
        if getRefcount m left right id > copyCount then
          let copy := createStr m.heap (content m.heap left)
          appendAsStr copy.1 copy.2 (content copy.1 right)
        else appendAsStr m.heap left (content m.heap right)
    | .small _ => appendAsStr m.heap left (content m.heap right)

inductive OpCode where
  | pushStr (bytes : { bytes : Bytes // bytes.length ≤ 3 })
  | loadConst (index : Nat)
  | loadGlobal (index : Nat)
  | storeGlobal (index : Nat)
  | concat
  | append

/- `CONCAT` and `APPEND` -/
def runConcat
    (m : Machine)
    (selfConcat : Bool) : Except Stop Machine :=
  match m.stack with
  | right :: left :: rest =>
      match
        concatAsStr { m with stack := rest } left right
          selfConcat
      with
      | .error stop => .error stop
      | .ok ret =>
          .ok { m with heap := ret.1, stack := ret.2 :: rest }
  | _ => .error .fault

def OpCode.run
    (m : Machine) : OpCode → Except Stop Machine
  | .pushStr bytes =>
      .ok { m with stack := .small bytes.1 :: m.stack }
  | .loadConst index =>
      match m.consts[index]? with
      | none => .error .fault
      | some value => .ok { m with stack := value :: m.stack }
  | .loadGlobal index =>
      match m.globals[index]? with
      | none => .error .fault
      | some value => .ok { m with stack := value :: m.stack }
  | .storeGlobal index =>
      match m.stack with
      | [] => .error .fault
      | value :: rest =>
          .ok
            { m with
              globals := m.globals.set index value
              stack := rest }
  | .concat => runConcat m false
  | .append => runConcat m true

----
-- Heaps
----

/- A value refers to an object that there is. -/
def IsIn (heap : List Bytes) : Value → Prop
  | .small bytes => bytes.length ≤ SMALL_SIZE
  | .obj id => id < heap.length

def Bounded (heap : List Bytes) : Prop :=
  ∀ bytes ∈ heap, bytes.length ≤ MAX_SIZE

/- Objects are only ever created, and their strings only
appended to. -/
def Grows (heap heap' : List Bytes) : Prop :=
  ∀ (id : Nat) (bytes : Bytes), heap[id]? = some bytes →
    ∃ more, heap'[id]? = some (bytes ++ more)

theorem Grows.refl (heap : List Bytes) : Grows heap heap := by
  intro id bytes hGet
  exact ⟨[], by simpa using hGet⟩

theorem Grows.trans
    {heap heap' heap'' : List Bytes}
    (hFirst : Grows heap heap')
    (hSecond : Grows heap' heap'') : Grows heap heap'' := by
  intro id bytes hGet
  rcases hFirst id bytes hGet with ⟨more, hMore⟩
  rcases hSecond id _ hMore with ⟨more', hMore'⟩
  exact ⟨more ++ more', by simpa using hMore'⟩

theorem Grows.isIn
    {heap heap' : List Bytes}
    {value : Value}
    (hGrows : Grows heap heap')
    (hIn : IsIn heap value) : IsIn heap' value := by
  cases value with
  | small bytes => exact hIn
  | obj id =>
      rcases hGrows id _ (List.getElem?_eq_getElem hIn)
        with ⟨more, hMore⟩
      exact (List.getElem?_eq_some_iff.1 hMore).1

theorem Grows.content
    {heap heap' : List Bytes}
    {value : Value}
    (hGrows : Grows heap heap')
    (hIn : IsIn heap value) :
    ∃ more,
      Concat.content heap' value =
        Concat.content heap value ++ more := by
  cases value with
  | small bytes => exact ⟨[], by simp [Concat.content]⟩
  | obj id =>
      have hGet := List.getElem?_eq_getElem hIn
      rcases hGrows id _ hGet with ⟨more, hMore⟩
      exact ⟨more, by simp [Concat.content, hGet, hMore]⟩

theorem grows_create
    (heap : List Bytes)
    (bytes : Bytes) : Grows heap (heap ++ [bytes]) := by
  intro id found hGet
  have hLt := (List.getElem?_eq_some_iff.1 hGet).1
  refine ⟨[], ?_⟩
  rw [List.getElem?_append_left hLt]
  simpa using hGet

theorem grows_append
    (heap : List Bytes)
    (id : Nat)
    (more : Bytes) :
    Grows heap
      (heap.set id (content heap (.obj id) ++ more)) := by
  intro index bytes hGet
  by_cases hEq : id = index
  · subst hEq
    have hLt := (List.getElem?_eq_some_iff.1 hGet).1
    have hBytes := Option.some.inj
      ((List.getElem?_eq_getElem hLt).symm.trans hGet)
    exact ⟨more, by simp [hLt, content, hBytes]⟩
  · refine ⟨[], ?_⟩
    rw [List.getElem?_set_ne hEq]
    simpa using hGet

theorem content_length
    {heap : List Bytes}
    {value : Value}
    (hBounded : Bounded heap)
    (hIn : IsIn heap value) :
    (content heap value).length ≤ MAX_SIZE := by
  cases value with
  | small bytes =>
      have hSmall : bytes.length ≤ SMALL_SIZE := hIn
      exact Nat.le_trans hSmall (by decide)
  | obj id =>
      have hGet := List.getElem?_eq_getElem hIn
      simpa [content, hGet] using
        hBounded _ (List.getElem_mem hIn)

----
-- Concatenation
----

/- A string has been made, and what there was has at most been
appended to. -/
structure Made
    (heap : List Bytes)
    (ret : List Bytes × Value)
    (bytes : Bytes) : Prop where
  bounded : Bounded ret.1
  grows : Grows heap ret.1
  isIn : IsIn ret.1 ret.2
  content : content ret.1 ret.2 = bytes

theorem createStr_made
    {heap : List Bytes}
    {value : Bytes}
    (hBounded : Bounded heap)
    (hLength : value.length ≤ MAX_SIZE) :
    Made heap (createStr heap value) value := by
  unfold createStr
  by_cases hSmall : value.length ≤ SMALL_SIZE
  · rw [if_pos hSmall]
    exact ⟨hBounded, Grows.refl heap, hSmall, rfl⟩
  · rw [if_neg hSmall]
    refine ⟨?_, grows_create heap value, ?_, ?_⟩
    · intro bytes hMem
      rcases List.mem_append.1 hMem with hOld | hNew
      · exact hBounded bytes hOld
      · rw [List.mem_singleton.1 hNew]
        exact hLength
    · simp [IsIn]
    · simp [content]

/- A new object changes no string that there is. -/
theorem createStr_content
    {heap : List Bytes}
    {other : Value}
    (value : Bytes)
    (hIn : IsIn heap other) :
    content (createStr heap value).1 other =
      content heap other := by
  unfold createStr
  by_cases hSmall : value.length ≤ SMALL_SIZE
  · rw [if_pos hSmall]
  · rw [if_neg hSmall]
    cases other with
    | small bytes => rfl
    | obj id =>
        have hLt : id < heap.length := hIn
        simp [content, List.getElem?_append_left hLt]

theorem appendAsStr_made
    {heap : List Bytes}
    {left : Value}
    {value : Bytes}
    {ret : List Bytes × Value}
    (hBounded : Bounded heap)
    (hIn : IsIn heap left)
    (hLength : value.length ≤ MAX_SIZE)
    (hRun : appendAsStr heap left value = .ok ret) :
    Made heap ret (content heap left ++ value) := by
  unfold appendAsStr at hRun
  by_cases hLong :
      (content heap left).length > MAX_SIZE - value.length
  · rw [if_pos hLong] at hRun
    exact nomatch hRun
  rw [if_neg hLong] at hRun
  have hFits :
      (content heap left ++ value).length ≤ MAX_SIZE := by
    rw [List.length_append]
    omega
  cases left with
  | small bytes =>
      obtain rfl := Except.ok.inj hRun
      exact createStr_made hBounded hFits
  | obj id =>
      obtain rfl := Except.ok.inj hRun
      refine ⟨?_, grows_append heap id value, ?_, ?_⟩
      · intro bytes hMem
        rcases List.mem_or_eq_of_mem_set hMem with hOld | rfl
        · exact hBounded bytes hOld
        · exact hFits
      · simpa [IsIn] using hIn
      · have hLt : id < heap.length := hIn
        simp [content, hLt]

theorem appendAsStr_error
    {heap : List Bytes}
    {left : Value}
    {value : Bytes}
    {stop : Stop}
    (hRun : appendAsStr heap left value = .error stop) :
    stop = .outOfRange ∧
      MAX_SIZE <
        (content heap left).length + value.length := by
  unfold appendAsStr at hRun
  by_cases hLong :
      (content heap left).length > MAX_SIZE - value.length
  · rw [if_pos hLong] at hRun
    exact ⟨(Except.error.inj hRun).symm, by omega⟩
  · rw [if_neg hLong] at hRun
    cases left with
    | small bytes => exact nomatch hRun
    | obj id => exact nomatch hRun

/-
  Whatever is copied, what is appended to is a value with the
  contents of the left operand, and the right operand's string
  is what it was.
-/
theorem concatAsStr_cases
    {m : Machine}
    {left right : Value}
    (selfConcat : Bool)
    (hBounded : Bounded m.heap)
    (hLeft : IsIn m.heap left)
    (hRight : IsIn m.heap right) :
    (∃ ret,
        concatAsStr m left right selfConcat = .ok ret ∧
        Made m.heap ret
          (content m.heap left ++ content m.heap right)) ∨
      ∃ target,
        concatAsStr m left right selfConcat =
            appendAsStr target.1 target.2
              (content m.heap right) ∧
          Made m.heap target (content m.heap left) := by
  have hKept :
      Made m.heap (m.heap, left) (content m.heap left) :=
    ⟨hBounded, Grows.refl m.heap, hLeft, rfl⟩
  unfold concatAsStr
  by_cases hRightEmpty : right = emptyStr
  · rw [if_pos hRightEmpty]
    refine Or.inl ⟨_, rfl, ?_⟩
    rw [hRightEmpty]
    simpa [content, emptyStr] using hKept
  rw [if_neg hRightEmpty]
  by_cases hLeftEmpty : left = emptyStr
  · rw [if_pos hLeftEmpty]
    refine Or.inl ⟨_, rfl, ?_⟩
    rw [hLeftEmpty]
    exact ⟨hBounded, Grows.refl m.heap, hRight, rfl⟩
  rw [if_neg hLeftEmpty]
  refine Or.inr ?_
  cases left with
  | small bytes => exact ⟨_, rfl, hKept⟩
  | obj id =>
      dsimp only
      by_cases hShared :
          getRefcount m (.obj id) right id >
            if selfConcat then 2 else 1
      · rw [if_pos hShared, createStr_content _ hRight]
        exact
          ⟨_, rfl,
            createStr_made hBounded
              (content_length hBounded hLeft)⟩
      · rw [if_neg hShared]
        exact ⟨_, rfl, hKept⟩

theorem concatAsStr_made
    {m : Machine}
    {left right : Value}
    {selfConcat : Bool}
    {ret : List Bytes × Value}
    (hBounded : Bounded m.heap)
    (hLeft : IsIn m.heap left)
    (hRight : IsIn m.heap right)
    (hRun : concatAsStr m left right selfConcat = .ok ret) :
    Made m.heap ret
      (content m.heap left ++ content m.heap right) := by
  rcases concatAsStr_cases selfConcat hBounded hLeft hRight
    with ⟨made, hMade, hContent⟩ | ⟨target, hTarget, hKept⟩
  · rw [hMade] at hRun
    obtain rfl := Except.ok.inj hRun
    exact hContent
  · rw [hTarget] at hRun
    have hAppended :=
      appendAsStr_made hKept.bounded hKept.isIn
        (content_length hBounded hRight) hRun
    rw [hKept.content] at hAppended
    exact
      ⟨hAppended.bounded, hKept.grows.trans hAppended.grows,
        hAppended.isIn, hAppended.content⟩

theorem concatAsStr_error
    {m : Machine}
    {left right : Value}
    {selfConcat : Bool}
    {stop : Stop}
    (hBounded : Bounded m.heap)
    (hLeft : IsIn m.heap left)
    (hRight : IsIn m.heap right)
    (hRun : concatAsStr m left right selfConcat = .error stop) :
    stop = .outOfRange ∧
      MAX_SIZE <
        (content m.heap left).length +
          (content m.heap right).length := by
  rcases concatAsStr_cases selfConcat hBounded hLeft hRight
    with ⟨made, hMade, hContent⟩ | ⟨target, hTarget, hKept⟩
  · rw [hMade] at hRun
    exact nomatch hRun
  · rw [hTarget] at hRun
    rw [← hKept.content]
    exact appendAsStr_error hRun

----
-- Validity
----

/- The literals of a program. -/
abbrev Str := { bytes : Bytes // bytes.length ≤ MAX_SIZE }

/-
  The references are to objects that there are, and a constant
  was made from its literal.
-/
structure Valid
    (pool : List Str)
    (m : Machine) : Prop where
  bounded : Bounded m.heap
  globals : ∀ value ∈ m.globals, IsIn m.heap value
  stack : ∀ value ∈ m.stack, IsIn m.heap value
  consts :
    ∀ (index : Nat) (str : Str), pool[index]? = some str →
      ∃ value more,
        m.consts[index]? = some value ∧
          IsIn m.heap value ∧
          content m.heap value = str.1 ++ more
  isIn : ∀ value ∈ m.consts, IsIn m.heap value

theorem Valid.of_grows
    {pool : List Str}
    {m : Machine}
    {heap : List Bytes}
    {globals stack : List Value}
    (hValid : Valid pool m)
    (hBounded : Bounded heap)
    (hGrows : Grows m.heap heap)
    (hGlobals : ∀ value ∈ globals, IsIn heap value)
    (hStack : ∀ value ∈ stack, IsIn heap value) :
    Valid pool ⟨heap, m.consts, globals, stack⟩ := by
  refine ⟨hBounded, hGlobals, hStack, ?_, ?_⟩
  · intro index str hStr
    rcases hValid.consts index str hStr
      with ⟨value, more, hValue, hIn, hContent⟩
    rcases hGrows.content hIn with ⟨more', hMore⟩
    refine
      ⟨value, more ++ more', hValue, hGrows.isIn hIn, ?_⟩
    rw [hMore, hContent, List.append_assoc]
  · intro value hMem
    exact hGrows.isIn (hValid.isIn value hMem)

theorem Valid.push
    {pool : List Str}
    {m : Machine}
    {value : Value}
    (hValid : Valid pool m)
    (hIn : IsIn m.heap value) :
    Valid pool { m with stack := value :: m.stack } := by
  refine
    hValid.of_grows hValid.bounded (Grows.refl m.heap)
      hValid.globals ?_
  intro other hMem
  rcases List.mem_cons.1 hMem with rfl | hOld
  · exact hIn
  · exact hValid.stack other hOld

/- The two values on top of the stack become one. -/
theorem runConcat_ok
    {pool : List Str}
    {m m' : Machine}
    {left right : Value}
    {rest : List Value}
    {selfConcat : Bool}
    (hValid : Valid pool m)
    (hStack : m.stack = right :: left :: rest)
    (hRun : runConcat m selfConcat = .ok m') :
    Valid pool m' ∧ Grows m.heap m'.heap ∧
      ∃ value,
        m'.stack = value :: rest ∧
          content m'.heap value =
            content m.heap left ++ content m.heap right := by
  have hIn := hValid.stack
  rw [hStack] at hIn
  simp only [runConcat, hStack] at hRun
  cases hConcat :
      concatAsStr { m with stack := rest } left right
        selfConcat with
  | error stop =>
      rw [hConcat] at hRun
      exact nomatch hRun
  | ok ret =>
      rw [hConcat] at hRun
      obtain rfl := Except.ok.inj hRun
      have hMade :=
        concatAsStr_made (m := { m with stack := rest })
          hValid.bounded
          (hIn left (List.mem_cons_of_mem _ List.mem_cons_self))
          (hIn right List.mem_cons_self) hConcat
      refine
        ⟨hValid.of_grows hMade.bounded hMade.grows
            (fun value hMem =>
              hMade.grows.isIn (hValid.globals value hMem)) ?_,
          hMade.grows, ret.2, rfl, hMade.content⟩
      intro value hMem
      rcases List.mem_cons.1 hMem with rfl | hOld
      · exact hMade.isIn
      · refine hMade.grows.isIn (hIn value ?_)
        exact
          List.mem_cons_of_mem _ (List.mem_cons_of_mem _ hOld)

theorem runConcat_error
    {pool : List Str}
    {m : Machine}
    {left right : Value}
    {rest : List Value}
    {selfConcat : Bool}
    {stop : Stop}
    (hValid : Valid pool m)
    (hStack : m.stack = right :: left :: rest)
    (hRun : runConcat m selfConcat = .error stop) :
    stop = .outOfRange ∧
      MAX_SIZE <
        (content m.heap left).length +
          (content m.heap right).length := by
  have hIn := hValid.stack
  rw [hStack] at hIn
  simp only [runConcat, hStack] at hRun
  cases hConcat :
      concatAsStr { m with stack := rest } left right
        selfConcat with
  | ok ret =>
      rw [hConcat] at hRun
      exact nomatch hRun
  | error stop' =>
      rw [hConcat] at hRun
      obtain rfl := Except.error.inj hRun
      exact
        concatAsStr_error (m := { m with stack := rest })
          hValid.bounded
          (hIn left (List.mem_cons_of_mem _ List.mem_cons_self))
          (hIn right List.mem_cons_self) hConcat

theorem runConcat_valid
    {pool : List Str}
    {m m' : Machine}
    {selfConcat : Bool}
    (hValid : Valid pool m)
    (hRun : runConcat m selfConcat = .ok m') :
    Valid pool m' ∧ Grows m.heap m'.heap := by
  rcases hStack : m.stack with _ | ⟨right, _ | ⟨left, rest⟩⟩
  · simp [runConcat, hStack] at hRun
  · simp [runConcat, hStack] at hRun
  · rcases runConcat_ok hValid hStack hRun
      with ⟨hValid', hGrows, hValue⟩
    exact ⟨hValid', hGrows⟩

/- Every instruction keeps the machine valid. -/
theorem run_valid
    {pool : List Str}
    {m m' : Machine}
    {opCode : OpCode}
    (hValid : Valid pool m)
    (hRun : opCode.run m = .ok m') :
    Valid pool m' ∧ Grows m.heap m'.heap := by
  cases opCode with
  | pushStr bytes =>
      obtain rfl := Except.ok.inj hRun
      refine ⟨hValid.push ?_, Grows.refl m.heap⟩
      exact Nat.le_trans bytes.2 (by decide)
  | loadConst index =>
      simp only [OpCode.run] at hRun
      cases hGet : m.consts[index]? with
      | none =>
          rw [hGet] at hRun
          exact nomatch hRun
      | some value =>
          rw [hGet] at hRun
          obtain rfl := Except.ok.inj hRun
          have hIn :=
            hValid.isIn value (List.mem_of_getElem? hGet)
          exact ⟨hValid.push hIn, Grows.refl m.heap⟩
  | loadGlobal index =>
      simp only [OpCode.run] at hRun
      cases hGet : m.globals[index]? with
      | none =>
          rw [hGet] at hRun
          exact nomatch hRun
      | some value =>
          rw [hGet] at hRun
          obtain rfl := Except.ok.inj hRun
          have hIn :=
            hValid.globals value (List.mem_of_getElem? hGet)
          exact ⟨hValid.push hIn, Grows.refl m.heap⟩
  | storeGlobal index =>
      simp only [OpCode.run] at hRun
      cases hStack : m.stack with
      | nil =>
          rw [hStack] at hRun
          exact nomatch hRun
      | cons value rest =>
          rw [hStack] at hRun
          obtain rfl := Except.ok.inj hRun
          have hIn := hValid.stack
          rw [hStack] at hIn
          refine
            ⟨hValid.of_grows hValid.bounded
                (Grows.refl m.heap) ?_ ?_,
              Grows.refl m.heap⟩
          · intro other hMem
            rcases List.mem_or_eq_of_mem_set hMem
              with hOld | rfl
            · exact hValid.globals other hOld
            · exact hIn other List.mem_cons_self
          · intro other hMem
            exact hIn other (List.mem_cons_of_mem _ hMem)
  | concat => exact runConcat_valid hValid hRun
  | append => exact runConcat_valid hValid hRun

end Concat

end Ydsh
