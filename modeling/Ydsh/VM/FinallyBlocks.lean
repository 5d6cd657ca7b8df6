import Mathlib.Logic.Relation
import Ydsh.Code.LeftTries

/-
  Finally blocks at run time.

  `ENTER_FINALLY` pushes the position behind it and goes to a
  finally block; `EXIT_FINALLY` goes back to the position that
  was pushed, unless a handler has saved an object to throw.
  A position is the index of an item of the code unit.

  Main declarations:
    * `FinallyMachine`
    * `RunsBlocks`
    * `jump_runsBlocks`
-/

----
-- Opcodes of Finally Blocks
----

namespace Ydsh

/- What they use of a state; numbers stand on the left. -/
structure FinallyMachine (α : Type) where
  pc : Nat
  operands : List (Nat ⊕ α)
  savedThrown : Option α

section

variable {α : Type}
variable (items : List Item)
variable (other : FinallyMachine α → FinallyMachine α → Prop)

def FinallyMachine.enterFinally
    (label : Label)
    (state : FinallyMachine α) : FinallyMachine α :=
  { state with
    pc := items.idxOf (.mark label)
    operands := .inl (state.pc + 1) :: state.operands }

/- A saved object is thrown again; otherwise there has to be a
   number. -/
def FinallyMachine.exitFinally
    (state : FinallyMachine α) :
    Except (Option α) (FinallyMachine α) :=
  match state.savedThrown, state.operands with
  | some thrown, _ => .error (some thrown)
  | none, .inl index :: operands =>
      .ok { state with pc := index, operands }
  | none, _ => .error none

/-
  Every block is entered by the instruction at the position,
  runs by steps of the other instructions to its end, and goes
  back.
-/
inductive RunsBlocks :
    FinallyMachine α → List Label → FinallyMachine α → Prop
  | done (state : FinallyMachine α) : RunsBlocks state [] state
  | block
      {label : Label}
      {labels : List Label}
      {state final next last : FinallyMachine α}
      (hItem :
        items[state.pc]? = some (.ins (.enterFinally label)))
      (hBody :
        Relation.ReflTransGen other
          (state.enterFinally items label) final)
      (hEnd : items[final.pc]? = some (.ins .exitFinally))
      (hBack : final.exitFinally = .ok next)
      (hRest : RunsBlocks next labels last) :
      RunsBlocks state (label :: labels) last

/- The block comes to its end and leaves the operands alone. -/
def Completes (label : Label) : Prop :=
  ∀ state : FinallyMachine α,
    state.savedThrown = none →
    ∃ pc,
      Relation.ReflTransGen other
          (state.enterFinally items label)
          { state.enterFinally items label with pc } ∧
        items[pc]? = some (.ins .exitFinally)

variable {items other}

/- One `ENTER_FINALLY` after the other runs its block. -/
theorem runsBlocks_of_completes
    {labels : List Label}
    {front back : List Item}
    (hItems :
      items =
        front ++
          (labels.map (fun label => .ins (.enterFinally label)) ++
            back))
    (hCompletes : ∀ label ∈ labels, Completes items other label)
    {state : FinallyMachine α}
    (hPc : state.pc = front.length)
    (hSaved : state.savedThrown = none) :
    ∃ last,
      RunsBlocks items other state labels last ∧
        items[last.pc]? = back.head? := by
  induction labels generalizing front state with
  | nil =>
      refine ⟨state, .done state, ?_⟩
      rw [hItems, hPc, List.getElem?_append_right (le_refl _),
        Nat.sub_self]
      exact List.head?_eq_getElem?.symm
  | cons label labels ih =>
      rcases hCompletes label List.mem_cons_self state hSaved with
        ⟨pc, hBody, hEnd⟩
      have hItem :
          items[state.pc]? =
            some (.ins (.enterFinally label)) := by
        rw [hItems, hPc, List.getElem?_append_right (le_refl _),
          Nat.sub_self]
        rfl
      have hBack :
          FinallyMachine.exitFinally
              { state.enterFinally items label with pc } =
            .ok { state with pc := state.pc + 1 } := by
        rcases state with ⟨_, _, _⟩
        cases hSaved
        rfl
      rcases
        @ih (front ++ [.ins (.enterFinally label)])
          (by rw [hItems, List.append_assoc]; rfl)
          (fun found hFound =>
            hCompletes found (List.mem_cons_of_mem _ hFound))
          { state with pc := state.pc + 1 }
          (by rw [List.length_append, ← hPc]; rfl) hSaved with
        ⟨last, hRest, hLast⟩
      exact ⟨last, .block hItem hBody hEnd hBack hRest, hLast⟩

/-
  A jump runs the finally blocks of the tries it leaves, the
  innermost one first and each once, and then leaves.
-/
theorem jump_runsBlocks
    {assertion : Bool}
    {nodes : List Node}
    {units : List CodeUnit}
    (hEnters : EntersLeftTries assertion nodes units)
    {unit : CodeUnit}
    (hUnit : unit ∈ units)
    {front back : List Item}
    {record : JumpRecord}
    (hItems : unit.items = front ++ .jump record :: back)
    (hCompletes :
      ∀ found ∈ record.entered,
        Completes unit.items other found.label)
    {state : FinallyMachine α}
    (hPc : state.pc = front.length + 1)
    (hSaved : state.savedThrown = none) :
    ∃ path ins last,
      IsCompiledJump assertion nodes path record.pos record.op ∧
        record.EntersLeft path ∧
        RunsBlocks unit.items other state
            (record.entered.map FinallyState.label) last ∧
          unit.items[last.pc]? = some (.ins ins) ∧
            record.Leaves ins := by
  rcases hEnters.followed unit hUnit front record back hItems with
    ⟨⟨path, hJump, _, hLeft⟩, ⟨ins, hLeaves, after, hCode⟩, _⟩
  have hSplit :
      unit.items =
        (front ++ [.jump record]) ++
          ((record.entered.map FinallyState.label).map
              (fun label => .ins (.enterFinally label)) ++
            .ins ins :: after) := by
    rw [hItems, ← hCode, JumpRecord.code, List.map_map]
    simp [Function.comp_def]
  have hAll :
      ∀ label ∈ record.entered.map FinallyState.label,
        Completes unit.items other label := by
    intro label hLabel
    rcases List.mem_map.mp hLabel with ⟨found, hFound, rfl⟩
    exact hCompletes found hFound
  rcases
    runsBlocks_of_completes hSplit hAll
      (by rw [hPc, List.length_append]; rfl) hSaved with
    ⟨last, hRuns, hLast⟩
  exact ⟨path, ins, last, hJump, hLeft, hRuns, hLast, hLeaves⟩

end

end Ydsh
