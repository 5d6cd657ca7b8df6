import Mathlib.Algebra.GroupWithZero.Nat
import Mathlib.Tactic.Common

/-
  Numbers as bytes, the highest byte first, and texts whose
  holes are filled with such numbers afterwards.

  A byte is a number below 256.  Of a number with more bytes
  than are written the lowest ones are kept.

  A piece of text is fixed or is a hole, which is written with
  a placeholder first and overwritten with its filling later.
  The holes may be filled in any order.

  Main declarations:
    * `writeN`
    * `readN`
    * `byteRange`
    * `readN_append`
    * `readN_writeN`
    * `overwrite`
    * `Piece`
    * `holes`
    * `foldl_overwrite`
-/

----
-- Reading and Writing
----

namespace Ydsh

namespace Library

namespace BigEndian

def writeN : Nat → Nat → List Nat
  | 0, _ => []
  | n + 1, b => (b >>> (8 * n)) % 0x100 :: writeN n b

def readN : Nat → List Nat → Nat → Nat
  | 0, _, _ => 0
  | n + 1, code, index =>
      (code[index]?.getD 0) <<< (8 * n) |||
        readN n code (index + 1)

/- The number of values of `n` bytes. -/
def byteRange (n : Nat) : Nat :=
  1 <<< (8 * n)

variable {n b index : Nat}
variable {before rest : List Nat}

theorem length_writeN (n b : Nat) : (writeN n b).length = n := by
  induction n with
  | zero => rfl
  | succ n ih =>
      rw [writeN, List.length_cons, ih]

theorem byteRange_eq (n : Nat) : byteRange n = 2 ^ (8 * n) := by
  rw [byteRange, Nat.shiftLeft_eq, Nat.one_mul]

theorem byteRange_pos (n : Nat) : 0 < byteRange n := by
  rw [byteRange_eq]
  exact Nat.two_pow_pos (8 * n)

theorem readN_cons (byte : Nat) :
    readN n (byte :: rest) (index + 1) = readN n rest index := by
  induction n generalizing index with
  | zero => rfl
  | succ n ih =>
      rw [readN, readN, ih, List.getElem?_cons_succ]

theorem readN_append :
    readN n (before ++ rest) (before.length + index) =
      readN n rest index := by
  induction before generalizing index with
  | nil =>
      rw [List.nil_append, List.length_nil, Nat.zero_add]
  | cons byte before ih =>
      rw [List.cons_append, List.length_cons, Nat.succ_add,
        readN_cons, ih]

/- The bytes above the lowest `n` are lost. -/
theorem readN_writeN (n b : Nat) (rest : List Nat) :
    readN n (writeN n b ++ rest) 0 = b % byteRange n := by
  induction n with
  | zero => exact (Nat.mod_one b).symm
  | succ n ih =>
      have hLow : b % byteRange n < 2 ^ (8 * n) := by
        rw [← byteRange_eq]
        exact Nat.mod_lt b (byteRange_pos n)
      have hRange :
          byteRange (n + 1) = byteRange n * 0x100 := by
        rw [byteRange_eq, byteRange_eq, Nat.mul_succ,
          Nat.pow_add]
      have hHead :
          ((writeN (n + 1) b ++ rest)[0]?).getD 0 =
            (b >>> (8 * n)) % 0x100 :=
        rfl
      have hTail :
          readN n (writeN (n + 1) b ++ rest) (0 + 1) =
            b % byteRange n := by
        rw [writeN, List.cons_append, readN_cons, ih]
      rw [readN, hHead, hTail,
        ← Nat.shiftLeft_add_eq_or_of_lt hLow,
        Nat.shiftLeft_eq, Nat.shiftRight_eq_div_pow, hRange,
        Nat.mod_mul, ← byteRange_eq, Nat.add_comm,
        Nat.mul_comm]

/- A number narrowed before is the same in these bytes. -/
theorem writeN_mod (n b : Nat) :
    writeN n (b % byteRange n) = writeN n b := by
  suffices hAll :
      ∀ m, m ≤ n → writeN m (b % byteRange n) = writeN m b from
    hAll n (Nat.le_refl n)
  intro m
  induction m with
  | zero =>
      intro _
      rfl
  | succ m ih =>
      intro hLe
      have hSplit :
          byteRange n = 2 ^ (8 * m) * 2 ^ (8 * (n - m)) := by
        rw [byteRange_eq, ← Nat.pow_add]
        congr 1
        omega
      have hByte : 0x100 ∣ 2 ^ (8 * (n - m)) := by
        have hPower : (0x100 : Nat) = 2 ^ 8 := rfl
        rw [hPower]
        apply Nat.pow_dvd_pow
        omega
      rw [writeN, writeN, ih (Nat.le_of_succ_le hLe),
        Nat.shiftRight_eq_div_pow, Nat.shiftRight_eq_div_pow,
        hSplit, Nat.mod_mul_right_div_self,
        Nat.mod_mod_of_dvd _ hByte]

end BigEndian

end Library

end Ydsh

namespace Ydsh

namespace Library

namespace Patching

variable {α : Type}

def overwrite
    (text : List α)
    (index : Nat)
    (symbols : List α) : List α :=
  text.take index ++ symbols ++
    text.drop (index + symbols.length)

theorem overwrite_append
    (before rest symbols : List α)
    (index : Nat) :
    overwrite (before ++ rest) (before.length + index) symbols =
      before ++ overwrite rest index symbols := by
  unfold overwrite
  rw [List.take_length_add_append, Nat.add_assoc,
    List.drop_length_add_append, List.append_assoc,
    List.append_assoc, List.append_assoc]

theorem overwrite_head
    (old rest symbols : List α)
    (hLength : symbols.length = old.length) :
    overwrite (old ++ rest) 0 symbols = symbols ++ rest := by
  unfold overwrite
  rw [List.take_zero, List.nil_append, Nat.zero_add, hLength,
    List.drop_left]

----
-- Pieces
----

inductive Piece (α : Type) where
  | text (symbols : List α)
  | hole (placeholder filling : List α)
  deriving DecidableEq, Repr

namespace Piece

def blank : Piece α → List α
  | .text symbols => symbols
  | .hole placeholder _ => placeholder

def filled : Piece α → List α
  | .text symbols => symbols
  | .hole _ filling => filling

/- A hole is not empty and has the size of its filling. -/
def Fits : Piece α → Prop
  | .text _ => True
  | .hole placeholder filling =>
      placeholder ≠ [] ∧ filling.length = placeholder.length

theorem Fits.length_eq
    {piece : Piece α}
    (hFits : piece.Fits) :
    piece.filled.length = piece.blank.length := by
  cases piece with
  | text symbols => rfl
  | hole placeholder filling => exact hFits.2

end Piece

/- The holes of a text that starts at `start`. -/
def holes : Nat → List (Piece α) → List (Nat × List α)
  | _, [] => []
  | start, .text symbols :: pieces =>
      holes (start + symbols.length) pieces
  | start, .hole placeholder filling :: pieces =>
      (start, filling) ::
        holes (start + placeholder.length) pieces

/- The text with the holes at the places `done` filled. -/
def render
    (done : Nat → Bool) : Nat → List (Piece α) → List α
  | _, [] => []
  | start, piece :: pieces =>
      (if done start then piece.filled else piece.blank) ++
        render done (start + piece.blank.length) pieces

variable {done done' : Nat → Bool}
variable {start place : Nat}
variable {filling : List α}
variable {pieces : List (Piece α)}

theorem le_of_mem_holes
    (hMem : (place, filling) ∈ holes start pieces) :
    start ≤ place := by
  induction pieces generalizing start with
  | nil => exact absurd hMem List.not_mem_nil
  | cons piece pieces ih =>
      cases piece with
      | text symbols =>
          exact Nat.le_trans (Nat.le_add_right _ _) (ih hMem)
      | hole placeholder other =>
          rcases List.mem_cons.mp hMem with hEq | hRest
          · exact Nat.le_of_eq (Prod.mk.inj hEq).1.symm
          · exact
              Nat.le_trans (Nat.le_add_right _ _) (ih hRest)

theorem holes_append
    (before after : List (Piece α)) :
    holes start (before ++ after) =
      holes start before ++
        holes (start + (before.flatMap Piece.blank).length)
          after := by
  induction before generalizing start with
  | nil => rfl
  | cons piece before ih =>
      rw [List.flatMap_cons, List.length_append,
        ← Nat.add_assoc]
      cases piece with
      | text symbols => exact ih
      | hole placeholder filling =>
          exact congrArg (List.cons (start, filling)) ih

theorem render_congr
    (hSame : ∀ p, start ≤ p → done p = done' p) :
    render done start pieces = render done' start pieces := by
  induction pieces generalizing start with
  | nil => rfl
  | cons piece pieces ih =>
      rw [render, render, hSame start (Nat.le_refl start), ih]
      intro p hLe
      exact hSame p (Nat.le_trans (Nat.le_add_right _ _) hLe)

/- One hole more is filled. -/
def insert (done : Nat → Bool) (place : Nat) : Nat → Bool :=
  fun p => done p || p == place

theorem render_insert_of_lt
    (hLt : place < start) :
    render (insert done place) start pieces =
      render done start pieces := by
  apply render_congr
  intro p hLe
  have hNe : (p == place) = false := by
    apply beq_false_of_ne
    omega
  rw [insert, hNe, Bool.or_false]

theorem length_rendered
    {piece : Piece α}
    (hFits : piece.Fits) :
    (if done start then piece.filled
      else piece.blank).length = piece.blank.length := by
  by_cases hDone : done start = true
  · rw [if_pos hDone, hFits.length_eq]
  · rw [if_neg hDone]

/- The pieces before the hole keep their places. -/
theorem overwrite_render
    (hFits : ∀ piece ∈ pieces, piece.Fits)
    (hMem : (place, filling) ∈ holes start pieces) :
    overwrite (render done start pieces) (place - start)
        filling =
      render (insert done place) start pieces := by
  induction pieces generalizing start with
  | nil => exact absurd hMem List.not_mem_nil
  | cons piece pieces ih =>
      have hPiece := hFits piece List.mem_cons_self
      have hRest : ∀ p ∈ pieces, p.Fits := by
        intro p hP
        exact hFits p (List.mem_cons_of_mem _ hP)
      have hDeeper :
          (place, filling) ∈
              holes (start + piece.blank.length) pieces →
            (piece.blank = [] ∨ start ≠ place) →
            overwrite (render done start (piece :: pieces))
                (place - start) filling =
              render (insert done place) start
                (piece :: pieces) := by
        intro hIn hOther
        have hLe := le_of_mem_holes hIn
        have hHead :
            (if insert done place start then piece.filled
              else piece.blank) =
              if done start then piece.filled
              else piece.blank := by
          rcases hOther with hEmpty | hNe
          · have hNone : piece.filled = piece.blank := by
              have hLength := hPiece.length_eq
              rw [hEmpty] at hLength ⊢
              exact List.length_eq_zero_iff.mp hLength
            rw [hNone, ite_self, ite_self]
          · rw [insert, beq_false_of_ne hNe, Bool.or_false]
        have hPlace :
            place - start =
              (if done start then piece.filled
                else piece.blank).length +
                (place - (start + piece.blank.length)) := by
          rw [length_rendered hPiece]
          omega
        rw [render, render, hHead, hPlace, overwrite_append,
          ih hRest hIn]
      cases piece with
      | text symbols =>
          have hIn :
              (place, filling) ∈
                holes (start + symbols.length) pieces :=
            hMem
          by_cases hEmpty : symbols = []
          · exact hDeeper hIn (Or.inl hEmpty)
          · apply hDeeper hIn
            right
            have hLe := le_of_mem_holes hIn
            have hPos := List.length_pos_iff.mpr hEmpty
            omega
      | hole placeholder other =>
          have hPos := List.length_pos_iff.mpr hPiece.1
          rcases List.mem_cons.mp hMem with hEq | hIn
          · rcases Prod.mk.inj hEq with ⟨hPlace, hFilling⟩
            have hNow : insert done start start = true := by
              rw [insert, beq_self_eq_true, Bool.or_true]
            have hLater :
                render (insert done start)
                    (start + placeholder.length) pieces =
                  render done (start + placeholder.length)
                    pieces :=
              render_insert_of_lt (by omega)
            rw [hPlace, hFilling, Nat.sub_self, render, render,
              if_pos hNow]
            show _ = other ++ render (insert done start)
              (start + placeholder.length) pieces
            rw [hLater]
            apply overwrite_head
            rw [length_rendered hPiece]
            exact hPiece.2
          · apply hDeeper hIn
            right
            have hLe := le_of_mem_holes hIn
            omega

def fill (text : List α) (hole : Nat × List α) : List α :=
  overwrite text hole.1 hole.2

theorem foldl_fill
    {order : List (Nat × List α)}
    (hFits : ∀ piece ∈ pieces, piece.Fits)
    (hOrder : ∀ hole ∈ order, hole ∈ holes 0 pieces) :
    ∃ done' : Nat → Bool,
      order.foldl fill (render done 0 pieces) =
          render done' 0 pieces ∧
        ∀ p,
          (done p = true ∨ ∃ filling, (p, filling) ∈ order) →
            done' p = true := by
  induction order generalizing done with
  | nil =>
      refine ⟨done, rfl, ?_⟩
      intro p hP
      rcases hP with hDone | ⟨_, hIn⟩
      · exact hDone
      · exact absurd hIn List.not_mem_nil
  | cons hole order ih =>
      have hHole := hOrder hole List.mem_cons_self
      have hFill :
          fill (render done 0 pieces) hole =
            render (insert done hole.1) 0 pieces :=
        overwrite_render hFits hHole
      rcases
          @ih (insert done hole.1)
            (fun h hH =>
              hOrder h (List.mem_cons_of_mem _ hH)) with
        ⟨done', hRender, hDone'⟩
      refine ⟨done', ?_, ?_⟩
      · rw [List.foldl_cons, hFill, hRender]
      · intro p hP
        apply hDone'
        rcases hP with hDone | ⟨filling, hIn⟩
        · left
          rw [insert, hDone, Bool.true_or]
        · rcases List.mem_cons.mp hIn with hEq | hRest
          · left
            rw [insert, ← hEq, beq_self_eq_true, Bool.or_true]
          · exact Or.inr ⟨filling, hRest⟩

theorem render_none :
    render (fun _ => false) start pieces =
      pieces.flatMap Piece.blank := by
  induction pieces generalizing start with
  | nil => rfl
  | cons piece pieces ih =>
      rw [render, ih, List.flatMap_cons,
        if_neg Bool.false_ne_true]

theorem render_all
    (hAll :
      ∀ hole ∈ holes start pieces, done hole.1 = true) :
    render done start pieces =
      pieces.flatMap Piece.filled := by
  induction pieces generalizing start with
  | nil => rfl
  | cons piece pieces ih =>
      rw [render, List.flatMap_cons]
      cases piece with
      | text symbols =>
          have hSame :
              (if done start then
                (Piece.text symbols).filled
              else (Piece.text symbols).blank) = symbols :=
            ite_self _
          have hRest :
              render done (start + symbols.length) pieces =
                pieces.flatMap Piece.filled :=
            ih hAll
          rw [hSame]
          show symbols ++ render done (start + symbols.length)
            pieces = symbols ++ _
          rw [hRest]
      | hole placeholder filling =>
          have hHead :=
            hAll (start, filling) List.mem_cons_self
          rw [if_pos hHead, ih]
          intro hole hIn
          exact hAll hole (List.mem_cons_of_mem _ hIn)

/- All holes are filled, in whatever order. -/
theorem foldl_overwrite
    {order : List (Nat × List α)}
    (hFits : ∀ piece ∈ pieces, piece.Fits)
    (hOrder : order.Perm (holes 0 pieces)) :
    order.foldl fill (pieces.flatMap Piece.blank) =
      pieces.flatMap Piece.filled := by
  rcases
      @foldl_fill α (fun _ => false) pieces order hFits
        (fun hole hIn => hOrder.mem_iff.mp hIn) with
    ⟨done', hRender, hDone'⟩
  rw [← @render_none α 0, hRender]
  apply render_all
  intro hole hIn
  apply hDone'
  exact Or.inr ⟨hole.2, hOrder.mem_iff.mpr hIn⟩

end Patching

end Library

end Ydsh
