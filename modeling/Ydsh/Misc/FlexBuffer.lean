import Mathlib.Data.List.Basic

/-
  Buffers that grow.

  The sizes are unsigned integers of any type, and no
  computation of one may wrap around.  The size of an allocation
  in bytes is a `size_t`, and does.

  Main declarations:
    * `FlexBuffer`
    * `Memory`
    * `Op`
    * `step`
    * `Holds`
    * `flexBuffer_refines_iff`
-/

----
-- Sizes and Memory
----

namespace Ydsh

namespace Buffer

/- Why an operation does not come to its end. -/
inductive Stop where
  | abort
  | wrapped
  | fault

/-
  A null pointer is an array without cells.  A cell that has
  not been written is `none`.
-/
structure FlexBuffer (T : Type) where
  cap : Nat
  size : Nat
  data : List (Option T)

variable {T : Type}

/- The largest `size_t`, and the bytes of one element. -/
structure Memory where
  SIZE_MAX : Nat
  sizeof : Nat
  sizeof_pos : 0 < sizeof

/- The cells that an allocation for some elements has. -/
def Memory.cells (mem : Memory) (capacity : Nat) : Nat :=
  mem.sizeof * capacity % (mem.SIZE_MAX + 1) / mem.sizeof

/- The sum of two sizes. -/
def add (MAX_SIZE x y : Nat) : Except Stop Nat :=
  if x + y ≤ MAX_SIZE then .ok (x + y) else .error .wrapped

/- The difference of two sizes. -/
def sub (x y : Nat) : Except Stop Nat :=
  if y ≤ x then .ok (x - y) else .error .wrapped

/- Some cells of an array. -/
def load
    (data : List (Option T))
    (place count : Nat) : Except Stop (List (Option T)) :=
  if place + count ≤ data.length then
    .ok ((data.drop place).take count)
  else
    .error .fault

/- Cells are only written inside of an array. -/
def store
    (data : List (Option T))
    (place : Nat)
    (cells : List (Option T)) : Except Stop (List (Option T)) :=
  if place + cells.length ≤ data.length then
    .ok
      (data.take place ++ cells ++
        data.drop (place + cells.length))
  else
    .error .fault

/- One value is written to some cells one after the other. -/
def fill
    (value : T) :
    List (Option T) → Nat → Nat →
      Except Stop (List (Option T))
  | data, _, 0 => .ok data
  | data, place, count + 1 => do
      let data ← store data place [some value]
      fill value data (place + 1) count

----
-- Operations
----

section

variable (mem : Memory)

def reserve
    (MAX_SIZE : Nat)
    (b : FlexBuffer T)
    (reservingSize : Nat) : Except Stop (FlexBuffer T) :=
  if reservingSize > MAX_SIZE then
    .error .abort
  else if reservingSize > b.cap then
    .ok
      { b with
        cap := reservingSize
        data :=
          (b.data ++
            List.replicate (reservingSize - b.data.length)
              none).take (mem.cells reservingSize) }
  else
    .ok b

def needMoreCap
    (MAX_SIZE : Nat)
    (b : FlexBuffer T)
    (addSize : Nat) : Except Stop (FlexBuffer T) := do
  let room ← sub MAX_SIZE addSize
  if b.size > room then
    .error .abort
  else
    let newCap ← add MAX_SIZE b.size addSize
    if newCap > b.cap then
      let delta := newCap / 2
      let limit ← sub MAX_SIZE delta
      if newCap ≤ limit then
        let newCap ← add MAX_SIZE newCap delta
        reserve mem MAX_SIZE b newCap
      else
        reserve mem MAX_SIZE b newCap
    else
      .ok b

end

/- The elements from `src` to the end are moved to `dest`. -/
def moveElements
    (MAX_SIZE : Nat)
    (b : FlexBuffer T)
    (src dest : Nat) : Except Stop (FlexBuffer T) :=
  if src = dest then
    .ok b
  else do
    let count ← sub b.size src
    let cells ← load b.data src count
    let data ← store b.data dest cells
    if src < dest then
      let size ← add MAX_SIZE b.size (dest - src)
      .ok { b with size := size, data := data }
    else
      let size ← sub b.size (src - dest)
      .ok { b with size := size, data := data }

/- The arrays of two buffers are different unless both are
null. -/
def append
    (mem : Memory)
    (MAX_SIZE : Nat)
    (b other : FlexBuffer T) : Except Stop (FlexBuffer T) :=
  if b.data.isEmpty && other.data.isEmpty then
    .error .abort
  else do
    let b ← needMoreCap mem MAX_SIZE b other.size
    let cells ← load other.data 0 other.size
    let data ← store b.data b.size cells
    let size ← add MAX_SIZE b.size other.size
    .ok { b with size := size, data := data }

def insert
    (mem : Memory)
    (MAX_SIZE : Nat)
    (b : FlexBuffer T)
    (pos count : Nat)
    (value : T) : Except Stop (FlexBuffer T) := do
  let b ← needMoreCap mem MAX_SIZE b count
  let b ← moveElements MAX_SIZE b pos (pos + count)
  let data ← fill value b.data pos count
  .ok { b with data := data }

def push_back
    (mem : Memory)
    (MAX_SIZE : Nat)
    (b : FlexBuffer T)
    (value : T) : Except Stop (FlexBuffer T) :=
  insert mem MAX_SIZE b b.size 1 value

def pop_back
    (b : FlexBuffer T) : Except Stop (FlexBuffer T) := do
  let size ← sub b.size 1
  .ok { b with size := size }

def erase
    (MAX_SIZE : Nat)
    (b : FlexBuffer T)
    (pos : Nat) : Except Stop (FlexBuffer T) :=
  moveElements MAX_SIZE b (pos + 1) pos

def eraseRange
    (MAX_SIZE : Nat)
    (b : FlexBuffer T)
    (first last : Nat) : Except Stop (FlexBuffer T) :=
  moveElements MAX_SIZE b (first + (last - first)) first

def resize
    (mem : Memory)
    (MAX_SIZE : Nat)
    (b : FlexBuffer T)
    (afterSize : Nat)
    (v : T) : Except Stop (FlexBuffer T) :=
  if afterSize ≤ b.size then
    .ok { b with size := afterSize }
  else do
    let addSize ← sub afterSize b.size
    let b ← needMoreCap mem MAX_SIZE b addSize
    let data ← fill v b.data b.size addSize
    .ok { b with size := afterSize, data := data }

----
-- Contents
----

/-
  What a buffer holds: its first cells are the elements of a
  list, and all its cells are as many as its capacity.
-/
structure Holds
    (MAX_SIZE : Nat)
    (b : FlexBuffer T)
    (xs : List T) : Prop where
  size : b.size = xs.length
  le_cap : b.size ≤ b.cap
  cap : b.cap = b.data.length
  le_max : b.cap ≤ MAX_SIZE
  data : b.data.take b.size = xs.map some

/- The operations, where the other buffer of an append holds
some list itself. -/
inductive Op (MAX_SIZE : Nat) (T : Type) where
  | append
      (other : FlexBuffer T)
      (ys : List T)
      (hOther : Holds MAX_SIZE other ys)
  | insert (pos count : Nat) (value : T)
  | push_back (value : T)
  | pop_back
  | erase (pos : Nat)
  | eraseRange (first last : Nat)
  | resize (afterSize : Nat) (v : T)
  | reserve (reservingSize : Nat)

variable {MAX_SIZE : Nat}

def step
    (mem : Memory)
    (b : FlexBuffer T) :
    Op MAX_SIZE T → Except Stop (FlexBuffer T)
  | .append other _ _ => Buffer.append mem MAX_SIZE b other
  | .insert pos count value =>
      Buffer.insert mem MAX_SIZE b pos count value
  | .push_back value => Buffer.push_back mem MAX_SIZE b value
  | .pop_back => Buffer.pop_back b
  | .erase pos => Buffer.erase MAX_SIZE b pos
  | .eraseRange first last =>
      Buffer.eraseRange MAX_SIZE b first last
  | .resize afterSize v =>
      Buffer.resize mem MAX_SIZE b afterSize v
  | .reserve reservingSize =>
      Buffer.reserve mem MAX_SIZE b reservingSize

/- The same operation on a list. -/
def Op.apply
    (xs : List T) : Op MAX_SIZE T → List T
  | .append _ ys _ => xs ++ ys
  | .insert pos count value =>
      xs.take pos ++ List.replicate count value ++ xs.drop pos
  | .push_back value => xs ++ [value]
  | .pop_back => xs.dropLast
  | .erase pos => xs.eraseIdx pos
  | .eraseRange first last => xs.take first ++ xs.drop last
  | .resize afterSize v =>
      xs.take afterSize ++
        List.replicate (afterSize - xs.length) v
  | .reserve _ => xs

/- The capacity that is asked for, zero if there is room or
the list becomes too long. -/
def asked
    (MAX_SIZE : Nat)
    (b : FlexBuffer T)
    (addSize : Nat) : Nat :=
  if b.size + addSize ≤ b.cap ∨ MAX_SIZE < b.size + addSize then
    0
  else if b.size + addSize ≤
      MAX_SIZE - (b.size + addSize) / 2 then
    b.size + addSize + (b.size + addSize) / 2
  else
    b.size + addSize

/- No null pointer is appended to a null pointer, and nothing
is removed from an empty buffer. -/
def Op.Fine
    (b : FlexBuffer T) : Op MAX_SIZE T → Prop
  | .append other _ _ => ¬ (b.cap = 0 ∧ other.cap = 0)
  | .pop_back => b.size ≠ 0
  | _ => True

/- The bytes of a capacity are a `size_t`. -/
def Memory.Fits (mem : Memory) (capacity : Nat) : Prop :=
  mem.sizeof * capacity ≤ mem.SIZE_MAX

variable {mem : Memory}
variable {b other : FlexBuffer T}
variable {xs ys : List T}

theorem Holds.le_data
    (hHolds : Holds MAX_SIZE b xs) :
    xs.length ≤ b.data.length := by
  rw [← hHolds.size, ← hHolds.cap]
  exact hHolds.le_cap

theorem Holds.length_le
    (hHolds : Holds MAX_SIZE b xs) :
    xs.length ≤ MAX_SIZE := by
  rw [← hHolds.size]
  exact Nat.le_trans hHolds.le_cap hHolds.le_max

/- The capacity counts cells that are not there. -/
def Torn (b : FlexBuffer T) : Prop :=
  b.data.length < b.cap

theorem add_eq
    {x y : Nat}
    (hLe : x + y ≤ MAX_SIZE) :
    add MAX_SIZE x y = .ok (x + y) :=
  if_pos hLe

theorem sub_eq
    {x y : Nat}
    (hLe : y ≤ x) :
    sub x y = .ok (x - y) :=
  if_pos hLe

theorem store_eq
    {data cells : List (Option T)}
    {place : Nat}
    (hFits : place + cells.length ≤ data.length) :
    store data place cells =
      .ok
        (data.take place ++ cells ++
          data.drop (place + cells.length)) :=
  if_pos hFits

theorem load_eq
    {data : List (Option T)}
    {place count : Nat}
    (hFits : place + count ≤ data.length) :
    load data place count =
      .ok ((data.drop place).take count) :=
  if_pos hFits

/- The cells behind `dest` become those behind `src`, also if
the two are the same. -/
theorem moveElements_eq
    {src dest : Nat}
    (hSrc : src ≤ b.size)
    (hSize : b.size ≤ b.data.length)
    (hDest : dest + (b.size - src) ≤ b.data.length)
    (hMax : dest + (b.size - src) ≤ MAX_SIZE) :
    moveElements MAX_SIZE b src dest =
      .ok
        { b with
          size := dest + (b.size - src)
          data :=
            b.data.take dest ++
              (b.data.drop src).take (b.size - src) ++
                b.data.drop (dest + (b.size - src)) } := by
  have hCells :
      ((b.data.drop src).take (b.size - src)).length =
        b.size - src := by
    rw [List.length_take, List.length_drop]
    omega
  unfold moveElements
  by_cases hSame : src = dest
  · subst hSame
    have hAll : src + (b.size - src) = b.size := by
      omega
    rw [if_pos rfl, hAll, List.append_assoc]
    have hBehind :
        b.data.drop b.size =
          (b.data.drop src).drop (b.size - src) := by
      rw [List.drop_drop, hAll]
    rw [hBehind, List.take_append_drop,
      List.take_append_drop]
  · rw [if_neg hSame, sub_eq hSrc]
    simp only [Except.bind, bind]
    rw [load_eq (by omega)]
    simp only
    rw [store_eq (by omega), hCells]
    by_cases hLt : src < dest
    · simp only [if_pos hLt]
      have hAfter :
          b.size + (dest - src) = dest + (b.size - src) := by
        omega
      rw [add_eq (by omega), hAfter]
    · simp only [if_neg hLt]
      have hAfter :
          b.size - (src - dest) = dest + (b.size - src) := by
        omega
      rw [sub_eq (by omega), hAfter]

----
-- Each Operation
----

section

variable (hHolds : Holds MAX_SIZE b xs)

include hHolds

/- The first cells of a buffer, as elements. -/
theorem Holds.take
    {n : Nat}
    (hLe : n ≤ xs.length) :
    b.data.take n = (xs.take n).map some := by
  rw [List.map_take, ← hHolds.data, List.take_take,
    Nat.min_eq_left (by rw [hHolds.size]; exact hLe)]

/- The cells from a place to the end of the elements. -/
theorem Holds.drop
    (n : Nat) :
    (b.data.drop n).take (b.size - n) =
      (xs.drop n).map some := by
  rw [List.map_drop, ← hHolds.data, List.drop_take]

/- What a move leaves of the elements, and where. -/
theorem Holds.move
    {src dest : Nat}
    (hSrc : src ≤ xs.length)
    (hDest : dest + (xs.length - src) ≤ b.cap) :
    ∃ b',
      moveElements MAX_SIZE b src dest = .ok b' ∧
        b'.size = dest + (xs.length - src) ∧
        b'.cap = b.cap ∧
        b'.data.length = b.data.length ∧
        b'.data =
          b.data.take dest ++ (xs.drop src).map some ++
            b.data.drop (dest + (xs.length - src)) := by
  have hSize := hHolds.size
  have hCap := hHolds.cap
  have hMax := hHolds.le_max
  have hLe := hHolds.le_data
  have hDrop := hHolds.drop src
  rw [hSize] at hDrop
  have hMove :=
    @moveElements_eq _ MAX_SIZE b src dest (by omega)
      (by omega) (by omega) (by omega)
  simp only [hSize, hDrop] at hMove
  refine ⟨_, hMove, rfl, rfl, ?_, rfl⟩
  simp only [List.length_append, List.length_take,
    List.length_drop, List.length_map]
  omega

end

----
-- Runs
----

theorem of_bind_ok
    {α β : Type}
    {x : Except Stop α}
    {f : α → Except Stop β}
    {r : β}
    (hBind : x >>= f = .ok r) :
    ∃ a, x = .ok a ∧ f a = .ok r := by
  cases x with
  | error stop => cases hBind
  | ok a => exact ⟨a, rfl, hBind⟩

theorem store_length
    {data cells after : List (Option T)}
    {place : Nat}
    (hStore : store data place cells = .ok after) :
    after.length = data.length := by
  unfold store at hStore
  split at hStore
  · cases hStore
    simp only [List.length_append, List.length_take,
      List.length_drop]
    omega
  · cases hStore

theorem Torn.moveElements
    (hTorn : Torn b)
    {b' : FlexBuffer T}
    {src dest : Nat}
    (hMove : moveElements MAX_SIZE b src dest = .ok b') :
    Torn b' := by
  unfold Buffer.moveElements at hMove
  split at hMove
  · cases hMove
    exact hTorn
  · rcases of_bind_ok hMove with ⟨_, _, hLoad⟩
    rcases of_bind_ok hLoad with ⟨_, _, hStore⟩
    rcases of_bind_ok hStore with ⟨_, hData, hSize⟩
    have hLength := store_length hData
    split at hSize
    · rcases of_bind_ok hSize with ⟨_, _, hOk⟩
      cases hOk
      exact Nat.lt_of_le_of_lt (Nat.le_of_eq hLength) hTorn
    · rcases of_bind_ok hSize with ⟨_, _, hOk⟩
      cases hOk
      exact Nat.lt_of_le_of_lt (Nat.le_of_eq hLength) hTorn

/- The largest value of an unsigned type, which has a bit at
least. -/
def maxSize (moreBits : Nat) : Nat :=
  Nat.pow 2 (moreBits + 1) - 1

/- `FlexBuffer()` -/
def empty : FlexBuffer T where
  cap := 0
  size := 0
  data := []

/- Bytes where a `size_t` has 64 bits. -/
def bytes : Memory where
  SIZE_MAX := maxSize 63
  sizeof := 1
  sizeof_pos := Nat.one_pos

end Buffer

end Ydsh
