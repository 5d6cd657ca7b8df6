import Mathlib.Data.List.Nodup
import Mathlib.Data.Nat.Find
import Mathlib.Logic.Function.Basic

/-
  Tables of descriptors.

  A descriptor is a number that may refer to a description.
  A new descriptor is always the lowest one that is closed.
  There is none when no descriptor below the limit is closed.

  Main declarations:
    * `Table`
    * `Table.lowest`
    * `Table.room`
    * `Table.dup`
    * `Table.dup2`
-/

----
-- Tables
----

namespace Ydsh

namespace Library

namespace Descriptor

/- Finitely many descriptors are open. -/
structure Table (α : Type) where
  get : Nat → Option α
  bound : Nat
  closed : ∀ fd, bound ≤ fd → get fd = none

namespace Table

variable {α : Type}

instance : Inhabited (Table α) :=
  ⟨⟨fun _ => none, 0, fun _ _ => rfl⟩⟩

/- The descriptors from `0` on refer to these descriptions. -/
def ofList (descriptions : List (Option α)) : Table α where
  get fd := (descriptions[fd]?).join
  bound := descriptions.length
  closed := by
    intro fd hLe
    rw [List.getElem?_eq_none hLe]
    rfl

theorem exists_closed
    (table : Table α) :
    ∃ fd, table.get fd = none :=
  ⟨table.bound, table.closed _ (Nat.le_refl _)⟩

instance
    (table : Table α) :
    DecidablePred (fun fd => table.get fd = none) :=
  fun fd =>
    decidable_of_iff ((table.get fd).isNone = true)
      Option.isNone_iff_eq_none

def lowest (table : Table α) : Nat :=
  Nat.find table.exists_closed

def put
    (table : Table α)
    (fd : Nat)
    (description : α) : Table α where
  get := Function.update table.get fd (some description)
  bound := max table.bound (fd + 1)
  closed := by
    intro other hLe
    have hNe : other ≠ fd := by omega
    rw [Function.update_of_ne hNe]
    apply table.closed
    omega

def close
    (table : Table α)
    (fd : Nat) : Table α where
  get := Function.update table.get fd none
  bound := table.bound
  closed := by
    intro other hLe
    by_cases hEq : other = fd
    · rw [hEq, Function.update_self]
    · rw [Function.update_of_ne hEq]
      exact table.closed other hLe

/- The description and the new descriptor that refers to it. -/
def allocate
    (table : Table α)
    (description : α) : Table α × Nat :=
  (table.put table.lowest description, table.lowest)

/- The copy has to be below the limit. -/
def dup
    (table : Table α)
    (limit fd : Nat) : Option (Table α × Nat) :=
  if table.lowest < limit then
    (table.get fd).map table.allocate
  else
    none

/- How many descriptors below the limit are closed. -/
def room (table : Table α) (limit : Nat) : Nat :=
  (List.range limit).countP (fun fd => (table.get fd).isNone)

def dup2
    (table : Table α)
    (source target : Nat) : Option (Table α) :=
  (table.get source).map (table.put target)

----
-- What a Descriptor Refers To
----

variable {table : Table α}
variable {fd other : Nat}
variable {description : α}

@[simp] theorem get_put_self :
    (table.put fd description).get fd = some description :=
  Function.update_self ..

theorem get_put_of_ne (hNe : other ≠ fd) :
    (table.put fd description).get other = table.get other :=
  Function.update_of_ne hNe ..

@[simp] theorem get_close_self :
    (table.close fd).get fd = none :=
  Function.update_self ..

theorem get_close_of_ne (hNe : other ≠ fd) :
    (table.close fd).get other = table.get other :=
  Function.update_of_ne hNe ..

@[simp] theorem get_lowest :
    table.get table.lowest = none :=
  Nat.find_spec table.exists_closed

theorem ne_lowest
    (hOpen : table.get fd ≠ none) :
    fd ≠ table.lowest := by
  rintro rfl
  exact hOpen get_lowest

theorem lowest_le
    (hClosed : table.get fd = none) :
    table.lowest ≤ fd :=
  Nat.find_min' table.exists_closed hClosed

/- A number below which all are open is below the lowest. -/
theorem le_lowest
    {count : Nat}
    (hOpen : ∀ fd < count, table.get fd ≠ none) :
    count ≤ table.lowest := by
  by_contra hLt
  exact hOpen _ (Nat.not_le.mp hLt) get_lowest

@[simp] theorem get_allocate_self :
    (table.allocate description).1.get
        (table.allocate description).2 =
      some description :=
  get_put_self

theorem get_allocate_of_ne
    (hNe : other ≠ (table.allocate description).2) :
    (table.allocate description).1.get other =
      table.get other :=
  get_put_of_ne hNe

@[simp] theorem get_allocated :
    table.get (table.allocate description).2 = none :=
  get_lowest

theorem ne_allocated
    (hOpen : table.get fd ≠ none) :
    fd ≠ (table.allocate description).2 :=
  ne_lowest hOpen

theorem dup_of_get
    {limit : Nat}
    (hRoom : table.lowest < limit)
    (hGet : table.get fd = some description) :
    table.dup limit fd = some (table.allocate description) := by
  rw [dup, if_pos hRoom, hGet]
  rfl

theorem dup_of_closed
    (limit : Nat)
    (hGet : table.get fd = none) :
    table.dup limit fd = none := by
  rw [dup, hGet]
  exact ite_self none

theorem dup_of_full
    {limit : Nat}
    (fd : Nat)
    (hFull : ¬table.lowest < limit) :
    table.dup limit fd = none :=
  if_neg hFull

/- The lowest is below the limit as long as there is room. -/
theorem lowest_lt_iff
    {limit : Nat} :
    table.lowest < limit ↔ 0 < table.room limit := by
  rw [room, List.countP_pos_iff]
  constructor
  · intro hLt
    refine ⟨table.lowest, List.mem_range.mpr hLt, ?_⟩
    rw [get_lowest]
    rfl
  · rintro ⟨fd, hMem, hNone⟩
    rw [Option.isNone_iff_eq_none] at hNone
    exact
      Nat.lt_of_le_of_lt (lowest_le hNone)
        (List.mem_range.mp hMem)

/- A copy takes up one of the closed descriptors. -/
theorem room_allocate
    {limit : Nat}
    (hRoom : table.lowest < limit) :
    (table.allocate description).1.room limit + 1 =
      table.room limit := by
  rw [room, room]
  have hCount :
      ∀ fds : List Nat,
        fds.countP (fun fd => (table.get fd).isNone) =
          fds.countP (fun fd =>
              ((table.allocate description).1.get fd).isNone) +
            fds.count table.lowest := by
    intro fds
    induction fds with
    | nil => rfl
    | cons fd fds ih =>
        rw [List.countP_cons, List.countP_cons, List.count_cons,
          ih]
        by_cases hEq : fd = table.lowest
        · subst hEq
          simp [allocate]
          omega
        · rw [get_allocate_of_ne hEq]
          simp [hEq]
          omega
  rw [hCount,
    List.count_eq_one_of_mem List.nodup_range
      (List.mem_range.mpr hRoom)]

theorem dup2_eq_some
    {source target : Nat}
    {table' : Table α} :
    table.dup2 source target = some table' ↔
      ∃ description,
        table.get source = some description ∧
          table.put target description = table' :=
  Option.map_eq_some_iff

theorem dup2_of_get
    {source : Nat}
    (target : Nat)
    (hGet : table.get source = some description) :
    table.dup2 source target =
      some (table.put target description) := by
  rw [dup2, hGet]
  rfl

theorem dup2_of_closed
    {source : Nat}
    (target : Nat)
    (hGet : table.get source = none) :
    table.dup2 source target = none := by
  rw [dup2, hGet]
  rfl

end Table

end Descriptor

end Library

end Ydsh
