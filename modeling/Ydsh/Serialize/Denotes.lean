import Ydsh.Serialize.Deserializer

/-
  What JSON conforms to a type.

  `Surface` is what a look at the outside of a value tells of
  it.  `Denotes` relates JSON that conforms all the way down to
  the value it stands for; a union is of the first alternative
  that the JSON matches on the surface.

  Main declarations:
    * `Surface`
    * `Denotes`
    * `validateField_eq_ok`
-/

----
-- Conformance
----

namespace Ydsh

namespace Serialize

open Json (JSON)

variable {δ : Type}

namespace Ty

def isOptional : Ty → Bool
  | .optional _ => true
  | .optionalJSON => true
  | _ => false

/- The value of an optional field that is not there. -/
def absent : Ty → Val δ
  | .optionalJSON => .json .invalid
  | _ => .unset

end Ty

abbrev Members (δ : Type) := List (List UInt8 × JSON δ)

def IsObject (json : JSON δ) : Prop :=
  ∃ members, json = .object members

/- What is inside a field of these types is not looked at. -/
def fieldSurface
    (ty : Ty)
    (json : JSON δ)
    (surface : Prop) : Prop :=
  match ty with
  | .struct _ => IsObject json
  | .enum _ => True
  | _ => surface

mutual

def Surface : Ty → JSON δ → Prop
  | .null, json => json = .null
  | .bool, json => ∃ v, json = .bool v
  | .int _, json => ∃ v, json = .long v
  | .string, json => ∃ v, json = .string v
  | .json, _ => True
  | .enum _, json => ∃ v, json = .long v
  | .vector _, json => ∃ es, json = .array es
  | .union alternatives, json => SurfaceSome alternatives json
  | .optional alternatives, json => SurfaceSome alternatives json
  | .optionalJSON, _ => True
  | .struct parts, json =>
      ∃ members, json = .object members ∧
        SurfaceParts parts members

def SurfaceSome : List Ty → JSON δ → Prop
  | [], _ => False
  | alt :: alternatives, json =>
      Surface alt json ∨ SurfaceSome alternatives json

def SurfaceParts :
    List (Option FieldName × Ty) → Members δ → Prop
  | [], _ => True
  | part :: parts, members =>
      SurfacePart part members ∧ SurfaceParts parts members

def SurfacePart :
    Option FieldName × Ty → Members δ → Prop
  | ⟨none, ty⟩, members => Surface ty (.object members)
  | ⟨some fieldName, ty⟩, members =>
      (members.lookup fieldName).elim (ty.isOptional = true)
        (fun json => fieldSurface ty json (Surface ty json))

end

mutual

def Denotes : Ty → JSON δ → Val δ → Prop
  | .null, json, v => json = .null ∧ v = .null
  | .bool, json, v => ∃ b, json = .bool b ∧ v = .bool b
  | .int type, json, v =>
      ∃ n, json = .long n ∧ v = .int (type.cast n.toInt)
  | .string, json, v => ∃ str, json = .string str ∧ v = .string str
  | .json, json, v => v = .json json
  | .enum underlying, json, v =>
      ∃ n, json = .long n ∧ v = .int (underlying.cast n.toInt)
  | .vector element, json, v =>
      ∃ es vs, json = .array es ∧ v = .vector vs ∧
        List.Forall₂ (fun e w => Denotes element e w) es vs
  | .union alternatives, json, v =>
      DenotesFirst alternatives 0 json v
  | .optional alternatives, json, v =>
      DenotesFirst alternatives 0 json v
  | .optionalJSON, json, v => v = .json json
  | .struct parts, json, v =>
      ∃ members vs, json = .object members ∧ v = .struct vs ∧
        DenotesParts parts members vs

/- The first alternative that the surface fits is the one. -/
def DenotesFirst : List Ty → Nat → JSON δ → Val δ → Prop
  | [], _, _, _ => False
  | alt :: alternatives, tag, json, v =>
      (Surface alt json ∧
          ∃ w, Denotes alt json w ∧ v = .union tag w) ∨
        ¬Surface alt json ∧
          DenotesFirst alternatives (tag + 1) json v

def DenotesParts :
    List (Option FieldName × Ty) →
      Members δ → List (Val δ) → Prop
  | [], _, vs => vs = []
  | part :: parts, members, vs =>
      ∃ w ws, vs = w :: ws ∧ DenotesPart part members w ∧
        DenotesParts parts members ws

def DenotesPart :
    Option FieldName × Ty → Members δ → Val δ → Prop
  | ⟨none, ty⟩, members, v => Denotes ty (.object members) v
  | ⟨some fieldName, ty⟩, members, v =>
      (members.lookup fieldName).elim
        (ty.isOptional = true ∧ v = ty.absent)
        (fun json => Denotes ty json v)

end

----
-- Fields
----

@[simp]
theorem bind_eq_ok
    {α β : Type}
    {x : Checked α}
    {f : α → Checked β}
    {b : β} :
    x >>= f = .ok b ↔ ∃ a, x = .ok a ∧ f a = .ok b := by
  cases x with
  | error e =>
      constructor
      · rintro ⟨⟩
      · rintro ⟨_, ⟨⟩, _⟩
  | ok a =>
      constructor
      · intro hEq
        exact ⟨a, rfl, hEq⟩
      · rintro ⟨_, hEq, hNext⟩
        cases hEq
        exact hNext

@[simp]
theorem pure_eq_ok
    {α : Type}
    {a b : α} :
    (pure a : Checked α) = .ok b ↔ a = b := by
  constructor
  · intro hEq
    exact Except.ok.inj hEq
  · rintro rfl
    rfl

@[simp]
theorem map_eq_ok
    {α β : Type}
    {x : Checked α}
    {f : α → β}
    {b : β} :
    f <$> x = .ok b ↔ ∃ a, x = .ok a ∧ f a = b := by
  rw [← bind_pure_comp, bind_eq_ok]
  simp only [pure_eq_ok]

/- The value itself or the field of that name. -/
def field
    (value : JSON δ) : Option FieldName → Option (JSON δ)
  | none => some value
  | some fieldName =>
      match value with
      | .object members => members.lookup fieldName
      | _ => none

@[simp]
theorem field_none (value : JSON δ) :
    field value none = some value :=
  rfl

@[simp]
theorem field_object
    (members : Members δ)
    (fieldName : FieldName) :
    field (.object members) (some fieldName) =
      members.lookup fieldName :=
  rfl

theorem findField_eq_some
    {value json : JSON δ}
    (optional : Bool)
    {fieldName : Option FieldName} :
    findField value optional fieldName = .ok (some json) ↔
      field value fieldName = some json := by
  cases fieldName with
  | none => simp [findField, field]
  | some name =>
      cases value with
      | object members =>
          cases hLookup : members.lookup name <;>
            cases optional <;>
              simp [findField, field, hLookup, appendError]
      | _ => simp [findField, field, appendError]

theorem findField_ne_none
    {value : JSON δ}
    {fieldName : Option FieldName} :
    findField value false fieldName ≠ .ok none := by
  cases fieldName with
  | none => simp [findField]
  | some name =>
      cases value with
      | object members =>
          cases hLookup : members.lookup name <;>
            simp [findField, hLookup, appendError]
      | _ => simp [findField, appendError]

@[simp]
theorem validateAny_eq_ok
    {value json : JSON δ}
    {fieldName : Option FieldName} :
    validateAny value fieldName = .ok json ↔
      field value fieldName = some json := by
  unfold validateAny
  rw [bind_eq_ok, ← findField_eq_some false]
  constructor
  · rintro ⟨found, hFind, hNext⟩
    cases found with
    | none => exact absurd hFind findField_ne_none
    | some found =>
        rw [pure_eq_ok.mp hNext] at hFind
        exact hFind
  · intro hFind
    exact ⟨some json, hFind, rfl⟩

@[simp]
theorem validateField_eq_ok
    {value json : JSON δ}
    {fieldName : Option FieldName}
    {tag : Tag} :
    validateField value fieldName tag = .ok json ↔
      field value fieldName = some json ∧ getTag json = tag := by
  unfold validateField
  rw [bind_eq_ok]
  constructor
  · rintro ⟨found, hFound, hNext⟩
    by_cases hTag : getTag found = tag
    · rw [if_pos hTag] at hNext
      cases pure_eq_ok.mp hNext
      exact ⟨validateAny_eq_ok.mp hFound, hTag⟩
    · rw [if_neg hTag] at hNext
      cases hNext
  · rintro ⟨hFound, hTag⟩
    refine ⟨json, validateAny_eq_ok.mpr hFound, ?_⟩
    rw [if_pos hTag]
    rfl

end Serialize

end Ydsh
