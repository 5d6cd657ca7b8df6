import Mathlib.Data.List.Forall2
import Ydsh.Serialize.Denotes

/-
  Reading is exact.

  JSON is valid if it matches on the surface, and a value is
  read if the JSON conforms and denotes the value.

  Main declarations:
    * `surface_iff`
    * `ofJSON_eq_ok_iff`
-/

----
-- Validation
----

namespace Ydsh

namespace Serialize

open Json (JSON)

variable {δ : Type}

/- Nothing is wrong with the JSON. -/
def IsValid
    (validOnly : Bool)
    (ty : Ty)
    (json : JSON δ)
    (fieldName : Option FieldName) : Prop :=
  ∃ v, deserialize validOnly ty json fieldName = .ok v

section Tags

variable {json : JSON δ}

@[simp]
theorem getTag_eq_null :
    getTag json = .null ↔ json = .null := by
  cases json <;> simp [getTag]

@[simp]
theorem getTag_eq_bool :
    getTag json = .bool ↔ ∃ v, json = .bool v := by
  cases json <;> simp [getTag]

@[simp]
theorem getTag_eq_long :
    getTag json = .long ↔ ∃ v, json = .long v := by
  cases json <;> simp [getTag]

@[simp]
theorem getTag_eq_string :
    getTag json = .string ↔ ∃ v, json = .string v := by
  cases json <;> simp [getTag]

@[simp]
theorem getTag_eq_array :
    getTag json = .array ↔ ∃ v, json = .array v := by
  cases json <;> simp [getTag]

@[simp]
theorem getTag_eq_object :
    getTag json = .object ↔ ∃ v, json = .object v := by
  cases json <;> simp [getTag]

end Tags

/- A union is valid if one of its alternatives is. -/
theorem fromJSON_valid_iff
    {alternatives : List Ty}
    {json : JSON δ}
    (hEach :
      ∀ alt ∈ alternatives,
        IsValid true alt json none ↔ Surface alt json)
    (tag : Nat)
    (error : ValidationError) :
    (∃ v, fromJSON true alternatives tag error json = .ok v) ↔
      SurfaceSome alternatives json := by
  induction alternatives generalizing tag error with
  | nil => simp [fromJSON, SurfaceSome]
  | cons alt alternatives ih =>
      have hFirst := hEach alt List.mem_cons_self
      have hRest :=
        ih (fun x hMem => hEach x (List.mem_cons_of_mem _ hMem))
      unfold fromJSON SurfaceSome
      rw [← hFirst]
      cases hAlt : deserialize true alt json none with
      | ok v =>
          constructor
          · intro _
            exact .inl ⟨v, hAlt⟩
          · intro _
            exact ⟨.unset, rfl⟩
      | error e =>
          dsimp only
          rw [hRest (tag + 1) e]
          constructor
          · exact Or.inr
          · rintro (⟨v, hOk⟩ | hSome)
            · rw [hAlt] at hOk
              cases hOk
            · exact hSome

theorem part_valid_iff
    {ty : Ty}
    (hTy :
      ∀ json : JSON δ, IsValid true ty json none ↔ Surface ty json)
    (fieldName : Option FieldName)
    (members : Members δ) :
    IsValid true ty (.object members) fieldName ↔
      SurfacePart (fieldName, ty) members := by
  cases fieldName with
  | none =>
      unfold SurfacePart
      exact hTy _
  | some name =>
      unfold SurfacePart
      cases hLookup : members.lookup name with
      | none =>
          cases ty <;>
            simp [IsValid, deserialize, hLookup, Ty.isOptional, findField]
      | some json =>
          have hRoot := hTy json
          unfold IsValid at hRoot
          cases ty with
          | struct parts =>
              simp [IsValid, deserialize, hLookup, fieldSurface, IsObject]
          | enum underlying =>
              simp [IsValid, deserialize, hLookup, fieldSurface]
          | _ =>
              simp only [Option.elim_some, fieldSurface, ← hRoot]
              simp [IsValid, deserialize, hLookup, findField]

theorem parts_valid_iff
    {parts : List (Option FieldName × Ty)}
    (hEach :
      ∀ part ∈ parts, ∀ json : JSON δ,
        IsValid true part.2 json none ↔ Surface part.2 json)
    (members : Members δ) :
    (∃ vs, deserializeParts true parts (.object members) =
        .ok vs) ↔
      SurfaceParts parts members := by
  induction parts with
  | nil => simp [deserializeParts, SurfaceParts]
  | cons part parts ih =>
      rcases part with ⟨fieldName, ty⟩
      have hPart :=
        part_valid_iff (hEach _ List.mem_cons_self) fieldName
          members
      have hRest :=
        ih (fun x hMem => hEach x (List.mem_cons_of_mem _ hMem))
      unfold IsValid at hPart
      unfold SurfaceParts
      rw [← hPart, ← hRest]
      simp only [deserializeParts, deserializePart, bind_eq_ok,
        pure_eq_ok]
      constructor
      · rintro ⟨_, v, hFirst, vs, hNext, _⟩
        exact ⟨⟨v, hFirst⟩, vs, hNext⟩
      · rintro ⟨⟨v, hFirst⟩, vs, hNext⟩
        exact ⟨_, v, hFirst, vs, hNext, rfl⟩

/- JSON is valid if it matches on the surface. -/
theorem surface_iff
    (ty : Ty)
    (json : JSON δ) :
    IsValid true ty json none ↔ Surface ty json := by
  induction ty using Ty.induct generalizing json with
  | null
  | bool
  | int type
  | string
  | json
  | enum underlying
  | vector element _ =>
      simp [IsValid, deserialize, Surface]
  | union alternatives ih =>
      have hUnion :=
        fromJSON_valid_iff (fun alt hMem => ih alt hMem json) 0 {}
      simp only [IsValid, deserialize, bind_eq_ok,
        validateAny_eq_ok, field, Option.some.injEq,
        exists_eq_left', Surface]
      exact hUnion
  | optional alternatives ih =>
      have hUnion :=
        fromJSON_valid_iff (fun alt hMem => ih alt hMem json) 0 {}
      simp only [IsValid, deserialize, findField, Surface]
      exact hUnion
  | optionalJSON =>
      simp [IsValid, deserialize, findField, Surface]
  | struct parts ih =>
      have hParts (members : Members δ) :=
        parts_valid_iff ih members
      simp only [IsValid, deserialize, bind_eq_ok,
        validateField_eq_ok, field, Option.some.injEq,
        getTag_eq_object, Surface]
      constructor
      · rintro ⟨_, _, ⟨rfl, members, rfl⟩, hRead⟩
        rcases bind_eq_ok.mp hRead with ⟨vs, hVs, _⟩
        exact ⟨members, rfl, (hParts members).mp ⟨vs, hVs⟩⟩
      · rintro ⟨members, rfl, hSurface⟩
        rcases (hParts members).mpr hSurface with ⟨vs, hVs⟩
        refine
          ⟨.struct vs, .object members, ⟨rfl, members, rfl⟩, ?_⟩
        exact bind_eq_ok.mpr ⟨vs, hVs, rfl⟩

----
-- Reading
----

/- What is read from JSON of a type. -/
def Reads
    (ty : Ty)
    (json : JSON δ)
    (fieldName : Option FieldName)
    (v : Val δ) : Prop :=
  deserialize false ty json fieldName = .ok v

theorem fromJSON_reads_iff
    {alternatives : List Ty}
    {json : JSON δ}
    {v : Val δ}
    (hEach :
      ∀ alt ∈ alternatives, ∀ w : Val δ,
        Reads alt json none w ↔ Denotes alt json w)
    (tag : Nat)
    (error : ValidationError) :
    fromJSON false alternatives tag error json = .ok v ↔
      DenotesFirst alternatives tag json v := by
  induction alternatives generalizing tag error with
  | nil => simp [fromJSON, DenotesFirst]
  | cons alt alternatives ih =>
      have hFirst := hEach alt List.mem_cons_self
      have hRest :=
        ih (fun x hMem => hEach x (List.mem_cons_of_mem _ hMem))
      unfold fromJSON DenotesFirst
      rw [← surface_iff]
      cases hAlt : deserialize true alt json none with
      | ok found =>
          have hValid : IsValid true alt json none := ⟨found, hAlt⟩
          unfold Reads at hFirst
          simp only [Bool.false_eq_true, if_false, bind_eq_ok,
            pure_eq_ok, hValid, true_and, not_true_eq_false,
            false_and, or_false, hFirst]
          constructor
          · rintro ⟨w, hDenotes, rfl⟩
            exact ⟨w, hDenotes, rfl⟩
          · rintro ⟨w, hDenotes, rfl⟩
            exact ⟨w, hDenotes, rfl⟩
      | error e =>
          have hNot : ¬IsValid true alt json none := by
            rintro ⟨w, hOk⟩
            rw [hAlt] at hOk
            cases hOk
          dsimp only
          rw [hRest (tag + 1) e]
          simp only [hNot, false_and, false_or, not_false_eq_true,
            true_and]

theorem part_reads_iff
    {ty : Ty}
    (hTy :
      ∀ (json : JSON δ) (w : Val δ),
        Reads ty json none w ↔ Denotes ty json w)
    (fieldName : Option FieldName)
    (members : Members δ)
    (v : Val δ) :
    Reads ty (.object members) fieldName v ↔
      DenotesPart (fieldName, ty) members v := by
  cases fieldName with
  | none =>
      unfold DenotesPart
      exact hTy _ _
  | some name =>
      unfold DenotesPart
      cases hLookup : members.lookup name with
      | none =>
          cases ty <;>
            simp [Reads, deserialize, hLookup, Ty.isOptional,
              Ty.absent, findField, @eq_comm _ v]
      | some json =>
          have hRoot := hTy json v
          unfold Reads at hRoot
          rw [Option.elim_some, ← hRoot]
          cases ty <;>
            simp [Reads, deserialize, hLookup, findField]

theorem parts_reads_iff
    {parts : List (Option FieldName × Ty)}
    (hEach :
      ∀ part ∈ parts, ∀ (json : JSON δ) (w : Val δ),
        Reads part.2 json none w ↔ Denotes part.2 json w)
    (members : Members δ)
    (vs : List (Val δ)) :
    deserializeParts false parts (.object members) = .ok vs ↔
      DenotesParts parts members vs := by
  induction parts generalizing vs with
  | nil =>
      simp only [deserializeParts, DenotesParts, pure_eq_ok]
      exact eq_comm
  | cons part parts ih =>
      rcases part with ⟨fieldName, ty⟩
      have hPart (w : Val δ) :=
        part_reads_iff (hEach _ List.mem_cons_self) fieldName
          members w
      have hRest :=
        ih (fun x hMem => hEach x (List.mem_cons_of_mem _ hMem))
      unfold Reads at hPart
      unfold DenotesParts
      simp only [deserializeParts, deserializePart, bind_eq_ok,
        pure_eq_ok, hPart, hRest]
      constructor
      · rintro ⟨w, hFirst, ws, hNext, rfl⟩
        exact ⟨w, ws, rfl, hFirst, hNext⟩
      · rintro ⟨w, ws, rfl, hFirst, hNext⟩
        exact ⟨w, hFirst, ws, hNext, rfl⟩

theorem mapM_eq_ok
    {α β : Type}
    {f : α → Checked β}
    {xs : List α}
    {ys : List β} :
    xs.mapM f = .ok ys ↔
      List.Forall₂ (fun x y => f x = .ok y) xs ys := by
  induction xs generalizing ys with
  | nil =>
      rw [List.mapM_nil, pure_eq_ok, List.forall₂_nil_left_iff,
        eq_comm]
  | cons x xs ih =>
      simp only [List.mapM_cons, bind_eq_ok, pure_eq_ok, ih,
        List.forall₂_cons_left_iff]
      constructor
      · rintro ⟨y, hFirst, ys', hRest, rfl⟩
        exact ⟨y, ys', hFirst, hRest, rfl⟩
      · rintro ⟨y, ys', hFirst, hRest, rfl⟩
        exact ⟨y, hFirst, ys', hRest, rfl⟩

theorem reads_iff
    (ty : Ty)
    (json : JSON δ)
    (v : Val δ) :
    Reads ty json none v ↔ Denotes ty json v := by
  induction ty using Ty.induct generalizing json v with
  | null => simp [Reads, deserialize, Denotes, @eq_comm _ v]
  | bool =>
      cases json <;>
        simp [Reads, deserialize, Denotes, asBool, @eq_comm _ v]
  | int type | enum underlying =>
      cases json <;>
        simp [Reads, deserialize, Denotes, asLong, @eq_comm _ v]
  | string =>
      cases json <;>
        simp [Reads, deserialize, Denotes, asString, keep, @eq_comm _ v]
  | json => simp [Reads, deserialize, Denotes, keep, @eq_comm _ v]
  | vector element ih =>
      unfold Reads at ih
      cases json <;>
        simp [Reads, deserialize, Denotes, asArray, mapM_eq_ok, ih,
          @eq_comm _ v, and_comm]
  | union alternatives ih =>
      have hUnion :=
        fromJSON_reads_iff (v := v)
          (fun alt hMem => ih alt hMem json) 0 {}
      simpa [Reads, deserialize, Denotes] using hUnion
  | optional alternatives ih =>
      have hUnion :=
        fromJSON_reads_iff (v := v)
          (fun alt hMem => ih alt hMem json) 0 {}
      simpa [Reads, deserialize, findField, Denotes] using hUnion
  | optionalJSON =>
      simp [Reads, deserialize, findField, Denotes, keep, @eq_comm _ v]
  | struct parts ih =>
      have hParts (members : Members δ) (vs : List (Val δ)) :=
        parts_reads_iff ih members vs
      cases json <;>
        simp [Reads, deserialize, Denotes, hParts, @eq_comm _ v,
          and_comm]

/- A value is read exactly from the JSON that denotes it. -/
theorem ofJSON_eq_ok_iff
    {ty : Ty}
    {json : JSON δ}
    {v : Val δ} :
    ofJSON ty json = .ok v ↔ Denotes ty json v :=
  reads_iff ty json v

end Serialize

end Ydsh
