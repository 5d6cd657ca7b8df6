import Ydsh.Serialize.Universe

/-
  Values of a type are serialized.

  Main declarations:
    * `Plain`
    * `HasType`
    * `toJSON_of_hasType`
-/

----
-- Typing
----

namespace Ydsh

namespace Serialize

open Json (JSON insertMember)

variable {δ : Type}

mutual

/- Structs list fields, and no field twice. -/
def Plain : Ty → Prop
  | .vector element => Plain element
  | .union alternatives => PlainAll alternatives
  | .optional alternatives => PlainAll alternatives
  | .struct parts =>
      (parts.map Prod.fst).Nodup ∧ PlainParts parts
  | _ => True

def PlainAll : List Ty → Prop
  | [] => True
  | alt :: alternatives => Plain alt ∧ PlainAll alternatives

def PlainParts : List (Option FieldName × Ty) → Prop
  | [] => True
  | part :: parts => PlainPart part ∧ PlainParts parts

def PlainPart : Option FieldName × Ty → Prop
  | ⟨fieldName, ty⟩ => fieldName.isSome = true ∧ Plain ty

end

mutual

def HasType : Ty → Val δ → Prop
  | .null, v => v = .null
  | .bool, v => ∃ b, v = .bool b
  | .int type, v => ∃ n, type.Contains n ∧ v = .int n
  | .string, v => ∃ str, v = .string str
  | .json, v => ∃ json, v = .json json
  | .enum underlying, v =>
      ∃ n, underlying.Contains n ∧ v = .int n
  | .vector element, v =>
      ∃ vs, v = .vector vs ∧ ∀ w ∈ vs, HasType element w
  | .union alternatives, v =>
      v = .unset ∨
        ∃ tag w, v = .union tag w ∧ HasTypeAt alternatives tag w
  | .optional alternatives, v =>
      v = .unset ∨
        ∃ tag w, v = .union tag w ∧ HasTypeAt alternatives tag w
  | .optionalJSON, v => ∃ json, v = .json json
  | .struct parts, v =>
      ∃ vs, v = .struct vs ∧ HasTypeParts parts vs

def HasTypeAt : List Ty → Nat → Val δ → Prop
  | [], _, _ => False
  | alt :: _, 0, v => HasType alt v
  | _ :: alternatives, tag + 1, v => HasTypeAt alternatives tag v

def HasTypeParts :
    List (Option FieldName × Ty) → List (Val δ) → Prop
  | [], vs => vs = []
  | part :: parts, vs =>
      ∃ w ws, vs = w :: ws ∧ HasTypePart part w ∧
        HasTypeParts parts ws

def HasTypePart : Option FieldName × Ty → Val δ → Prop
  | ⟨_, ty⟩, v => HasType ty v

end

----
-- Serializing
----

/- Nothing is written. -/
def LeftOut
    (ty : Ty)
    (v : Val δ) : Prop :=
  ∀ result fieldName, serialize ty result fieldName v = some result

/- The value goes into the result as this JSON. -/
def GoesIn
    (ty : Ty)
    (v : Val δ)
    (json : JSON δ) : Prop :=
  ∀ result fieldName,
    serialize ty result fieldName v = append result fieldName json

/- An alternative is serialized as its type tells. -/
theorem serializeAlternative_cases
    {alternatives : List Ty}
    {tag : Nat}
    {v : Val δ}
    (hEach :
      ∀ alt ∈ alternatives, ∀ w : Val δ,
        Plain alt → HasType alt w →
          LeftOut alt w ∨ ∃ json, GoesIn alt w json)
    (hPlain : PlainAll alternatives)
    (hType : HasTypeAt alternatives tag v) :
    (∀ result fieldName,
      serializeAlternative alternatives tag result fieldName v =
        some result) ∨
      ∃ json, ∀ result fieldName,
        serializeAlternative alternatives tag result fieldName v =
          append result fieldName json := by
  induction alternatives generalizing tag with
  | nil =>
      unfold HasTypeAt at hType
      exact hType.elim
  | cons alt alternatives ih =>
      unfold PlainAll at hPlain
      cases tag with
      | zero =>
          unfold HasTypeAt at hType
          simp only [serializeAlternative]
          exact hEach alt List.mem_cons_self v hPlain.1 hType
      | succ tag =>
          unfold HasTypeAt at hType
          simp only [serializeAlternative]
          apply ih _ hPlain.2 hType
          intro x hMem
          exact hEach x (List.mem_cons_of_mem _ hMem)

/- The elements that are not left out go to the end. -/
theorem serialize_elements
    {element : Ty}
    (vs : List (Val δ))
    (hEach :
      ∀ w ∈ vs,
        LeftOut element w ∨ ∃ json, GoesIn element w json)
    (es : List (JSON δ)) :
    ∃ all,
      vs.foldlM (fun s e => serialize element s none e)
        (.array es) = some (.array all) := by
  induction vs generalizing es with
  | nil => exact ⟨es, rfl⟩
  | cons v vs ih =>
      have hRest :=
        ih (fun w hMem => hEach w (List.mem_cons_of_mem _ hMem))
      rw [List.foldlM_cons]
      rcases hEach v List.mem_cons_self with hOut | ⟨json, hIn⟩
      · rw [hOut]
        exact hRest es
      · rw [hIn]
        exact hRest (es ++ [json])

theorem serializePart_object
    {ty : Ty}
    {v : Val δ}
    (hCases : LeftOut ty v ∨ ∃ json, GoesIn ty v json)
    (name : FieldName)
    (members : List (List UInt8 × JSON δ)) :
    ∃ next,
      serializePart (some name, ty) v (.object members) =
        some (.object next) := by
  unfold serializePart
  rcases hCases with hOut | ⟨json, hIn⟩
  · exact ⟨members, hOut _ _⟩
  · exact ⟨insertMember members (name, json), hIn _ _⟩

theorem serializeParts_object
    {parts : List (Option FieldName × Ty)}
    {vs : List (Val δ)}
    (hEach :
      ∀ part ∈ parts, ∀ w : Val δ,
        Plain part.2 → HasType part.2 w →
          LeftOut part.2 w ∨ ∃ json, GoesIn part.2 w json)
    (hPlain : PlainParts parts)
    (hType : HasTypeParts parts vs)
    (members : List (List UInt8 × JSON δ)) :
    ∃ next,
      serializeParts parts vs (.object members) =
        some (.object next) := by
  induction parts generalizing vs members with
  | nil =>
      unfold HasTypeParts at hType
      subst hType
      exact ⟨members, rfl⟩
  | cons part parts ih =>
      rcases part with ⟨fieldName, ty⟩
      unfold HasTypeParts at hType
      rcases hType with ⟨w, ws, rfl, hPart, hParts⟩
      unfold PlainParts PlainPart at hPlain
      rcases hPlain with ⟨⟨hName, hTy⟩, hPlain⟩
      rcases Option.isSome_iff_exists.mp hName with ⟨name, rfl⟩
      unfold HasTypePart at hPart
      have hCases := hEach _ List.mem_cons_self w hTy hPart
      rcases serializePart_object hCases name members with
        ⟨next, hNext⟩
      unfold serializeParts
      rw [hNext, Option.bind_some]
      apply ih _ hPlain hParts
      intro x hMem
      exact hEach x (List.mem_cons_of_mem _ hMem)

/- A value is left out, or goes in as one JSON whatever the
   result is. -/
theorem serialize_cases
    {ty : Ty}
    {v : Val δ}
    (hPlain : Plain ty)
    (hType : HasType ty v) :
    LeftOut ty v ∨ ∃ json, GoesIn ty v json := by
  induction ty using Ty.induct generalizing v with
  | null =>
      unfold HasType at hType
      subst hType
      right
      exact ⟨.null, fun _ _ => rfl⟩
  | bool =>
      unfold HasType at hType
      rcases hType with ⟨b, rfl⟩
      right
      exact ⟨.bool b, fun _ _ => rfl⟩
  | int type | enum underlying =>
      unfold HasType at hType
      rcases hType with ⟨n, _, rfl⟩
      right
      exact ⟨.long (Int64.ofInt n), fun _ _ => rfl⟩
  | string =>
      unfold HasType at hType
      rcases hType with ⟨str, rfl⟩
      right
      exact ⟨.string str, fun _ _ => rfl⟩
  | json =>
      unfold HasType at hType
      rcases hType with ⟨json, rfl⟩
      right
      exact ⟨json, fun _ _ => rfl⟩
  | vector element ih =>
      unfold HasType at hType
      unfold Plain at hPlain
      rcases hType with ⟨vs, rfl, hEach⟩
      have hElements :=
        serialize_elements vs
          (fun w hMem => ih hPlain (hEach w hMem)) []
      rcases hElements with ⟨all, hAll⟩
      right
      refine ⟨.array all, fun result fieldName => ?_⟩
      rw [serialize, hAll, Option.bind_some]
  | union alternatives ih =>
      unfold HasType at hType
      unfold Plain at hPlain
      rcases hType with rfl | ⟨tag, w, rfl, hAt⟩
      · right
        exact ⟨.invalid, fun _ _ => rfl⟩
      · exact
          serializeAlternative_cases
            (fun alt hMem w => ih alt hMem) hPlain hAt
  | optional alternatives ih =>
      unfold HasType at hType
      unfold Plain at hPlain
      rcases hType with rfl | ⟨tag, w, rfl, hAt⟩
      · left
        exact fun _ _ => rfl
      · exact
          serializeAlternative_cases
            (fun alt hMem w => ih alt hMem) hPlain hAt
  | optionalJSON =>
      unfold HasType at hType
      rcases hType with ⟨json, rfl⟩
      cases hInvalid : json.isInvalid with
      | true =>
          left
          intro result fieldName
          rw [serialize, if_pos hInvalid]
      | false =>
          right
          refine ⟨json, fun result fieldName => ?_⟩
          rw [serialize, if_neg (by rw [hInvalid]; decide)]
  | struct parts ih =>
      unfold HasType at hType
      unfold Plain at hPlain
      rcases hType with ⟨vs, rfl, hParts⟩
      have hObject :=
        serializeParts_object
          (fun part hMem w => ih part hMem) hPlain.2 hParts []
      rcases hObject with ⟨members, hMembers⟩
      right
      refine ⟨.object members, fun result fieldName => ?_⟩
      rw [serialize, hMembers, Option.bind_some]

/- Every value of a plain type is serialized. -/
theorem toJSON_of_hasType
    {ty : Ty}
    {v : Val δ}
    (hPlain : Plain ty)
    (hType : HasType ty v) :
    ∃ json, toJSON ty v = some json := by
  unfold toJSON
  rcases serialize_cases hPlain hType with hOut | ⟨json, hIn⟩
  · exact ⟨.invalid, hOut _ _⟩
  · exact ⟨json, hIn _ _⟩

end Serialize

end Ydsh
