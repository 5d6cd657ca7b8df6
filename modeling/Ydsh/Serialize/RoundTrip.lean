import Ydsh.Serialize.Exact
import Ydsh.Serialize.HasType

/-
  What is serialized is read back.

  A value is whole if no union in it is empty, optionals are
  absent only as fields, and no union has an encoding that an
  earlier alternative matches on the surface.

  Main declarations:
    * `Whole`
    * `codec`
-/

----
-- Whole Values
----

namespace Ydsh

namespace Serialize

open Json (JSON insertMember)

variable {δ : Type}

mutual

def Whole : Ty → Val δ → Prop
  | .null, v => v = .null
  | .bool, v => ∃ b, v = .bool b
  | .int type, v => ∃ n, type.Contains n ∧ v = .int n
  | .string, v => ∃ str, v = .string str
  | .json, v => ∃ json, v = .json json
  | .enum underlying, v =>
      ∃ n, underlying.Contains n ∧ v = .int n
  | .vector element, v =>
      ∃ vs, v = .vector vs ∧ ∀ w ∈ vs, Whole element w
  | .union alternatives, v =>
      ∃ tag w, v = .union tag w ∧ WholeAt alternatives tag w
  | .optional alternatives, v =>
      ∃ tag w, v = .union tag w ∧ WholeAt alternatives tag w
  | .optionalJSON, v =>
      ∃ json, json.isInvalid = false ∧ v = .json json
  | .struct parts, v =>
      ∃ vs, v = .struct vs ∧ WholeParts parts vs

/- No alternative before this one matches the encoding. -/
def WholeAt : List Ty → Nat → Val δ → Prop
  | [], _, _ => False
  | alt :: _, 0, v => Whole alt v
  | alt :: alternatives, tag + 1, v =>
      WholeAt alternatives tag v ∧
        ∀ json,
          toJSON (.union alternatives) (.union tag v) =
              some json →
            ¬Surface alt json

def WholeParts :
    List (Option FieldName × Ty) → List (Val δ) → Prop
  | [], vs => vs = []
  | part :: parts, vs =>
      ∃ w ws, vs = w :: ws ∧ WholePart part w ∧
        WholeParts parts ws

def WholePart : Option FieldName × Ty → Val δ → Prop
  | ⟨_, ty⟩, v =>
      (ty.isOptional = true ∧ v = ty.absent) ∨ Whole ty v

end

----
-- Surfaces
----

theorem surfaceSome_of_denotesFirst
    {alternatives : List Ty}
    {tag : Nat}
    {json : JSON δ}
    {v : Val δ}
    (hDenotes : DenotesFirst alternatives tag json v) :
    SurfaceSome alternatives json := by
  induction alternatives generalizing tag with
  | nil =>
      unfold DenotesFirst at hDenotes
      exact hDenotes.elim
  | cons alt alternatives ih =>
      unfold DenotesFirst at hDenotes
      unfold SurfaceSome
      rcases hDenotes with ⟨hSurface, _⟩ | ⟨_, hRest⟩
      · exact .inl hSurface
      · exact .inr (ih hRest)

theorem fieldSurface_of_denotes
    {ty : Ty}
    {json : JSON δ}
    {v : Val δ}
    (hDenotes : Denotes ty json v)
    (hSurface : Surface ty json) :
    fieldSurface ty json (Surface ty json) := by
  cases ty with
  | struct parts =>
      unfold Denotes at hDenotes
      rcases hDenotes with ⟨members, _, rfl, _⟩
      exact ⟨members, rfl⟩
  | enum underlying => exact trivial
  | _ => exact hSurface

theorem surfaceParts_of_denotesParts
    {parts : List (Option FieldName × Ty)}
    {members : Members δ}
    {vs : List (Val δ)}
    (hEach :
      ∀ part ∈ parts, ∀ (json : JSON δ) (w : Val δ),
        Denotes part.2 json w → Surface part.2 json)
    (hDenotes : DenotesParts parts members vs) :
    SurfaceParts parts members := by
  induction parts generalizing vs with
  | nil =>
      unfold SurfaceParts
      trivial
  | cons part parts ih =>
      rcases part with ⟨fieldName, ty⟩
      unfold DenotesParts at hDenotes
      rcases hDenotes with ⟨w, ws, rfl, hPart, hParts⟩
      have hTy := hEach _ List.mem_cons_self
      unfold SurfaceParts
      constructor
      · cases fieldName with
        | none =>
            unfold DenotesPart at hPart
            unfold SurfacePart
            exact hTy _ w hPart
        | some name =>
            unfold DenotesPart at hPart
            unfold SurfacePart
            cases hLookup : members.lookup name with
            | none =>
                rw [hLookup] at hPart
                exact hPart.1
            | some json =>
                rw [hLookup] at hPart
                exact
                  fieldSurface_of_denotes hPart
                    (hTy json w hPart)
      · apply ih _ hParts
        intro x hMem
        exact hEach x (List.mem_cons_of_mem _ hMem)

/- What conforms all the way down matches on the surface. -/
theorem surface_of_denotes
    {ty : Ty}
    {json : JSON δ}
    {v : Val δ}
    (hDenotes : Denotes ty json v) :
    Surface ty json := by
  induction ty using Ty.induct generalizing json v with
  | null =>
      unfold Denotes at hDenotes
      unfold Surface
      exact hDenotes.1
  | bool =>
      unfold Denotes at hDenotes
      unfold Surface
      rcases hDenotes with ⟨b, rfl, _⟩
      exact ⟨b, rfl⟩
  | int type | enum underlying =>
      unfold Denotes at hDenotes
      unfold Surface
      rcases hDenotes with ⟨n, rfl, _⟩
      exact ⟨n, rfl⟩
  | string =>
      unfold Denotes at hDenotes
      unfold Surface
      rcases hDenotes with ⟨str, rfl, _⟩
      exact ⟨str, rfl⟩
  | json =>
      unfold Surface
      trivial
  | vector element _ =>
      unfold Denotes at hDenotes
      unfold Surface
      rcases hDenotes with ⟨es, _, rfl, _⟩
      exact ⟨es, rfl⟩
  | union alternatives _ | optional alternatives _ =>
      unfold Denotes at hDenotes
      unfold Surface
      exact surfaceSome_of_denotesFirst hDenotes
  | optionalJSON =>
      unfold Surface
      trivial
  | struct parts ih =>
      unfold Denotes at hDenotes
      unfold Surface
      rcases hDenotes with ⟨members, vs, rfl, _, hParts⟩
      exact
        ⟨members, rfl,
          surfaceParts_of_denotesParts
            (fun part hMem json w => ih part hMem) hParts⟩

theorem lookup_insertMember_ne
    {name other : FieldName}
    (hNe : other ≠ name)
    (members : Members δ)
    (json : JSON δ) :
    (insertMember members (name, json)).lookup other =
      members.lookup other := by
  have hBeq : (other == name) = false := beq_false_of_ne hNe
  induction members with
  | nil => simp [insertMember, List.lookup_cons, hBeq]
  | cons found members ih =>
      rcases found with ⟨key, value⟩
      unfold insertMember
      by_cases hLt : name < key
      · rw [if_pos hLt, List.lookup_cons, hBeq]
      · rw [if_neg hLt]
        by_cases hGt : key < name
        · rw [if_pos hGt, List.lookup_cons, List.lookup_cons, ih]
        · rw [if_neg hGt]

/- A name that is not there gets its value. -/
theorem lookup_insertMember
    {name : FieldName}
    {members : Members δ}
    (hNew : members.lookup name = none)
    (json : JSON δ) :
    (insertMember members (name, json)).lookup name =
      some json := by
  induction members with
  | nil => simp [insertMember]
  | cons found members ih =>
      rcases found with ⟨key, value⟩
      have hKey : name ≠ key := by
        rintro rfl
        simp at hNew
      have hBeq : (name == key) = false := beq_false_of_ne hKey
      rw [List.lookup_cons, hBeq] at hNew
      unfold insertMember
      by_cases hLt : name < key
      · rw [if_pos hLt]
        simp
      · have hGt : key < name := by
          apply Decidable.byContradiction
          intro hGt
          exact
            hKey
              (List.le_antisymm (List.not_lt.mp hGt)
                (List.not_lt.mp hLt))
        rw [if_neg hLt, if_pos hGt, List.lookup_cons, hBeq]
        exact ih hNew

----
-- Encodings
----

/- The value goes in as JSON that denotes it. -/
def Encoded
    (ty : Ty)
    (v : Val δ) : Prop :=
  ∃ json, GoesIn ty v json ∧ Denotes ty json v

theorem goesIn_toJSON
    {ty : Ty}
    {v : Val δ}
    {json : JSON δ}
    (hIn : GoesIn ty v json) :
    toJSON ty v = some json :=
  hIn .invalid none

theorem elements_encoded
    {element : Ty}
    (vs : List (Val δ))
    (hEach : ∀ w ∈ vs, Encoded element w)
    (es : List (JSON δ)) :
    ∃ more,
      vs.foldlM (fun s e => serialize element s none e)
          (.array es) =
        some (.array (es ++ more)) ∧
      List.Forall₂ (fun e w => Denotes element e w) more vs := by
  induction vs generalizing es with
  | nil => exact ⟨[], by simp, List.Forall₂.nil⟩
  | cons v vs ih =>
      rcases hEach v List.mem_cons_self with ⟨json, hIn, hDenotes⟩
      rcases ih (fun w hMem => hEach w (List.mem_cons_of_mem _ hMem))
          (es ++ [json]) with
        ⟨more, hMore, hRest⟩
      refine ⟨json :: more, ?_, List.Forall₂.cons hDenotes hRest⟩
      rw [List.foldlM_cons, hIn]
      rw [List.append_assoc] at hMore
      exact hMore

/- A union's value is of the first alternative that its
   encoding matches. -/
theorem alternative_encoded
    {alternatives : List Ty}
    {tag : Nat}
    {v : Val δ}
    (hEach :
      ∀ alt ∈ alternatives, ∀ w : Val δ,
        Plain alt → Whole alt w → Encoded alt w)
    (hPlain : PlainAll alternatives)
    (hWhole : WholeAt alternatives tag v)
    (skipped : Nat) :
    ∃ json,
      (∀ result fieldName,
        serializeAlternative alternatives tag result fieldName v =
          append result fieldName json) ∧
      DenotesFirst alternatives skipped json
        (.union (skipped + tag) v) := by
  induction alternatives generalizing tag skipped with
  | nil =>
      unfold WholeAt at hWhole
      exact hWhole.elim
  | cons alt alternatives ih =>
      unfold PlainAll at hPlain
      unfold DenotesFirst
      cases tag with
      | zero =>
          unfold WholeAt at hWhole
          rcases hEach alt List.mem_cons_self v hPlain.1 hWhole with
            ⟨json, hIn, hDenotes⟩
          refine ⟨json, hIn, .inl ⟨?_, v, hDenotes, rfl⟩⟩
          exact surface_of_denotes hDenotes
      | succ tag =>
          unfold WholeAt at hWhole
          rcases hWhole with ⟨hAt, hNot⟩
          have hRest :=
            ih (fun x hMem => hEach x (List.mem_cons_of_mem _ hMem))
              hPlain.2 hAt (skipped + 1)
          rcases hRest with ⟨json, hIn, hFirst⟩
          refine ⟨json, hIn, .inr ⟨?_, ?_⟩⟩
          · exact hNot json (hIn .invalid none)
          · rw [show skipped + (tag + 1) = skipped + 1 + tag by omega]
            exact hFirst

/- Absent fields write nothing. -/
theorem absent_leftOut
    {ty : Ty}
    (hOptional : ty.isOptional = true) :
    LeftOut ty (ty.absent : Val δ) := by
  intro result fieldName
  cases ty with
  | optional alternatives => rfl
  | optionalJSON => rfl
  | _ => cases hOptional

/- A part that is written denotes its value, and the other
   names keep theirs. -/
theorem part_encoded
    {ty : Ty}
    {v : Val δ}
    {name : FieldName}
    {members : Members δ}
    (hEncoded :
      (ty.isOptional = true ∧ v = ty.absent) ∨ Encoded ty v)
    (hNew : members.lookup name = none) :
    ∃ next : Members δ,
      serializePart (some name, ty) v (.object members) =
          some (.object next) ∧
        (next.lookup name).elim
          (ty.isOptional = true ∧ v = ty.absent)
          (fun json => Denotes ty json v) ∧
        ∀ other, other ≠ name →
          next.lookup other = members.lookup other := by
  unfold serializePart
  rcases hEncoded with ⟨hOptional, rfl⟩ | ⟨json, hIn, hDenotes⟩
  · refine
      ⟨members, absent_leftOut hOptional _ _, ?_, fun _ _ => rfl⟩
    rw [hNew]
    exact ⟨hOptional, rfl⟩
  · refine ⟨insertMember members (name, json), hIn _ _, ?_, ?_⟩
    · rw [lookup_insertMember hNew]
      exact hDenotes
    · intro other hNe
      exact lookup_insertMember_ne hNe members json

theorem parts_encoded
    {parts : List (Option FieldName × Ty)}
    {vs : List (Val δ)}
    {members : Members δ}
    (hEach :
      ∀ part ∈ parts, ∀ w : Val δ,
        Plain part.2 → Whole part.2 w → Encoded part.2 w)
    (hPlain : PlainParts parts)
    (hNodup : (parts.map Prod.fst).Nodup)
    (hWhole : WholeParts parts vs)
    (hNew :
      ∀ name, some name ∈ parts.map Prod.fst →
        members.lookup name = none) :
    ∃ all : Members δ,
      serializeParts parts vs (.object members) =
          some (.object all) ∧
        DenotesParts parts all vs ∧
        ∀ other, some other ∉ parts.map Prod.fst →
          all.lookup other = members.lookup other := by
  induction parts generalizing vs members with
  | nil =>
      unfold WholeParts at hWhole
      subst hWhole
      refine ⟨members, rfl, ?_, fun _ _ => rfl⟩
      unfold DenotesParts
      rfl
  | cons part parts ih =>
      rcases part with ⟨fieldName, ty⟩
      unfold WholeParts WholePart at hWhole
      rcases hWhole with ⟨w, ws, rfl, hPart, hParts⟩
      unfold PlainParts PlainPart at hPlain
      rcases hPlain with ⟨⟨hName, hTy⟩, hPlain⟩
      rcases Option.isSome_iff_exists.mp hName with ⟨name, rfl⟩
      rw [List.map_cons, List.nodup_cons] at hNodup
      have hEncoded :
          (ty.isOptional = true ∧ w = ty.absent) ∨ Encoded ty w := by
        rcases hPart with hAbsent | hPart
        · exact .inl hAbsent
        · exact .inr (hEach _ List.mem_cons_self w hTy hPart)
      have hFirst :=
        part_encoded hEncoded (hNew name List.mem_cons_self)
      rcases hFirst with ⟨next, hNext, hDenotes, hOther⟩
      have hStillNew :
          ∀ other, some other ∈ parts.map Prod.fst →
            next.lookup other = none := by
        intro other hMem
        have hNe : other ≠ name := by
          rintro rfl
          exact hNodup.1 hMem
        rw [hOther other hNe]
        exact hNew other (List.mem_cons_of_mem _ hMem)
      have hRest :=
        ih (fun x hMem => hEach x (List.mem_cons_of_mem _ hMem))
          hPlain hNodup.2 hParts hStillNew
      rcases hRest with ⟨all, hAll, hAllDenotes, hAllOther⟩
      refine ⟨all, ?_, ?_, ?_⟩
      · unfold serializeParts
        rw [hNext, Option.bind_some, hAll]
      · unfold DenotesParts DenotesPart
        refine ⟨w, ws, rfl, ?_, hAllDenotes⟩
        rw [hAllOther name hNodup.1]
        exact hDenotes
      · intro other hNot
        rw [List.map_cons, List.mem_cons, not_or] at hNot
        rw [hAllOther other hNot.2]
        apply hOther
        rintro rfl
        exact hNot.1 rfl

/- A whole value goes in as JSON that denotes it. -/
theorem whole_encoded
    {ty : Ty}
    {v : Val δ}
    (hPlain : Plain ty)
    (hWhole : Whole ty v) :
    Encoded ty v := by
  induction ty using Ty.induct generalizing v with
  | null =>
      unfold Whole at hWhole
      subst hWhole
      refine ⟨.null, fun _ _ => rfl, ?_⟩
      unfold Denotes
      exact ⟨rfl, rfl⟩
  | bool =>
      unfold Whole at hWhole
      rcases hWhole with ⟨b, rfl⟩
      refine ⟨.bool b, fun _ _ => rfl, ?_⟩
      unfold Denotes
      exact ⟨b, rfl, rfl⟩
  | int type | enum underlying =>
      unfold Whole at hWhole
      rcases hWhole with ⟨n, hIn, rfl⟩
      refine ⟨.long (Int64.ofInt n), fun _ _ => rfl, ?_⟩
      unfold Denotes
      exact ⟨_, rfl, by rw [IntType.cast_long hIn]⟩
  | string =>
      unfold Whole at hWhole
      rcases hWhole with ⟨str, rfl⟩
      refine ⟨.string str, fun _ _ => rfl, ?_⟩
      unfold Denotes
      exact ⟨str, rfl, rfl⟩
  | json =>
      unfold Whole at hWhole
      rcases hWhole with ⟨json, rfl⟩
      refine ⟨json, fun _ _ => rfl, ?_⟩
      unfold Denotes
      rfl
  | vector element ih =>
      unfold Whole at hWhole
      unfold Plain at hPlain
      rcases hWhole with ⟨vs, rfl, hEach⟩
      have hElements :=
        elements_encoded vs
          (fun w hMem => ih hPlain (hEach w hMem)) []
      rcases hElements with ⟨es, hAll, hDenotes⟩
      refine ⟨.array es, fun result fieldName => ?_, ?_⟩
      · rw [serialize, hAll, Option.bind_some, List.nil_append]
      · unfold Denotes
        exact ⟨es, vs, rfl, rfl, hDenotes⟩
  | union alternatives ih | optional alternatives ih =>
      unfold Whole at hWhole
      unfold Plain at hPlain
      rcases hWhole with ⟨tag, w, rfl, hAt⟩
      have hUnion :=
        alternative_encoded (fun alt hMem w => ih alt hMem)
          hPlain hAt 0
      rcases hUnion with ⟨json, hIn, hFirst⟩
      refine ⟨json, hIn, ?_⟩
      unfold Denotes
      rw [Nat.zero_add] at hFirst
      exact hFirst
  | optionalJSON =>
      unfold Whole at hWhole
      rcases hWhole with ⟨json, hValid, rfl⟩
      refine ⟨json, fun result fieldName => ?_, ?_⟩
      · rw [serialize, if_neg (by rw [hValid]; decide)]
      · unfold Denotes
        rfl
  | struct parts ih =>
      unfold Whole at hWhole
      unfold Plain at hPlain
      rcases hWhole with ⟨vs, rfl, hParts⟩
      have hNew :
          ∀ name, some name ∈ parts.map Prod.fst →
            ([] : Members δ).lookup name = none :=
        fun _ _ => rfl
      have hObject :=
        parts_encoded (fun part hMem w => ih part hMem)
          hPlain.2 hPlain.1 hParts hNew
      rcases hObject with ⟨members, hMembers, hDenotes, _⟩
      refine ⟨.object members, fun result fieldName => ?_, ?_⟩
      · rw [serialize, hMembers, Option.bind_some]
      · unfold Denotes
        exact ⟨members, vs, rfl, rfl, hDenotes⟩

/- JSON is read if and only if it conforms, as the value it
   denotes; a value is serialized, and a whole one read back. -/
theorem codec
    (ty : Ty)
    (json : JSON δ)
    (value : Val δ) :
    (ofJSON ty json = .ok value ↔ Denotes ty json value) ∧
      (Plain ty → HasType ty value →
        ∃ encoded,
          toJSON ty value = some encoded ∧
            (Whole ty value → ofJSON ty encoded = .ok value)) := by
  constructor
  · exact ofJSON_eq_ok_iff
  · intro hPlain hType
    rcases toJSON_of_hasType hPlain hType with ⟨encoded, hTo⟩
    refine ⟨encoded, hTo, fun hWhole => ?_⟩
    rcases whole_encoded hPlain hWhole with ⟨found, hIn, hDenotes⟩
    rw [goesIn_toJSON hIn] at hTo
    cases hTo
    exact ofJSON_eq_ok_iff.mpr hDenotes

/- `Union<int, std::string>` -/
def idType : Ty :=
  .union [.int ⟨true, .w32⟩, .string]

/- A string is no integer, and is read back. -/
theorem codec_string :
    ∃ encoded : JSON Empty,
      toJSON idType (.union 1 (.string [0x61])) = some encoded ∧
        ofJSON idType encoded =
          .ok (.union 1 (.string [0x61])) := by
  have hPlain : Plain idType := by
    simp [Plain, PlainAll, idType]
  have hType :
      HasType idType (.union 1 (.string [0x61]) : Val Empty) := by
    simp [HasType, HasTypeAt, idType]
  have hWhole :
      Whole idType (.union 1 (.string [0x61]) : Val Empty) := by
    simp [Whole, WholeAt, idType, toJSON, serialize,
      serializeAlternative, append, Surface]
  rcases (codec idType .null _).2 hPlain hType with
    ⟨encoded, hTo, hBack⟩
  exact ⟨encoded, hTo, hBack hWhole⟩

----
-- Deep Conformance
----

mutual

/- The JSON conforms all the way down to some alternative of
   each union, and integers fit. -/
def Conforms : Ty → JSON δ → Prop
  | .null, json => json = .null
  | .bool, json => ∃ b, json = .bool b
  | .int type, json =>
      ∃ n, json = .long n ∧ type.Contains n.toInt
  | .string, json => ∃ str, json = .string str
  | .json, _ => True
  | .enum underlying, json =>
      ∃ n, json = .long n ∧ underlying.Contains n.toInt
  | .vector element, json =>
      ∃ es, json = .array es ∧ ∀ e ∈ es, Conforms element e
  | .union alternatives, json => ConformsSome alternatives json
  | .optional alternatives, json => ConformsSome alternatives json
  | .optionalJSON, _ => True
  | .struct parts, json =>
      ∃ members, json = .object members ∧
        ConformsParts parts members

def ConformsSome : List Ty → JSON δ → Prop
  | [], _ => False
  | alt :: alternatives, json =>
      Conforms alt json ∨ ConformsSome alternatives json

def ConformsParts :
    List (Option FieldName × Ty) → Members δ → Prop
  | [], _ => True
  | part :: parts, members =>
      ConformsPart part members ∧ ConformsParts parts members

def ConformsPart :
    Option FieldName × Ty → Members δ → Prop
  | ⟨none, ty⟩, members => Conforms ty (.object members)
  | ⟨some fieldName, ty⟩, members =>
      (members.lookup fieldName).elim (ty.isOptional = true)
        (fun json => Conforms ty json)

end

def byteType : Ty :=
  .int ⟨false, .w8⟩

/- `Union<std::vector<uint8_t>, std::vector<std::string>>` -/
def arraysType : Ty :=
  .union [.vector byteType, .vector .string]

/- Conforming is not what makes JSON readable: elements of
   arrays do not tell alternatives apart, and integers may be
   out of range.  Empty unions and elements are not read back. -/
theorem not_conforms_codec :
    (Conforms arraysType (.array [.string [0x61]] : JSON Empty) ∧
        ∀ v, ofJSON arraysType
          (.array [.string [0x61]] : JSON Empty) ≠ .ok v) ∧
      (¬Conforms byteType (.long 300 : JSON Empty) ∧
        ofJSON byteType (.long 300 : JSON Empty) =
          .ok (.int 44)) ∧
      (toJSON idType (.unset : Val Empty) = some .invalid ∧
        ∀ v, ofJSON idType (.invalid : JSON Empty) ≠ .ok v) ∧
      (toJSON (.vector (.optional [.bool]))
          (.vector [.unset] : Val Empty) = some (.array []) ∧
        ofJSON (.vector (.optional [.bool]))
          (.array [] : JSON Empty) = .ok (.vector [])) := by
  refine ⟨⟨?_, ?_⟩, ⟨?_, ?_⟩, ⟨rfl, ?_⟩, rfl, rfl⟩
  · simp [Conforms, ConformsSome, arraysType]
  · intro v hRead
    rw [ofJSON_eq_ok_iff] at hRead
    simp [Denotes, DenotesFirst, Surface, arraysType, byteType]
      at hRead
    rcases hRead with ⟨_, hAll, _⟩
    cases hAll with
    | cons hFirst _ =>
        rcases hFirst with ⟨_, hEq, _⟩
        cases hEq
  · simp [Conforms, byteType, IntType.Contains, IntType.max,
      IntWidth.size]
  · rfl
  · intro v hRead
    rw [ofJSON_eq_ok_iff] at hRead
    simp [Denotes, DenotesFirst, Surface, idType] at hRead

end Serialize

end Ydsh
