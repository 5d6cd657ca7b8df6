import Ydsh.Serialize.Exact
import Ydsh.Rpc.Message

/-
  What JSON is a request and what JSON is a response, told by
  the members it has.  The parser takes what has the other
  members of a response for one, also without a result and
  without an error.

  Main declarations:
    * `IsRequest`
    * `HasResponse`
    * `IsResponse`
    * `ofJSON_message_iff`
-/

----
-- Kinds
----

namespace Ydsh

namespace Rpc

open Json (JSON DoubleText parseText done)
open Serialize

variable {δ : Type}

/- An absent member is invalid JSON. -/
def memberOf
    (members : Members δ)
    (name : String) : JSON δ :=
  (members.lookup (text name)).getD .invalid

def IsRequest
    (json : JSON δ)
    (req : Request δ) : Prop :=
  ∃ members : Members δ,
    json = .object members ∧
      members.lookup (text "jsonrpc") =
        some (.string req.jsonrpc) ∧
      members.lookup (text "method") =
        some (.string req.method) ∧
      memberOf members "id" = req.id ∧
      memberOf members "params" = req.params

def IsError
    (json : JSON δ)
    (error : Error δ) : Prop :=
  ∃ (members : Members δ) (code : Int64),
    json = .object members ∧
      members.lookup (text "code") = some (.long code) ∧
      (⟨true, .w32⟩ : IntType).cast code.toInt = error.code ∧
      members.lookup (text "message") =
        some (.string error.message) ∧
      memberOf members "data" = error.data

/- The member of that name is the error, or absent. -/
def HasError
    (members : Members δ)
    (error : Option (Error δ)) : Prop :=
  (members.lookup (text "error")).elim (error = none)
    (fun json => ∃ found, IsError json found ∧ error = some found)

/- The members of a response that the parser looks for. -/
def HasResponse
    (json : JSON δ)
    (res : Response δ) : Prop :=
  ∃ members : Members δ,
    json = .object members ∧
      members.lookup (text "jsonrpc") =
        some (.string res.jsonrpc) ∧
      members.lookup (text "id") = some res.id ∧
      memberOf members "result" = res.result ∧
      HasError members res.error

/- A response has a result or an error. -/
def IsResponse
    (json : JSON δ)
    (res : Response δ) : Prop :=
  HasResponse json res ∧
    (res.result.isInvalid = false ∨ res.error ≠ none)

----
-- Reading
----

theorem denotes_optionalJSON_iff
    {members : Members δ}
    {name : String}
    {v : Val δ} :
    DenotesPart (some (text name), .optionalJSON) members v ↔
      v = .json (memberOf members name) := by
  unfold DenotesPart memberOf
  cases members.lookup (text name) with
  | none => simp [Ty.isOptional, Ty.absent]
  | some json => simp [Denotes]

theorem denotes_string_iff
    {members : Members δ}
    {name : String}
    {v : Val δ} :
    DenotesPart (some (text name), .string) members v ↔
      ∃ str, members.lookup (text name) = some (.string str) ∧
        v = .string str := by
  unfold DenotesPart
  cases members.lookup (text name) with
  | none => simp [Ty.isOptional]
  | some json => simp [Denotes]

theorem denotes_json_iff
    {members : Members δ}
    {name : String}
    {v : Val δ} :
    DenotesPart (some (text name), .json) members v ↔
      ∃ json, members.lookup (text name) = some json ∧
        v = .json json := by
  unfold DenotesPart
  cases members.lookup (text name) with
  | none => simp [Ty.isOptional]
  | some json => simp [Denotes]

theorem denotes_int_iff
    {type : IntType}
    {members : Members δ}
    {name : String}
    {v : Val δ} :
    DenotesPart (some (text name), .int type) members v ↔
      ∃ n, members.lookup (text name) = some (.long n) ∧
        v = .int (type.cast n.toInt) := by
  unfold DenotesPart
  cases members.lookup (text name) with
  | none => simp [Ty.isOptional]
  | some json => simp [Denotes]

theorem surface_optionalJSON
    {members : Members δ}
    {name : String} :
    SurfacePart (some (text name), .optionalJSON) members ↔
      True := by
  unfold SurfacePart
  cases members.lookup (text name) with
  | none => simp [Ty.isOptional]
  | some json => simp [fieldSurface, Surface]

theorem surface_string_iff
    {members : Members δ}
    {name : String} :
    SurfacePart (some (text name), .string) members ↔
      ∃ str, members.lookup (text name) = some (.string str) := by
  unfold SurfacePart
  cases members.lookup (text name) with
  | none => simp [Ty.isOptional]
  | some json => simp [fieldSurface, Surface]

theorem surface_json_iff
    {members : Members δ}
    {name : String} :
    SurfacePart (some (text name), .json) members ↔
      ∃ json, members.lookup (text name) = some json := by
  unfold SurfacePart
  cases members.lookup (text name) with
  | none => simp [Ty.isOptional]
  | some json => simp [fieldSurface, Surface]

theorem surface_int_iff
    {type : IntType}
    {members : Members δ}
    {name : String} :
    SurfacePart (some (text name), .int type) members ↔
      ∃ n, members.lookup (text name) = some (.long n) := by
  unfold SurfacePart
  cases members.lookup (text name) with
  | none => simp [Ty.isOptional]
  | some json => simp [fieldSurface, Surface]

theorem denotes_request_iff
    {json : JSON δ}
    {v : Val δ} :
    Denotes requestType json v ↔
      ∃ req, IsRequest json req ∧ v = req.toVal := by
  simp only [requestType, Denotes, DenotesParts,
    denotes_optionalJSON_iff, denotes_string_iff]
  constructor
  · rintro ⟨members, _, rfl, rfl, _, _, rfl,
      ⟨jsonrpc, hJsonrpc, rfl⟩, _, _, rfl, rfl, _, _, rfl,
      ⟨method, hMethod, rfl⟩, _, _, rfl, rfl, rfl⟩
    exact
      ⟨⟨jsonrpc, _, method, _⟩,
        ⟨members, rfl, hJsonrpc, hMethod, rfl, rfl⟩, rfl⟩
  · rintro ⟨⟨jsonrpc, id, method, params⟩,
      ⟨members, rfl, hJsonrpc, hMethod, rfl, rfl⟩, rfl⟩
    exact
      ⟨members, _, rfl, rfl, _, _, rfl, ⟨jsonrpc, hJsonrpc, rfl⟩,
        _, _, rfl, rfl, _, _, rfl, ⟨method, hMethod, rfl⟩, _, _,
        rfl, rfl, rfl⟩

theorem denotes_error_iff
    {json : JSON δ}
    {v : Val δ} :
    Denotes errorType json v ↔
      ∃ error, IsError json error ∧ v = error.toVal := by
  simp only [errorType, Denotes, DenotesParts,
    denotes_optionalJSON_iff, denotes_string_iff, denotes_int_iff]
  constructor
  · rintro ⟨members, _, rfl, rfl, _, _, rfl,
      ⟨code, hCode, rfl⟩, _, _, rfl, ⟨message, hMessage, rfl⟩,
      _, _, rfl, rfl, rfl⟩
    exact
      ⟨⟨_, message, _⟩,
        ⟨members, code, rfl, hCode, rfl, hMessage, rfl⟩, rfl⟩
  · rintro ⟨⟨_, message, data⟩,
      ⟨members, code, rfl, hCode, rfl, hMessage, rfl⟩, rfl⟩
    exact
      ⟨members, _, rfl, rfl, _, _, rfl, ⟨code, hCode, rfl⟩,
        _, _, rfl, ⟨message, hMessage, rfl⟩, _, _, rfl, rfl, rfl⟩

theorem surface_error_iff {json : JSON δ} :
    Surface errorType json ↔ ∃ error, IsError json error := by
  simp only [errorType, Surface, SurfaceParts,
    surface_optionalJSON, surface_string_iff, surface_int_iff,
    and_true]
  constructor
  · rintro ⟨members, rfl, ⟨code, hCode⟩, message, hMessage⟩
    exact
      ⟨⟨_, message, _⟩,
        members, code, rfl, hCode, rfl, hMessage, rfl⟩
  · rintro ⟨error, members, code, rfl, hCode, _, hMessage, _⟩
    exact ⟨members, rfl, ⟨code, hCode⟩, error.message, hMessage⟩

theorem surface_request_iff {json : JSON δ} :
    Surface requestType json ↔ ∃ req, IsRequest json req := by
  simp only [requestType, Surface, SurfaceParts,
    surface_optionalJSON, surface_string_iff, true_and, and_true]
  constructor
  · rintro ⟨members, rfl, ⟨jsonrpc, hJsonrpc⟩, method, hMethod⟩
    exact
      ⟨⟨jsonrpc, _, method, _⟩,
        members, rfl, hJsonrpc, hMethod, rfl, rfl⟩
  · rintro ⟨req, members, rfl, hJsonrpc, hMethod, _⟩
    exact ⟨members, rfl, ⟨_, hJsonrpc⟩, _, hMethod⟩

/- An error is read whenever it is there. -/
theorem denotes_optionalError_iff
    {members : Members δ}
    {v : Val δ} :
    DenotesPart
        (some (text "error"), .optional [errorType]) members v ↔
      ∃ error, HasError members error ∧
        v =
          error.elim .unset (fun error => .union 0 error.toVal) := by
  unfold DenotesPart HasError
  cases members.lookup (text "error") with
  | none => simp [Ty.isOptional, Ty.absent]
  | some json =>
      simp only [Option.elim_some, Denotes, DenotesFirst,
        and_false, or_false, denotes_error_iff, surface_error_iff]
      constructor
      · rintro ⟨_, w, ⟨error, hError, rfl⟩, rfl⟩
        exact ⟨some error, ⟨error, hError, rfl⟩, rfl⟩
      · rintro ⟨_, ⟨error, hError, rfl⟩, rfl⟩
        exact ⟨⟨error, hError⟩, _, ⟨error, hError, rfl⟩, rfl⟩

theorem surface_optionalError_iff {members : Members δ} :
    SurfacePart
        (some (text "error"), .optional [errorType]) members ↔
      ∃ error, HasError members error := by
  unfold SurfacePart HasError
  cases members.lookup (text "error") with
  | none => simp [Ty.isOptional]
  | some json =>
      simp only [Option.elim_some, fieldSurface, Surface,
        SurfaceSome, or_false, surface_error_iff]
      constructor
      · rintro ⟨error, hError⟩
        exact ⟨some error, error, hError, rfl⟩
      · rintro ⟨_, error, hError, _⟩
        exact ⟨error, hError⟩

theorem denotes_response_iff
    {json : JSON δ}
    {v : Val δ} :
    Denotes responseType json v ↔
      ∃ res, HasResponse json res ∧ v = res.toVal := by
  simp only [responseType, Denotes, DenotesParts,
    denotes_optionalJSON_iff, denotes_string_iff,
    denotes_json_iff, denotes_optionalError_iff]
  constructor
  · rintro ⟨members, _, rfl, rfl, _, _, rfl,
      ⟨jsonrpc, hJsonrpc, rfl⟩, _, _, rfl, ⟨id, hId, rfl⟩, _, _,
      rfl, rfl, _, _, rfl, ⟨error, hError, rfl⟩, rfl⟩
    exact
      ⟨⟨jsonrpc, id, _, error⟩,
        ⟨members, rfl, hJsonrpc, hId, rfl, hError⟩, rfl⟩
  · rintro ⟨⟨jsonrpc, id, result, error⟩,
      ⟨members, rfl, hJsonrpc, hId, rfl, hError⟩, rfl⟩
    exact
      ⟨members, _, rfl, rfl, _, _, rfl, ⟨jsonrpc, hJsonrpc, rfl⟩,
        _, _, rfl, ⟨id, hId, rfl⟩, _, _, rfl, rfl, _, _, rfl,
        ⟨error, hError, rfl⟩, rfl⟩

theorem surface_response_iff {json : JSON δ} :
    Surface responseType json ↔ ∃ res, HasResponse json res := by
  simp only [responseType, Surface, SurfaceParts,
    surface_optionalJSON, surface_string_iff, surface_json_iff,
    surface_optionalError_iff, true_and, and_true]
  constructor
  · rintro ⟨members, rfl, ⟨jsonrpc, hJsonrpc⟩, ⟨id, hId⟩,
      error, hError⟩
    exact
      ⟨⟨jsonrpc, id, _, error⟩,
        members, rfl, hJsonrpc, hId, rfl, hError⟩
  · rintro ⟨res, members, rfl, hJsonrpc, hId, _, hError⟩
    exact
      ⟨members, rfl, ⟨_, hJsonrpc⟩, ⟨_, hId⟩, res.error, hError⟩

/- A message is a request if it can be, or else a response. -/
theorem ofJSON_message_iff
    {json : JSON δ}
    {v : Val δ} :
    ofJSON messageType json = .ok v ↔
      (∃ req, IsRequest json req ∧ v = .union 0 req.toVal) ∨
        (¬∃ req, IsRequest json req) ∧
          ∃ res, HasResponse json res ∧ v = .union 1 res.toVal := by
  rw [ofJSON_eq_ok_iff]
  simp only [messageType, Denotes, DenotesFirst,
    denotes_request_iff, denotes_response_iff,
    surface_request_iff, surface_response_iff, and_false,
    or_false]
  constructor
  · rintro (⟨_, _, ⟨req, hReq, rfl⟩, rfl⟩ |
      ⟨hNot, _, _, ⟨res, hRes, rfl⟩, rfl⟩)
    · exact .inl ⟨req, hReq, rfl⟩
    · exact .inr ⟨hNot, res, hRes, rfl⟩
  · rintro (⟨req, hReq, rfl⟩ | ⟨hNot, res, hRes, rfl⟩)
    · exact .inl ⟨⟨req, hReq⟩, _, ⟨req, hReq, rfl⟩, rfl⟩
    · exact
        .inr ⟨hNot, ⟨res, hRes⟩, _, ⟨res, hRes, rfl⟩, rfl⟩

----
-- Parsing
----

theorem Request.ofVal_toVal (req : Request δ) :
    Request.ofVal req.toVal = some req :=
  rfl

theorem Response.ofVal_toVal (res : Response δ) :
    Response.ofVal res.toVal = some res := by
  rcases res with ⟨jsonrpc, id, result, error⟩
  cases error with
  | none => rfl
  | some error => rfl

namespace MessageParser

variable {doubles : DoubleText δ}
variable {formatError : List UInt8 → List UInt8}
variable {source : List UInt8}
variable {json : JSON δ}

theorem parse_of_request
    (hText : parseText doubles source = done json)
    {req : Request δ}
    (hReq : IsRequest json req) :
    parse doubles formatError source = checkRequest req := by
  have hRead : ofJSON messageType json = .ok (.union 0 req.toVal) :=
    ofJSON_message_iff.mpr (.inl ⟨req, hReq, rfl⟩)
  unfold parse
  simp only [hText, done, hRead, check, Request.ofVal_toVal,
    Option.map_some, Option.getD_some]

theorem parse_of_response
    (hText : parseText doubles source = done json)
    (hNot : ¬∃ req, IsRequest json req)
    {res : Response δ}
    (hRes : HasResponse json res) :
    parse doubles formatError source = checkResponse res := by
  have hRead : ofJSON messageType json = .ok (.union 1 res.toVal) :=
    ofJSON_message_iff.mpr (.inr ⟨hNot, res, hRes, rfl⟩)
  unfold parse
  simp only [hText, done, hRead, check, Response.ofVal_toVal,
    Option.map_some, Option.getD_some]

/- Whatever is neither a request nor a response is an error. -/
theorem parse_cases
    (doubles : DoubleText δ)
    (formatError : List UInt8 → List UInt8)
    (source : List UInt8) :
    (∃ json, parseText doubles source = done json ∧
      ((∃ req, IsRequest json req) ∨ ∃ res, HasResponse json res)) ∨
    ∃ error, parse doubles formatError source = .error error := by
  unfold parse
  rcases hText : parseText doubles source with _ | (e | json)
  · right
    exact ⟨_, rfl⟩
  · right
    exact ⟨_, rfl⟩
  · cases hRead : ofJSON messageType json with
    | error e =>
        right
        simp only [hRead]
        exact ⟨_, rfl⟩
    | ok v =>
        left
        refine ⟨json, rfl, ?_⟩
        rcases ofJSON_message_iff.mp hRead with
          ⟨req, hReq, _⟩ | ⟨_, res, hRes, _⟩
        · exact .inl ⟨req, hReq⟩
        · exact .inr ⟨res, hRes⟩

end MessageParser

end Rpc

end Ydsh
