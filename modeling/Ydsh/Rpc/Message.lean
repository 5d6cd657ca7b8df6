import Ydsh.Serialize.Denotes

/-
  Messages of JSON-RPC and how the parser tells them apart.

  An optional field that is absent is invalid JSON.

  Main declarations:
    * `Request`
    * `Response`
    * `Message`
    * `MessageParser.parse`
-/

----
-- Messages
----

namespace Ydsh

namespace Rpc

open Json (JSON DoubleText ParseError parseText)
open Serialize (Ty Val ofJSON text)

structure Error (δ : Type) where
  code : Int
  message : List UInt8
  data : JSON δ := .invalid

structure Request (δ : Type) where
  jsonrpc : List UInt8 := text "2.0"
  id : JSON δ := .invalid
  method : List UInt8
  params : JSON δ := .invalid

structure Response (δ : Type) where
  jsonrpc : List UInt8 := text "2.0"
  id : JSON δ
  result : JSON δ := .invalid
  error : Option (Error δ) := none

inductive Message (δ : Type) where
  | request (req : Request δ)
  | response (res : Response δ)
  | error (error : Error δ)

namespace ErrorCode

def ParseError : Int := -32700

def InvalidRequest : Int := -32600

def MethodNotFound : Int := -32601

def InvalidParams : Int := -32602

end ErrorCode

variable {δ : Type}

def isNull : JSON δ → Bool
  | .null => true
  | _ => false

def isString : JSON δ → Bool
  | .string _ => true
  | _ => false

def isNumber : JSON δ → Bool
  | .long _ => true
  | .double _ => true
  | _ => false

def isArray : JSON δ → Bool
  | .array _ => true
  | _ => false

def isObject : JSON δ → Bool
  | .object _ => true
  | _ => false

/- A request without an id is a notification. -/
def Request.isCall (req : Request δ) : Bool :=
  !req.id.isInvalid && !isNull req.id

----
-- Types
----

/- What `jsonify` lists. -/
def errorType : Ty :=
  .struct
    [(some (text "code"), .int ⟨true, .w32⟩),
      (some (text "message"), .string),
      (some (text "data"), .optionalJSON)]

def requestType : Ty :=
  .struct
    [(some (text "jsonrpc"), .string),
      (some (text "id"), .optionalJSON),
      (some (text "method"), .string),
      (some (text "params"), .optionalJSON)]

def responseType : Ty :=
  .struct
    [(some (text "jsonrpc"), .string),
      (some (text "id"), .json),
      (some (text "result"), .optionalJSON),
      (some (text "error"), .optional [errorType])]

/- `Union<Request, Response>` -/
def messageType : Ty :=
  .union [requestType, responseType]

def Error.toVal (error : Error δ) : Val δ :=
  .struct [.int error.code, .string error.message, .json error.data]

def Error.ofVal : Val δ → Option (Error δ)
  | .struct [.int code, .string message, .json data] =>
      some ⟨code, message, data⟩
  | _ => none

def Request.toVal (req : Request δ) : Val δ :=
  .struct
    [.string req.jsonrpc, .json req.id, .string req.method,
      .json req.params]

def Request.ofVal : Val δ → Option (Request δ)
  | .struct
      [.string jsonrpc, .json id, .string method, .json params] =>
      some ⟨jsonrpc, id, method, params⟩
  | _ => none

def Response.toVal (res : Response δ) : Val δ :=
  .struct
    [.string res.jsonrpc, .json res.id, .json res.result,
      res.error.elim .unset (fun error => .union 0 error.toVal)]

def Response.ofVal : Val δ → Option (Response δ)
  | .struct [.string jsonrpc, .json id, .json result, .unset] =>
      some ⟨jsonrpc, id, result, none⟩
  | .struct
      [.string jsonrpc, .json id, .json result, .union _ error] =>
      (Error.ofVal error).map
        (fun error => ⟨jsonrpc, id, result, some error⟩)
  | _ => none

----
-- Parser
----

namespace MessageParser

def invalid (data : List UInt8) : Message δ :=
  .error
    ⟨ErrorCode.InvalidRequest, text "Invalid Request",
      .string data⟩

/- An absent id is invalid JSON, which passes. -/
def checkRequest (req : Request δ) : Message δ :=
  if !req.id.isInvalid && !isString req.id &&
      !isNumber req.id && !isNull req.id then
    invalid (text "id must be null|string|number")
  else if !req.params.isInvalid && !isNull req.params &&
      !isObject req.params && !isArray req.params then
    invalid (text "param must be array|object")
  else
    .request req

/- The error of a response is taken for an error of its own. -/
def checkResponse (res : Response δ) : Message δ :=
  match res.error with
  | some error => .error error
  | none =>
      if !isString res.id && !isNumber res.id then
        invalid (text "id must be string|number")
      else
        .response res

def check : Val δ → Message δ
  | .union 0 v =>
      ((Request.ofVal v).map checkRequest).getD (invalid [])
  | .union 1 v =>
      ((Response.ofVal v).map checkResponse).getD (invalid [])
  -- never reached: `fatal`
  | _ => invalid []

/- `formatError` is how the JSON parser shows its error. -/
def parse
    (doubles : DoubleText δ)
    (formatError : List UInt8 → List UInt8)
    (source : List UInt8) : Message δ :=
  match parseText doubles source with
  | some (.ok json) =>
      match ofJSON messageType json with
      | .ok value => check value
      | .error error => invalid error.formatError
  | _ =>
      .error
        ⟨ErrorCode.ParseError, text "Parse error",
          .string (formatError source)⟩

end MessageParser

end Rpc

end Ydsh
