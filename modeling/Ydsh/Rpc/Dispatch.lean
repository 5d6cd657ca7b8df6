import Ydsh.Library.Run
import Ydsh.Serialize.Universe
import Ydsh.Rpc.Message
import Ydsh.Rpc.Transport

/-
  One side of a JSON-RPC connection.

  A thread dispatches incoming messages one after another;
  others send calls and notifications at any time.  A message
  is sent in two writes, and other threads may write between
  them.  The state keeps what has happened so far.

  Main declarations:
    * `CallbackMap`
    * `State`
    * `step`
-/

----
-- Callbacks
----

namespace Ydsh

namespace Rpc

open Json (JSON DoubleText serializeText)
open Serialize (Ty Val ofJSON text)

variable {δ κ : Type}

/- A callback of type `κ` and what type of result it takes. -/
structure Entry (κ : Type) where
  methodName : List UInt8
  ret : Ty
  callback : κ

/- What the callback is called with. -/
def Entry.respond
    (entry : Entry κ)
    (res : Response δ) : Except (Error δ) (Val δ) :=
  match res.error with
  | some error => .error error
  | none =>
      match ofJSON entry.ret res.result with
      | .ok v => .ok v
      | .error e =>
          .error ⟨ErrorCode.InvalidParams, e.formatError, .invalid⟩

structure CallbackMap (κ : Type) where
  map : List (Int × Entry κ) := []
  index : Int := 0

/- `long` -/
def LONG_MAX : Int :=
  0x7FFFFFFFFFFFFFFF

namespace CallbackMap

/- No result: the index overflows. -/
def add
    (callbackMap : CallbackMap κ)
    (entry : Entry κ) : Option (Int × CallbackMap κ) :=
  if callbackMap.index < LONG_MAX then
    let id := callbackMap.index + 1
    if (callbackMap.map.lookup id).isSome then
      some (0, { callbackMap with index := id })
    else
      some (id, ⟨callbackMap.map ++ [(id, entry)], id⟩)
  else
    none

def take
    (callbackMap : CallbackMap κ)
    (id : Int) : Option (Entry κ) × CallbackMap κ :=
  match callbackMap.map.lookup id with
  | some entry =>
      (some entry,
        { callbackMap with
          map := callbackMap.map.filter (fun e => e.1 != id) })
  | none => (none, callbackMap)

end CallbackMap

----
-- States
----

inductive Sent (δ : Type) where
  | call (id : JSON δ) (methodName : List UInt8) (params : JSON δ)
  | notify (methodName : List UInt8) (params : JSON δ)
  | reply (id : JSON δ) (answer : Except (Error δ) (JSON δ))

namespace Sent

def request
    (id : JSON δ)
    (methodName : List UInt8)
    (params : JSON δ) : Request δ :=
  { id := id
    method := methodName
    params := params }

def response
    (id : JSON δ) :
    Except (Error δ) (JSON δ) → Response δ
  | .ok result =>
      { id := id
        result := result }
  | .error error =>
      { id := id
        error := some error }

/- The JSON whose text is sent. -/
def toJSON : Sent δ → Option (JSON δ)
  | call id methodName params =>
      Serialize.toJSON requestType
        (request id methodName params).toVal
  | notify methodName params =>
      Serialize.toJSON requestType
        (request .invalid methodName params).toVal
  | reply id answer =>
      Serialize.toJSON responseType (response id answer).toVal

def payload
    (doubles : DoubleText δ)
    (message : Sent δ) : Payload :=
  .cut (message.toJSON.elim [] (serializeText doubles 0))

/- A reply carries the id it is sent with. -/
theorem reply_id
    (id : JSON δ)
    (answer : Except (Error δ) (JSON δ)) :
    ∃ members : List (List UInt8 × JSON δ),
      (reply id answer).toJSON = some (.object members) ∧
        members.lookup (text "id") = some id := by
  cases answer with
  | error error =>
      rcases error with ⟨code, message, data⟩
      cases data <;> exact ⟨_, rfl, rfl⟩
  | ok result => cases result <;> exact ⟨_, rfl, rfl⟩

end Sent

/- How far the dispatching thread is. -/
inductive Doing (δ : Type) where
  | idle
  | receiving (size : Nat)
  | handling (source : List UInt8)
  | replying (id : JSON δ) (answer : Except (Error δ) (JSON δ))
  -- the header is written
  | writing (data : List UInt8)

/- A call is registered, or a message is taken up. -/
inductive Event (κ : Type) where
  | call (id : Int) (entry : Entry κ)
  | message (source : List UInt8)

structure Invocation (δ κ : Type) where
  id : Int
  entry : Entry κ
  argument : Except (Error δ) (Val δ)

/- `writing` holds what other threads are still to write. -/
structure State (δ κ : Type) where
  input : List UInt8
  output : List UInt8 := []
  doing : Doing δ := .idle
  writing : List (List UInt8) := []
  callbackMap : CallbackMap κ := {}
  unsent : List (Int × List UInt8 × JSON δ) := []
  sent : List (Sent δ) := []
  history : List (Event κ) := []
  invoked : List (Invocation δ κ) := []

/- `callMap` holds the names of the methods; what a method
   answers is not known. -/
structure Server (δ : Type) where
  doubles : DoubleText δ
  formatError : List UInt8 → List UInt8
  callMap : List (List UInt8)

def Server.parse
    (server : Server δ)
    (source : List UInt8) : Message δ :=
  MessageParser.parse server.doubles server.formatError source

def onCall
    (server : Server δ)
    (name : List UInt8)
    (answer : Except (Error δ) (JSON δ)) :
    Except (Error δ) (JSON δ) :=
  if server.callMap.contains name then
    answer
  else
    .error
      ⟨ErrorCode.MethodNotFound,
        text "undefined method: " ++ name, .invalid⟩

/- No result: an assertion fails. -/
def onResponse
    (s : State δ κ)
    (res : Response δ) : Option (State δ κ) :=
  match res.id with
  | .long id =>
      let found := s.callbackMap.take id.toInt
      some
        { s with
          doing := .idle
          callbackMap := found.2
          invoked :=
            s.invoked ++
              (found.1.map
                (fun entry =>
                  ⟨id.toInt, entry, entry.respond res⟩)).toList }
  | _ => none

/- The branches of `dispatch`. -/
def process
    (server : Server δ)
    (answer : Except (Error δ) (JSON δ))
    (s : State δ κ) : Message δ → Option (State δ κ)
  | .error error =>
      some { s with doing := .replying .null (.error error) }
  | .request req =>
      if req.isCall then
        some
          { s with
            doing :=
              .replying req.id (onCall server req.method answer) }
      else
        some { s with doing := .idle }
  | .response res => onResponse s res

----
-- Steps
----

/-
  `fuel` bounds the pieces in which a message is read, and
  `answer` is what the method answers.
-/
inductive Act (δ κ : Type) where
  | begin
  | receive (fuel : Nat)
  | handle (answer : Except (Error δ) (JSON δ))
  | reply
  | replyData
  | add (entry : Entry κ) (params : JSON δ)
  | call (id : Int)
  | notify (methodName : List UInt8) (params : JSON δ)
  | data (index : Nat)

/- Without a size the dispatch is over. -/
def begin (s : State δ κ) : Option (State δ κ) :=
  match s.doing with
  | .idle =>
      let found := recvSize 0 s.input
      if found.1 < 0 then
        some { s with input := found.2 }
      else
        some
          { s with
            input := found.2
            doing := .receiving found.1.toNat }
  | _ => none

def receiveMessage
    (fuel : Nat)
    (s : State δ κ) : Option (State δ κ) :=
  match s.doing with
  | .receiving size =>
      (recvMessage fuel size [] s.input).map
        (fun got =>
          { s with
            input := got.2
            doing := .handling got.1 })
  | _ => none

def handle
    (server : Server δ)
    (answer : Except (Error δ) (JSON δ))
    (s : State δ κ) : Option (State δ κ) :=
  match s.doing with
  | .handling source =>
      process server answer
        { s with history := s.history ++ [.message source] }
        (server.parse source)
  | _ => none

/- The first write of `send`. -/
def startSend
    (server : Server δ)
    (message : Sent δ)
    (s : State δ κ) : State δ κ :=
  { s with
    output := s.output ++ header (message.payload server.doubles)
    sent := s.sent ++ [message] }

def reply
    (server : Server δ)
    (s : State δ κ) : Option (State δ κ) :=
  match s.doing with
  | .replying id answer =>
      let message := Sent.reply id answer
      some
        { startSend server message s with
          doing := .writing (message.payload server.doubles).data }
  | _ => none

def replyData (s : State δ κ) : Option (State δ κ) :=
  match s.doing with
  | .writing data =>
      some
        { s with
          output := s.output ++ data
          doing := .idle }
  | _ => none

/- No call has the id 0. -/
def registered
    (history : List (Event κ))
    (id : Int)
    (entry : Entry κ) : List (Event κ) :=
  if id = 0 then history else history ++ [.call id entry]

/- The first half of `callImpl`. -/
def addCall
    (entry : Entry κ)
    (params : JSON δ)
    (s : State δ κ) : Option (State δ κ) :=
  (s.callbackMap.add entry).map
    (fun found =>
      { s with
        callbackMap := found.2
        unsent := s.unsent ++ [(found.1, entry.methodName, params)]
        history := registered s.history found.1 entry })

/- Another thread starts to send. -/
def sendOther
    (server : Server δ)
    (message : Sent δ)
    (s : State δ κ) : State δ κ :=
  { startSend server message s with
    writing :=
      s.writing ++ [(message.payload server.doubles).data] }

/- The second half sends the request. -/
def sendCall
    (server : Server δ)
    (id : Int)
    (s : State δ κ) : Option (State δ κ) :=
  (s.unsent.lookup id).map
    (fun found =>
      { sendOther server
          (.call (.long (Int64.ofInt id)) found.1 found.2) s with
        unsent := s.unsent.filter (fun e => e.1 != id) })

/- The second write of one of the other threads. -/
def writeData
    (index : Nat)
    (s : State δ κ) : Option (State δ κ) :=
  (s.writing[index]?).map
    (fun data =>
      { s with
        output := s.output ++ data
        writing := s.writing.eraseIdx index })

def step
    (server : Server δ)
    (s : State δ κ) : Act δ κ → Option (State δ κ)
  | .begin => begin s
  | .receive fuel => receiveMessage fuel s
  | .handle answer => handle server answer s
  | .reply => reply server s
  | .replyData => replyData s
  | .add entry params => addCall entry params s
  | .call id => sendCall server id s
  | .notify methodName params =>
      some (sendOther server (.notify methodName params) s)
  | .data index => writeData index s

def finishData (s : State δ κ) : Option (State δ κ) :=
  match s.doing with
  | .writing _ => replyData s
  | _ => some s

def finishReply
    (server : Server δ)
    (s : State δ κ) : Option (State δ κ) :=
  match s.doing with
  | .replying _ _ => (reply server s).bind finishData
  | _ => finishData s

def finishHandling
    (server : Server δ)
    (answer : Except (Error δ) (JSON δ))
    (s : State δ κ) : Option (State δ κ) :=
  match s.doing with
  | .handling _ =>
      (handle server answer s).bind (finishReply server)
  | _ => finishReply server s

/- `dispatch` from where the thread is to its end. -/
def finish
    (server : Server δ)
    (fuel : Nat)
    (answer : Except (Error δ) (JSON δ))
    (s : State δ κ) : Option (State δ κ) :=
  match s.doing with
  | .receiving _ =>
      (receiveMessage fuel s).bind (finishHandling server answer)
  | _ => finishHandling server answer s

end Rpc

end Ydsh
