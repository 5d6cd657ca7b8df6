import Mathlib.Data.List.Forall2
import Ydsh.Rpc.Classified
import Ydsh.Rpc.Dispatch

/-
  What a side of a connection is to do in any run, and which
  messages it does it for.

  What the text of a message means is told by the rules of JSON
  and not by the parser, which misreads some texts.

  Main declarations:
    * `Answers`
    * `Regular`
    * `Converses`
    * `Meets`
    * `message_cases`
-/

----
-- Messages
----

namespace Ydsh

namespace Rpc

open Json (JSON parseText done)

variable {δ κ : Type}

section Kinds

/- What a text means, if it is JSON. -/
variable (meaning : List UInt8 → Option (JSON δ))
variable (source : List UInt8)

def MeansRequest (req : Request δ) : Prop :=
  ∃ json, meaning source = some json ∧ IsRequest json req

def MeansResponse (res : Response δ) : Prop :=
  ∃ json,
    meaning source = some json ∧
      (¬∃ req, IsRequest json req) ∧ IsResponse json res

/- The response, successful or not, has the id of a call. -/
def Carries
    (id : Int)
    (res : Response δ) : Prop :=
  MeansResponse meaning source res ∧
    ∃ n, res.id = .long n ∧ n.toInt = id

/- The ids of the replies a message is to get; null is no id. -/
inductive Answers : List (JSON δ) → Prop where
  | request {req : Request δ} :
      MeansRequest meaning source req →
      req.isCall = true →
      Answers [req.id]
  | notification {req : Request δ} :
      MeansRequest meaning source req →
      req.isCall = false →
      Answers []
  | response {res : Response δ} :
      MeansResponse meaning source res →
      Answers []
  | malformed :
      (¬∃ req, MeansRequest meaning source req) →
      (¬∃ res, MeansResponse meaning source res) →
      Answers [.null]

/-
  The parser reads what the text means, requests are well
  formed and responses are successful.
-/
structure Regular (server : Server δ) : Prop where
  reads :
    ∀ json,
      parseText server.doubles source = done json ↔
        meaning source = some json
  id :
    ∀ req, MeansRequest meaning source req →
      req.id.isInvalid || isString req.id || isNumber req.id ||
        isNull req.id
  params :
    ∀ req, MeansRequest meaning source req →
      req.params.isInvalid || isNull req.params ||
        isObject req.params || isArray req.params
  response :
    ∀ json res, meaning source = some json →
      (¬∃ req, IsRequest json req) → HasResponse json res →
        res.result.isInvalid = false ∧ res.error = none ∧
          ∃ n, res.id = .long n

end Kinds

----
-- Properties
----

def Event.source? : Event κ → Option (List UInt8)
  | .message source => some source
  | .call _ _ => none

def sources (history : List (Event κ)) : List (List UInt8) :=
  history.filterMap Event.source?

section Properties

variable (meaning : List UInt8 → Option (JSON δ))
variable (server : Server δ)

/- The id in the text of a reply. -/
def Sent.replyId? : Sent δ → Option (JSON δ)
  | .reply id answer =>
      match
        meaning ((Sent.reply id answer).payload server.doubles).data
      with
      | some (.object members) => some (memberOf members "id")
      | _ => none
  | _ => none

def repliedIds (sent : List (Sent δ)) : List (JSON δ) :=
  sent.filterMap (Sent.replyId? meaning server)

/- The reply about to be sent. -/
def Doing.replyIds : Doing δ → List (JSON δ)
  | .replying id _ => [id]
  | _ => []

/- What threads that are sending are still to write. -/
def Doing.data : Doing δ → List (List UInt8)
  | .writing data => [data]
  | _ => []

def State.pending (s : State δ κ) : List (List UInt8) :=
  s.writing ++ s.doing.data

/- The dispatch under way ends, whatever the method answers. -/
def Ends (s : State δ κ) : Prop :=
  ∃ fuel, ∀ answer, ∃ t,
    finish server fuel answer s = some t ∧ t.doing = .idle

/- Each message so far got the replies it is to get, in turn. -/
def Answered (s : State δ κ) : Prop :=
  ∃ replies : List (List (JSON δ)),
    List.Forall₂ (Answers meaning) (sources s.history) replies ∧
      repliedIds meaning server s.sent ++ s.doing.replyIds =
        replies.flatten

/- What was sent is on the stream, message by message. -/
def Framed (s : State δ κ) : Prop :=
  s.output ++ s.pending.flatten =
    s.sent.flatMap
      (fun message => send (message.payload server.doubles))

def invocationsOf
    (invoked : List (Invocation δ κ))
    (id : Int) : List (Invocation δ κ) :=
  invoked.filter (fun i => i.id == id)

/- None of the messages has the id of the call. -/
def Unanswered
    (id : Int)
    (history : List (Event κ)) : Prop :=
  ∀ source ∈ sources history, ∀ res, ¬Carries meaning source id res

/- The callback is invoked once, by the first response that
   has its id. -/
def InvokedBy
    (id : Int)
    (entry : Entry κ)
    (after : List (Event κ))
    (invoked : List (Invocation δ κ)) : Prop :=
  (Unanswered meaning id after ∧ invoked = []) ∨
    ∃ earlier source later res,
      after = earlier ++ .message source :: later ∧
        Unanswered meaning id earlier ∧
        Carries meaning source id res ∧
        invoked = [⟨id, entry, entry.respond res⟩]

/-
  When a dispatch begins the stream ends within the header, or
  it holds the whole message, and the message is regular.  No
  thread starts to send before another one has written all, and
  the text of a reply means what the reply is.
-/
def Meets (s : State δ κ) : Act δ κ → Prop
  | .begin =>
      let found := recvSize 0 s.input
      found.1 < 0 ∨
        found.1.toNat ≤ found.2.length ∧
          Regular meaning (found.2.take found.1.toNat) server
  | .reply =>
      s.pending = [] ∧
        ∀ id answer, s.doing = .replying id answer →
          meaning
              ((Sent.reply id answer).payload
                server.doubles).data =
            (Sent.reply id answer).toJSON
  | .call _ => s.pending = []
  | .notify _ _ => s.pending = []
  | _ => True

end Properties

def init (input : List UInt8) : State δ κ :=
  { input := input }

----
-- Classification
----

variable {meaning : List UInt8 → Option (JSON δ)}
variable {server : Server δ}
variable {source : List UInt8}

theorem MeansResponse.unique
    {res res' : Response δ}
    (hRes : MeansResponse meaning source res)
    (hRes' : MeansResponse meaning source res') :
    res = res' := by
  rcases hRes with ⟨json, hText, hNot, hRes, _⟩
  rcases hRes' with ⟨json', hText', _, hRes', _⟩
  rw [hText] at hText'
  cases hText'
  have hRead := ofJSON_message_iff.mpr (.inr ⟨hNot, res, hRes, rfl⟩)
  have hRead' :=
    ofJSON_message_iff.mpr (.inr ⟨hNot, res', hRes', rfl⟩)
  rw [hRead] at hRead'
  injection hRead' with hVal
  injection hVal with _ hVal
  have hSome : some res = some res' := by
    rw [← Response.ofVal_toVal, hVal, Response.ofVal_toVal]
  exact Option.some.inj hSome

theorem MeansRequest.not_response
    {req : Request δ}
    {res : Response δ}
    (hReq : MeansRequest meaning source req)
    (hRes : MeansResponse meaning source res) :
    False := by
  rcases hReq with ⟨json, hText, hReq⟩
  rcases hRes with ⟨json', hText', hNot, _⟩
  rw [hText] at hText'
  cases hText'
  exact hNot ⟨req, hReq⟩

theorem parse_request
    (hRegular : Regular meaning source server)
    {req : Request δ}
    (hReq : MeansRequest meaning source req) :
    server.parse source = .request req := by
  have hId := hRegular.id req hReq
  have hParams := hRegular.params req hReq
  rcases hReq with ⟨json, hText, hIs⟩
  unfold Server.parse
  rw [MessageParser.parse_of_request
    ((hRegular.reads json).mpr hText) hIs]
  unfold MessageParser.checkRequest
  rw [if_neg, if_neg]
  · revert hParams
    cases req.params <;>
      simp [isNull, isObject, isArray, JSON.isInvalid]
  · revert hId
    cases req.id <;>
      simp [isNull, isString, isNumber, JSON.isInvalid]

theorem parse_response
    (hRegular : Regular meaning source server)
    {res : Response δ}
    (hRes : MeansResponse meaning source res) :
    server.parse source = .response res := by
  rcases hRes with ⟨json, hText, hNot, hIs, _⟩
  rcases hRegular.response json res hText hNot hIs with
    ⟨_, hError, n, hId⟩
  unfold Server.parse
  rw [MessageParser.parse_of_response
    ((hRegular.reads json).mpr hText) hNot hIs]
  unfold MessageParser.checkResponse
  rw [hError, hId]
  rfl

/- What a regular message is, and what it is parsed as. -/
theorem message_cases
    (hRegular : Regular meaning source server) :
    (∃ req, MeansRequest meaning source req ∧
        server.parse source = .request req) ∨
      (∃ res n, MeansResponse meaning source res ∧
        res.id = .long n ∧
        server.parse source = .response res) ∨
      (¬∃ req, MeansRequest meaning source req) ∧
        (¬∃ res, MeansResponse meaning source res) ∧
        ∃ error, server.parse source = .error error := by
  by_cases hReq : ∃ req, MeansRequest meaning source req
  · rcases hReq with ⟨req, hReq⟩
    exact .inl ⟨req, hReq, parse_request hRegular hReq⟩
  · by_cases hRes : ∃ res, MeansResponse meaning source res
    · rcases hRes with ⟨res, hRes⟩
      have hParse := parse_response hRegular hRes
      rcases hRes with ⟨json, hText, hNot, hIs⟩
      rcases hRegular.response json res hText hNot hIs.1 with
        ⟨_, _, n, hId⟩
      exact
        .inr
          (.inl
            ⟨res, n, ⟨json, hText, hNot, hIs⟩, hId, hParse⟩)
    · refine .inr (.inr ⟨hReq, hRes, ?_⟩)
      rcases MessageParser.parse_cases server.doubles
          server.formatError source with
        ⟨json, hRead, hSome⟩ | hError
      · have hText := (hRegular.reads json).mp hRead
        by_cases hIs : ∃ req, IsRequest json req
        · rcases hIs with ⟨req, hIs⟩
          exact absurd ⟨req, json, hText, hIs⟩ hReq
        · rcases hSome with hSome | ⟨res, hHas⟩
          · exact absurd hSome hIs
          · have hSuccess :=
              (hRegular.response json res hText hIs hHas).1
            exact
              absurd
                ⟨res, json, hText, hIs, hHas, .inl hSuccess⟩
                hRes
      · exact hError

/- The text of a reply has the id of the reply. -/
theorem replyId?_of_meaning
    {id : JSON δ}
    {answer : Except (Error δ) (JSON δ)}
    (hText :
      meaning ((Sent.reply id answer).payload server.doubles).data =
        (Sent.reply id answer).toJSON) :
    Sent.replyId? meaning server (.reply id answer) = some id := by
  rcases Sent.reply_id id answer with ⟨members, hJSON, hId⟩
  rw [Sent.replyId?, hText, hJSON]
  simp only [memberOf, hId, Option.getD_some]

end Rpc

end Ydsh
