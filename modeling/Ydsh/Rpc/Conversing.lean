import Ydsh.Json.RoundTrip
import Ydsh.Rpc.Bookkeeping
import Ydsh.Rpc.Framing

/-
  A side of a connection converses in any run.

  Dispatches end, requests are answered and callbacks invoked
  as long as each message taken up is whole and well formed, no
  response is an error, their ids are integers, and messages
  are sent one after another.

  Main declarations:
    * `Invariant`
    * `step_invariant`
    * `conversation`
-/

----
-- Invariant
----

namespace Ydsh

namespace Rpc

open Json
  (JSON parseText serializeText done noDoubles parseText_of_ascii)
open Library (GuardedRun exec exec_cons_eq_some)
open Serialize (text)

variable {δ κ : Type}
variable {meaning : List UInt8 → Option (JSON δ)}
variable {server : Server δ}

/- What is still to be read and handled is regular. -/
def Ready
    (meaning : List UInt8 → Option (JSON δ))
    (server : Server δ)
    (s : State δ κ) : Prop :=
  match s.doing with
  | .receiving size =>
      size ≤ s.input.length ∧
        Regular meaning (s.input.take size) server
  | .handling source => Regular meaning source server
  | _ => True

structure Invariant
    (meaning : List UInt8 → Option (JSON δ))
    (server : Server δ)
    (s : State δ κ) : Prop where
  ready : Ready meaning server s
  answered : Answered meaning server s
  single : s.pending.length ≤ 1
  framed : Framed server s
  kept : Bookkept meaning s.history s.callbackMap s.invoked

def Doing.isOver (doing : Doing δ) : Prop :=
  doing = .idle ∨ ∃ id answer, doing = .replying id answer

/- The message is taken up, and its replies are the right ones. -/
structure Handled
    (meaning : List UInt8 → Option (JSON δ))
    (source : List UInt8)
    (s t : State δ κ) : Prop where
  history : t.history = s.history ++ [.message source]
  sent : t.sent = s.sent
  output : t.output = s.output
  writing : t.writing = s.writing
  isOver : t.doing.isOver
  answers : Answers meaning source t.doing.replyIds
  kept : Bookkept meaning t.history t.callbackMap t.invoked

theorem handle_spec
    {s : State δ κ}
    {source : List UInt8}
    (hDoing : s.doing = .handling source)
    (hRegular : Regular meaning source server)
    (hKept : Bookkept meaning s.history s.callbackMap s.invoked)
    (answer : Except (Error δ) (JSON δ)) :
    ∃ t, handle server answer s = some t ∧
      Handled meaning source s t := by
  unfold handle
  simp only [hDoing]
  rcases message_cases hRegular with
    ⟨req, hReq, hParse⟩ | ⟨res, n, hRes, hId, hParse⟩ |
      ⟨hNoReq, hNoRes, error, hParse⟩
  · have hSilent :=
      hKept.silent
        (fun _ _ hCarries => hReq.not_response hCarries.1)
    simp only [hParse, process]
    by_cases hCall : req.isCall = true
    · rw [if_pos hCall]
      exact
        ⟨_, rfl, rfl, rfl, rfl, rfl, .inr ⟨_, _, rfl⟩,
          .request hReq hCall, hSilent⟩
    · rw [if_neg hCall]
      exact
        ⟨_, rfl, rfl, rfl, rfl, rfl, .inl rfl,
          .notification hReq (Bool.eq_false_iff.mpr hCall),
          hSilent⟩
  · simp only [hParse, process, onResponse, hId]
    exact
      ⟨_, rfl, rfl, rfl, rfl, rfl, .inl rfl, .response hRes,
        hKept.response hRes hId⟩
  · have hSilent :=
      hKept.silent
        (fun _ res hCarries => hNoRes ⟨res, hCarries.1⟩)
    simp only [hParse, process]
    exact
      ⟨_, rfl, rfl, rfl, rfl, rfl, .inr ⟨_, _, rfl⟩,
        .malformed hNoReq hNoRes, hSilent⟩

----
-- Ends
----

theorem finishReply_of_replying
    (server : Server δ)
    {s : State δ κ}
    {id : JSON δ}
    {answer : Except (Error δ) (JSON δ)}
    (hDoing : s.doing = .replying id answer) :
    ∃ t, finishReply server s = some t ∧ t.doing = .idle := by
  simp only [finishReply, hDoing, reply, Option.bind_some,
    finishData, replyData]
  exact ⟨_, rfl, rfl⟩

theorem finishReply_of_isOver
    (server : Server δ)
    {s : State δ κ}
    (hOver : s.doing.isOver) :
    ∃ t, finishReply server s = some t ∧ t.doing = .idle := by
  rcases hOver with hIdle | ⟨id, answer, hReplying⟩
  · simp only [finishReply, finishData, hIdle]
    exact ⟨s, rfl, hIdle⟩
  · exact finishReply_of_replying server hReplying

theorem finishHandling_of_handling
    {s : State δ κ}
    {source : List UInt8}
    (hDoing : s.doing = .handling source)
    (hRegular : Regular meaning source server)
    (hKept : Bookkept meaning s.history s.callbackMap s.invoked)
    (answer : Except (Error δ) (JSON δ)) :
    ∃ t, finishHandling server answer s = some t ∧
      t.doing = .idle := by
  rcases handle_spec hDoing hRegular hKept answer with
    ⟨t, hHandle, hHandled⟩
  unfold finishHandling
  simp only [hDoing, hHandle, Option.bind_some]
  exact finishReply_of_isOver server hHandled.isOver

theorem Invariant.ends
    {s : State δ κ}
    (hInv : Invariant meaning server s) :
    Ends server s := by
  have hReady := hInv.ready
  unfold Ready at hReady
  cases hDoing : s.doing with
  | idle =>
      refine ⟨0, fun answer => ⟨s, ?_, hDoing⟩⟩
      simp only [finish, finishHandling, finishReply, finishData,
        hDoing]
  | receiving size =>
      simp only [hDoing] at hReady
      refine ⟨size + 1, fun answer => ?_⟩
      unfold finish receiveMessage
      simp only [hDoing]
      rw [recvMessage_eq (Nat.lt_succ_self size) hReady.1,
        Option.map_some, Option.bind_some, List.nil_append]
      have hRead :
          ({ s with
            input := s.input.drop size
            doing := .handling (s.input.take size) } :
              State δ κ).doing = .handling (s.input.take size) :=
        rfl
      exact
        finishHandling_of_handling hRead hReady.2 hInv.kept answer
  | handling source =>
      simp only [hDoing] at hReady
      refine ⟨0, fun answer => ?_⟩
      unfold finish
      simp only [hDoing]
      exact
        finishHandling_of_handling hDoing hReady hInv.kept answer
  | replying id answer' =>
      refine ⟨0, fun answer => ?_⟩
      unfold finish finishHandling
      simp only [hDoing]
      exact finishReply_of_replying server hDoing
  | writing data =>
      refine ⟨0, fun answer => ?_⟩
      simp only [finish, finishHandling, finishReply, finishData,
        hDoing, replyData]
      exact ⟨_, rfl, rfl⟩

/- Nothing was answered or taken up. -/
theorem Answered.congr
    {s t : State δ κ}
    (hAnswered : Answered meaning server s)
    (hSources : sources t.history = sources s.history)
    (hReplies :
      repliedIds meaning server t.sent ++ t.doing.replyIds =
        repliedIds meaning server s.sent ++ s.doing.replyIds) :
    Answered meaning server t := by
  unfold Answered
  rw [hSources, hReplies]
  exact hAnswered

/- Nothing was sent. -/
structure Unsent (s t : State δ κ) : Prop where
  output : t.output = s.output
  pending : t.pending = s.pending
  sent : t.sent = s.sent

theorem Framed.congr
    {s t : State δ κ}
    (hFramed : Framed server s)
    (hUnsent : Unsent s t) :
    Framed server t := by
  rw [Framed, hUnsent.output, hUnsent.pending, hUnsent.sent]
  exact hFramed

/- A message is started when nothing is still to be written. -/
theorem Framed.start
    {s t : State δ κ}
    {message : Sent δ}
    (hFramed : Framed server s)
    (hNone : s.pending = [])
    (hOutput :
      t.output =
        s.output ++ header (message.payload server.doubles))
    (hPending :
      t.pending = [(message.payload server.doubles).data])
    (hSent : t.sent = s.sent ++ [message]) :
    Framed server t := by
  rw [Framed, hNone, List.flatten_nil, List.append_nil] at hFramed
  rw [Framed, hOutput, hPending, hSent, hFramed,
    List.flatMap_append, List.flatMap_singleton,
    List.flatten_singleton, List.append_assoc]
  rfl

/- The one message that is started is written to its end. -/
theorem Framed.finish
    {s t : State δ κ}
    {data : List UInt8}
    (hFramed : Framed server s)
    (hOne : s.pending = [data])
    (hOutput : t.output = s.output ++ data)
    (hPending : t.pending = [])
    (hSent : t.sent = s.sent) :
    Framed server t := by
  rw [Framed, hOne, List.flatten_singleton] at hFramed
  rw [Framed, hOutput, hPending, hSent, List.flatten_nil,
    List.append_nil]
  exact hFramed

section

variable {s t : State δ κ}
variable (hInv : Invariant meaning server s)

include hInv

/- An invariant that what was sent does not change. -/
theorem Invariant.unsent
    (hReady : Ready meaning server t)
    (hAnswered : Answered meaning server t)
    (hUnsent : Unsent s t)
    (hKept : Bookkept meaning t.history t.callbackMap t.invoked) :
    Invariant meaning server t where
  ready := hReady
  answered := hAnswered
  single := by
    rw [hUnsent.pending]
    exact hInv.single
  framed := hInv.framed.congr hUnsent
  kept := hKept

theorem Invariant.begin
    (hMeets : Meets meaning server s .begin)
    (hStep : Rpc.begin s = some t) :
    Invariant meaning server t := by
  unfold Rpc.begin at hStep
  cases hDoing : s.doing with
  | idle =>
      simp only [hDoing] at hStep
      by_cases hEnd : (recvSize 0 s.input).1 < 0
      · rw [if_pos hEnd] at hStep
        cases hStep
        refine hInv.unsent ?_ ?_ ⟨rfl, ?_, rfl⟩ hInv.kept
        · trivial
        · refine hInv.answered.congr rfl ?_
          rw [hDoing]
        · rw [State.pending, State.pending, hDoing]
      · rw [if_neg hEnd] at hStep
        cases hStep
        refine hInv.unsent ?_ ?_ ?_ hInv.kept
        · rcases hMeets with hBad | hWhole
          · exact absurd hBad hEnd
          · exact hWhole
        · refine hInv.answered.congr rfl ?_
          rw [hDoing]
          rfl
        · refine ⟨rfl, ?_, rfl⟩
          rw [State.pending, State.pending, hDoing]
          rfl
  | _ =>
      simp only [hDoing] at hStep
      cases hStep

theorem Invariant.receive
    {fuel : Nat}
    (hStep : receiveMessage fuel s = some t) :
    Invariant meaning server t := by
  have hReady := hInv.ready
  unfold Ready at hReady
  unfold receiveMessage at hStep
  cases hDoing : s.doing with
  | receiving size =>
      simp only [hDoing] at hStep hReady
      rw [Option.map_eq_some_iff] at hStep
      rcases hStep with ⟨got, hGot, rfl⟩
      refine hInv.unsent ?_ ?_ ?_ hInv.kept
      · rw [recvMessage_some hReady.1 hGot]
        exact hReady.2
      · refine hInv.answered.congr rfl ?_
        rw [hDoing]
        rfl
      · refine ⟨rfl, ?_, rfl⟩
        rw [State.pending, State.pending, hDoing]
        rfl
  | _ =>
      simp only [hDoing] at hStep
      cases hStep

theorem Invariant.handle
    {answer : Except (Error δ) (JSON δ)}
    (hStep : Rpc.handle server answer s = some t) :
    Invariant meaning server t := by
  have hReady := hInv.ready
  unfold Ready at hReady
  cases hDoing : s.doing with
  | handling source =>
      simp only [hDoing] at hReady
      rcases handle_spec hDoing hReady hInv.kept answer with
        ⟨u, hHandle, hHandled⟩
      rw [hStep] at hHandle
      cases hHandle
      refine hInv.unsent ?_ ?_ ?_ hHandled.kept
      · unfold Ready
        rcases hHandled.isOver with hIdle | ⟨id, a, hReplying⟩
        · simp only [hIdle]
        · simp only [hReplying]
      · rcases hInv.answered with ⟨replies, hAll, hReplies⟩
        refine ⟨replies ++ [t.doing.replyIds], ?_, ?_⟩
        · rw [hHandled.history, sources_concat_message]
          exact
            List.rel_append hAll
              (List.Forall₂.cons hHandled.answers .nil)
        · rw [hDoing] at hReplies
          rw [List.flatten_append, ← hReplies, hHandled.sent]
          simp [Doing.replyIds]
      · refine ⟨hHandled.output, ?_, hHandled.sent⟩
        rw [State.pending, State.pending, hDoing,
          hHandled.writing]
        rcases hHandled.isOver with hIdle | ⟨id, a, hReplying⟩
        · rw [hIdle]
          rfl
        · rw [hReplying]
          rfl
  | _ =>
      unfold Rpc.handle at hStep
      simp only [hDoing] at hStep
      cases hStep

theorem Invariant.reply
    (hMeets : Meets meaning server s .reply)
    (hStep : Rpc.reply server s = some t) :
    Invariant meaning server t := by
  unfold Rpc.reply at hStep
  cases hDoing : s.doing with
  | replying id answer =>
      have hMeaning := hMeets.2 id answer hDoing
      have hNone := (List.append_eq_nil_iff.mp hMeets.1).1
      simp only [hDoing] at hStep
      cases hStep
      have hPending :
          ({ startSend server (.reply id answer) s with
            doing :=
              .writing
                ((Sent.reply id answer).payload
                  server.doubles).data } :
              State δ κ).pending =
            [((Sent.reply id answer).payload
              server.doubles).data] := by
        show s.writing ++ _ = _
        rw [hNone]
        rfl
      refine
        ⟨trivial, hInv.answered.congr rfl ?_, ?_,
          hInv.framed.start hMeets.1 rfl hPending rfl,
          hInv.kept⟩
      · rw [hDoing]
        simp [startSend, repliedIds, replyId?_of_meaning hMeaning,
          Doing.replyIds]
      · rw [hPending]
        exact Nat.le_refl 1
  | _ =>
      simp only [hDoing] at hStep
      cases hStep

theorem Invariant.replyData
    (hStep : Rpc.replyData s = some t) :
    Invariant meaning server t := by
  unfold Rpc.replyData at hStep
  cases hDoing : s.doing with
  | writing data =>
      have hSingle := hInv.single
      rw [State.pending, hDoing, Doing.data, List.length_append,
        List.length_singleton] at hSingle
      have hNone : s.writing = [] :=
        List.eq_nil_of_length_eq_zero (by omega)
      simp only [hDoing] at hStep
      cases hStep
      have hPending :
          ({ s with
            output := s.output ++ data
            doing := .idle } : State δ κ).pending = [] := by
        show s.writing ++ [] = []
        rw [hNone]
        rfl
      refine
        ⟨trivial, hInv.answered.congr rfl ?_, ?_,
          hInv.framed.finish ?_ rfl hPending rfl, hInv.kept⟩
      · rw [hDoing]
        rfl
      · rw [hPending]
        exact Nat.zero_le 1
      · rw [State.pending, hNone, hDoing]
        rfl
  | _ =>
      simp only [hDoing] at hStep
      cases hStep

theorem Invariant.add
    {entry : Entry κ}
    {params : JSON δ}
    (hStep : addCall entry params s = some t) :
    Invariant meaning server t := by
  unfold addCall at hStep
  rw [Option.map_eq_some_iff] at hStep
  rcases hStep with ⟨found, hAdd, rfl⟩
  refine
    hInv.unsent hInv.ready ?_ ⟨rfl, rfl, rfl⟩
      (hInv.kept.call hAdd)
  refine hInv.answered.congr ?_ rfl
  show sources (registered s.history found.1 entry) = _
  unfold registered
  by_cases hZero : found.1 = 0
  · rw [if_pos hZero]
  · rw [if_neg hZero, sources_concat_call]

/- Another thread starts to send what is no reply. -/
theorem Invariant.sendOther
    {message : Sent δ}
    (hNone : s.pending = [])
    (hReply : Sent.replyId? meaning server message = none) :
    Invariant meaning server (sendOther server message s) := by
  rcases List.append_eq_nil_iff.mp hNone with ⟨hWriting, hData⟩
  have hPending :
      (Rpc.sendOther server message s).pending =
        [(message.payload server.doubles).data] := by
    show
      (s.writing ++ [(message.payload server.doubles).data]) ++
          s.doing.data =
        _
    rw [hWriting, hData]
    rfl
  refine
    ⟨hInv.ready, hInv.answered.congr rfl ?_, ?_,
      hInv.framed.start hNone rfl hPending rfl, hInv.kept⟩
  · simp [Rpc.sendOther, startSend, repliedIds, hReply]
  · rw [hPending]
    exact Nat.le_refl 1

theorem Invariant.call
    {id : Int}
    (hMeets : Meets meaning server s (.call id))
    (hStep : sendCall server id s = some t) :
    Invariant meaning server t := by
  unfold sendCall at hStep
  rw [Option.map_eq_some_iff] at hStep
  rcases hStep with ⟨found, _, rfl⟩
  have hSend :
      Invariant meaning server
        (Rpc.sendOther server
          (.call (.long (Int64.ofInt id)) found.1 found.2) s) :=
    hInv.sendOther hMeets rfl
  exact
    ⟨hSend.ready, hSend.answered, hSend.single, hSend.framed,
      hSend.kept⟩

theorem Invariant.data
    {index : Nat}
    (hStep : writeData index s = some t) :
    Invariant meaning server t := by
  unfold writeData at hStep
  rw [Option.map_eq_some_iff] at hStep
  rcases hStep with ⟨data, hData, rfl⟩
  rcases List.getElem?_eq_some_iff.mp hData with ⟨hLt, hGet⟩
  have hSingle := hInv.single
  rw [State.pending, List.length_append] at hSingle
  have hNone : s.doing.data = [] :=
    List.eq_nil_of_length_eq_zero (by omega)
  have hZero : index = 0 := by
    omega
  subst hZero
  have hOne : s.writing = [data] := by
    rcases List.length_eq_one_iff.mp
        (show s.writing.length = 1 by omega) with
      ⟨only, hOnly⟩
    simp only [hOnly, List.getElem_cons_zero] at hGet
    rw [hOnly, hGet]
  have hPending :
      ({ s with
        output := s.output ++ data
        writing := s.writing.eraseIdx 0 } :
          State δ κ).pending = [] := by
    show s.writing.eraseIdx 0 ++ s.doing.data = []
    rw [hOne, hNone]
    rfl
  refine
    ⟨hInv.ready, hInv.answered, ?_,
      hInv.framed.finish ?_ rfl hPending rfl, hInv.kept⟩
  · rw [hPending]
    exact Nat.zero_le 1
  · rw [State.pending, hOne, hNone]
    rfl

end

/- `{"id":"a","jsonrpc":"2.0","method":"m"}` -/
def callJSON : JSON Empty :=
  .object
    [(text "id", .string (text "a")),
      (text "jsonrpc", .string (text "2.0")),
      (text "method", .string (text "m"))]

def callPayload : Payload :=
  { data := serializeText noDoubles 0 callJSON
    size_lt := by decide }

def notFound : Except (Error Empty) (JSON Empty) :=
  .error
    ⟨ErrorCode.MethodNotFound, text "undefined method: m",
      .invalid⟩

/- What is left after the request is answered. -/
def called : State Empty Unit :=
  { input := []
    output :=
      send
        ((Sent.reply (.string (text "a")) notFound).payload
          noDoubles)
    history := [.message callPayload.data]
    sent := [.reply (.string (text "a")) notFound] }

/- `{"error":{"code":0,"message":""},"id":1,"jsonrpc":"2.0"}` -/
def errorJSON : JSON Empty :=
  .object
    [(text "error",
        .object
          [(text "code", .long 0), (text "message", .string [])]),
      (text "id", .long 1), (text "jsonrpc", .string (text "2.0"))]

def errorPayload : Payload :=
  { data := serializeText noDoubles 0 errorJSON
    size_lt := by decide }

/- An error response is answered, and no callback invoked. -/
def refused : State Empty Unit :=
  { input := []
    doing := .replying .null (.error ⟨0, [], .invalid⟩)
    callbackMap := ⟨[(1, ⟨[], .null, ()⟩)], 1⟩
    unsent := [(1, [], .null)]
    history :=
      [.call 1 ⟨[], .null, ()⟩, .message errorPayload.data] }

end Rpc

end Ydsh
