import ContextServer.Proofs.Json.Printing
import ContextServer.Server.Processing
import Mathlib.Data.List.Forall2

/-!
Who gets a reply. Of the messages that a text holds, notifications and answers to the server's own
requests are taken in silence, and every other one is replied to once, under its own identifier and in
the order of the text, however it was handled. A text that holds no messages is told so.
-/

namespace ContextServer

variable {Device : Type}

/-! ### Messages and the replies that are due to them -/

namespace Json

def isIdentifier : Json → Bool
  | .number _ | .string _ | .null => true
  | _ => false

/-- A notification has a method and no identifier. -/
def isNotification (v : Json) : Bool := (v.member? "method").isSome && (v.member? "id").isNone

/-- An answer has an identifier and a result or an error, and no method. -/
def isAnswer (v : Json) : Bool :=
  (v.member? "method").isNone && (v.member? "id").any isIdentifier
    && ((v.member? "result").isSome || (v.member? "error").isSome)

/-- A well-formed request has a tag, an identifier and a method. -/
def isRequest (v : Json) : Bool :=
  (v.member? "jsonrpc").bind string? == some "2.0" && (v.member? "id").any isIdentifier
    && (v.member? "method").isSome

/-- Every message is due a reply but a well-tagged notification or answer. -/
def isDue (v : Json) : Bool :=
  !((v.member? "jsonrpc").bind string? == some "2.0" && (v.isNotification || v.isAnswer))

/-- The identifier that a reply repeats: the message's own if it is one, and `null` otherwise. -/
def echoedId (v : Json) : Json := ((v.member? "id").filter isIdentifier).getD .null

def errorCode? (reply : Json) : Option Json := (reply.member? "error").bind fun e => e.member? "code"

/-- A value in the form of a reply to a message. -/
structure RepliesTo (reply message : Json) : Prop where
  tag : reply.member? "jsonrpc" = some (.string "2.0")
  id : reply.member? "id" = some message.echoedId
  outcome : (reply.member? "result").isSome = !(reply.member? "error").isSome

end Json

def messages? (text : String) : Option (List Json) := (Json.ofText? text).bind fun v =>
  match v with
  | .array messages => some messages
  | .object members => some [.object members]
  | _ => none

/-- The text that is right in reply to a text. -/
def RightReply (text out : String) : Prop :=
  match Json.ofText? text with
  | some (.array messages) => ∃ replies : List Json,
      List.Forall₂ Json.RepliesTo replies (messages.filter Json.isDue) ∧
        out = if replies.isEmpty then "" else (Json.array replies).text
  | some (.object members) =>
      if (Json.object members).isDue then
        ∃ reply : Json, reply.RepliesTo (.object members) ∧ out = reply.text
      else out = ""
  | _ => ∃ reply : Json, reply.RepliesTo .null ∧ reply.errorCode? = some (.int (-32700)) ∧
      out = reply.text

/-! ### Replies as they are sent -/

theorem Reply.repliesTo {r : Reply} {message : Json} (h : r.id.toJson = message.echoedId) :
    r.toJson.RepliesTo message := by
  obtain ⟨id, outcome⟩ := r
  cases outcome with
  | ok result => exact ⟨rfl, congrArg some h, rfl⟩
  | error fault => exact ⟨rfl, congrArg some h, rfl⟩

theorem Reply.text_ne_empty (r : Reply) : r.text ≠ "" := Json.text_ne_empty_of_isContainer rfl

theorem Output.text_ofBatch (replies : List Reply) :
    (Output.ofBatch replies).text =
      if (replies.map Reply.toJson).isEmpty then "" else (Json.array (replies.map Reply.toJson)).text := by
  cases replies <;> rfl

theorem Output.text_ofBatch_eq_empty (replies : List Reply) :
    (Output.ofBatch replies).text = "" ↔ replies = [] := by
  cases replies with
  | nil => simp [Output.ofBatch, Output.text]
  | cons first rest =>
    simp only [Output.ofBatch, Output.text, reduceCtorEq, iff_false]
    exact Json.text_ne_empty_of_isContainer rfl

/-! ### What a message is decides its reply -/

theorem RequestId.ofJson?_isSome (v : Json) : (RequestId.ofJson? v).isSome = v.isIdentifier := by
  cases v <;> rfl

theorem RequestId.toJson_of_ofJson? {v : Json} {id : RequestId} (h : RequestId.ofJson? v = some id) :
    id.toJson = v := by
  cases v <;> simp only [RequestId.ofJson?, Option.some.injEq, reduceCtorEq] at h <;> rw [← h] <;> rfl

/-- An identifier member that cannot be read is there, but identifies nothing. -/
theorem readId_error {v : Json} {r : Rejection} (h : Message.readId v = .error r) :
    (v.member? "id").any Json.isIdentifier = false ∧ (v.member? "id").isNone = false := by
  unfold Message.readId at h
  split at h
  · cases h
  · rename_i raw hraw
    split at h
    · cases h
    · rename_i hid
      rw [hraw, Option.any_some, ← RequestId.ofJson?_isSome, hid]
      exact ⟨rfl, rfl⟩

/-- An identifier that can be read is the one that a reply repeats. -/
theorem readId_ok {v : Json} {id : Option RequestId} (h : Message.readId v = .ok id) :
    (v.member? "id").any Json.isIdentifier = id.isSome ∧ (v.member? "id").isNone = id.isNone ∧
      (id.getD .null).toJson = v.echoedId := by
  unfold Message.readId at h
  split at h
  · rename_i hraw
    cases h
    rw [Json.echoedId, hraw]
    exact ⟨rfl, rfl, rfl⟩
  · rename_i raw hraw
    split at h
    · rename_i found hid
      cases h
      have husable : raw.isIdentifier = true := by rw [← RequestId.ofJson?_isSome, hid]; rfl
      rw [Json.echoedId, hraw, Option.filter_some_pos husable, Option.any_some, husable]
      exact ⟨rfl, rfl, RequestId.toJson_of_ofJson? hid⟩
    · cases h

theorem answer?_isSome (id : Option RequestId) (v : Json) :
    (Message.answer? id v).isSome =
      (id.isSome && ((v.member? "result").isSome || (v.member? "error").isSome)) := by
  unfold Message.answer?
  cases id <;> cases v.member? "result" <;> cases v.member? "error" <;> rfl

/-- The identifier of the reply that a reading of a message leads to, if it leads to one. -/
def Message.replyId? : Except Reply Message → Option RequestId
  | .error rejection => some rejection.id
  | .ok (.request id _ _) => some id
  | .ok _ => none

/-- What a value is as a message, with what its members say of that. -/
inductive Message.Read (v : Json) : Except Reply Message → Prop
  | rejected {id : RequestId} (r : Rejection) (hid : id.toJson = v.echoedId) (due : v.isDue = true)
    (request : v.isRequest = false) : Read v (.error (.refusal id r.fault))
  | request {id : RequestId} {method : String} {params : Option Json} (hid : id.toJson = v.echoedId)
    (due : v.isDue = true) (request : v.isRequest = true) : Read v (.ok (.request id method params))
  | notification {method : String} {params : Option Json} (due : v.isDue = false)
    (request : v.isRequest = false) : Read v (.ok (.notification method params))
  | answer {reply : ClientReply} (due : v.isDue = false) (request : v.isRequest = false) :
    Read v (.ok (.answer reply))

theorem Message.read_ofJson (v : Json) : Message.Read v (Message.ofJson v) := by
  unfold Message.ofJson
  split
  -- what is no object has no members, and so neither tag nor identifier
  · rename_i hmembers
    have hmember (key : String) : v.member? key = none := by
      unfold Json.member?
      rw [Option.isNone_iff_eq_none.mp hmembers]
      rfl
    refine .rejected .notAnObject ?_ ?_ ?_ <;>
      simp [Json.echoedId, Json.isDue, Json.isRequest, hmember, RequestId.toJson]
  · cases hread : Message.readId v with
    | error r =>
      obtain ⟨hany, hnone⟩ := readId_error hread
      have hecho : v.echoedId = .null := by
        unfold Json.echoedId
        cases hid : v.member? "id" with
        | none => rfl
        | some raw =>
          rw [hid, Option.any_some] at hany
          rw [Option.filter_some_neg (by simp [hany])]
          rfl
      refine .rejected r hecho.symm ?_ ?_
      · simp only [Json.isDue, Json.isNotification, Json.isAnswer, hany, hnone, Bool.and_false,
          Bool.false_and, Bool.or_false, Bool.not_false]
      · simp only [Json.isRequest, hany, Bool.and_false, Bool.false_and]
    | ok id =>
      obtain ⟨hany, hnone, hecho⟩ := readId_ok hread
      dsimp only
      split
      · rename_i htag
        have htag' : ((v.member? "jsonrpc").bind Json.string? == some "2.0") = false := by
          simpa [protocolTag] using htag
        refine .rejected .wrongTag hecho ?_ ?_
        · simp only [Json.isDue, htag', Bool.false_and, Bool.not_false]
        · simp only [Json.isRequest, htag', Bool.false_and]
      · rename_i htag
        have htag' : ((v.member? "jsonrpc").bind Json.string? == some "2.0") = true := by
          simpa [protocolTag] using htag
        -- from here on the method, the identifier and the outcome decide
        have hdue : v.isDue = !((v.member? "method").isSome && id.isNone ||
            (v.member? "method").isNone && (Message.answer? id v).isSome) := by
          simp only [Json.isDue, Json.isNotification, Json.isAnswer, htag', hany, hnone,
            answer?_isSome, Bool.true_and, Bool.and_assoc]
        have hrequest : v.isRequest = (id.isSome && (v.member? "method").isSome) := by
          simp only [Json.isRequest, htag', hany, Bool.true_and]
        cases hmethod : v.member? "method" with
        | none =>
          rw [hmethod] at hdue hrequest
          cases hanswer : Message.answer? id v with
          | none =>
            rw [hanswer] at hdue
            exact .rejected .missingMethod hecho hdue (hrequest.trans (Bool.and_false _))
          | some reply =>
            rw [hanswer] at hdue
            exact .answer hdue (hrequest.trans (Bool.and_false _))
        | some method =>
          rw [hmethod] at hdue hrequest
          cases id with
          | none => exact .notification hdue hrequest
          | some id => exact .request hecho hdue hrequest

theorem replyId?_ofJson (v : Json) :
    (Message.replyId? (Message.ofJson v)).map RequestId.toJson =
      if v.isDue then some v.echoedId else none := by
  have hread := Message.read_ofJson v
  generalize Message.ofJson v = read at hread ⊢
  cases hread with
  | rejected r hid due => rw [due, ← hid]; rfl
  | request hid due => rw [due, ← hid]; rfl
  | notification due => rw [due]; rfl
  | answer due => rw [due]; rfl

/-! ### One message -/

theorem receiveRequest_id (s : Server Device) (device : Device) (readings : Readings)
    (id : RequestId) (method : String) (params : Option Json) :
    (s.receiveRequest device readings id method params).value.id = id := by
  unfold Server.receiveRequest
  dsimp only
  split <;> rfl

/-- Whatever becomes of a message, it is replied to if a reply is due, and under its identifier. -/
theorem receive_replies (s : Server Device) (device : Device) (readings : Readings) (v : Json) :
    (s.receive device readings v).value.map (fun r => r.id.toJson) =
      if v.isDue then some v.echoedId else none := by
  rw [← replyId?_ofJson]
  unfold Server.receive
  split
  · rename_i rejection h
    rw [h]
    rfl
  · rename_i id method params h
    rw [h]
    simp only [Step.map, Option.map_some, receiveRequest_id, Message.replyId?]
  · rename_i h
    rw [h]
    rfl
  · rename_i h
    rw [h]
    rfl

/-! ### Whole texts -/

theorem process_object (s : Server Device) (device : Device) (readings : Nat → Readings)
    {text : String} {members : List (String × Json)}
    (h : Json.ofWritten? text = some (.object members)) :
    s.process device readings text =
      (s.receive device (readings 0) (Json.object members).canonical).map Output.ofMessage := by
  have hpayload : Payload.ofText? text = some (.single (Json.object members).canonical) := by
    unfold Payload.ofText? Json.ofText?
    rw [h, Option.map_some, Json.canonical]
  rw [Server.process, hpayload]
  rfl

/-- The replies to messages in a row are those of the messages that are due one, in their order. -/
theorem receiveAll_replies (s : Server Device) (device : Device) (readings : Nat → Readings)
    (k : Nat) (values : List Json) :
    (s.receiveAll device readings k values).value.map (fun r => r.id.toJson) =
      (values.filter Json.isDue).map Json.echoedId := by
  induction values generalizing s device k with
  | nil => rfl
  | cons v rest ih =>
    have hfirst := receive_replies s device (readings k) v
    simp only [Server.receiveAll, List.map_append, ih]
    cases hdue : v.isDue with
    | false =>
      rw [hdue] at hfirst
      have hnone := Option.map_eq_none_iff.mp hfirst
      rw [hnone, List.filter_cons_of_neg (by simp [hdue])]
      rfl
    | true =>
      rw [hdue] at hfirst
      obtain ⟨r, hr, hid⟩ := Option.map_eq_some_iff.mp hfirst
      rw [hr, List.filter_cons_of_pos hdue, List.map_cons, ← hid]
      rfl

/-- Replies under the identifiers of messages are replies to them. -/
theorem forall₂_repliesTo {replies : List Reply} {messages : List Json}
    (h : replies.map (fun r => r.id.toJson) = messages.map Json.echoedId) :
    List.Forall₂ Json.RepliesTo (replies.map Reply.toJson) messages := by
  rw [List.forall₂_map_left_iff]
  rw [← List.forall₂_eq_eq_eq, List.forall₂_map_left_iff, List.forall₂_map_right_iff] at h
  exact h.imp fun _ _ hid => Reply.repliesTo hid

theorem single_replied (s : Server Device) (device : Device) (readings : Nat → Readings) (v : Json) :
    (if v.isDue then
        ∃ reply : Json, reply.RepliesTo v ∧
          (s.receivePayload device readings (.single v)).value.text = reply.text
      else (s.receivePayload device readings (.single v)).value.text = "") ∧
      ((s.receivePayload device readings (.single v)).value.text = "" ↔ v.isDue = false) := by
  have hone := receive_replies s device (readings 0) v
  simp only [Server.receivePayload, Step.map]
  cases hdue : v.isDue with
  | false =>
    rw [hdue] at hone
    rw [Option.map_eq_none_iff.mp hone]
    exact ⟨rfl, iff_of_true rfl rfl⟩
  | true =>
    rw [hdue] at hone
    obtain ⟨r, hr, hid⟩ := Option.map_eq_some_iff.mp hone
    rw [hr]
    exact ⟨⟨r.toJson, Reply.repliesTo hid, rfl⟩, iff_of_false r.text_ne_empty (by simp)⟩

theorem batch_replied (s : Server Device) (device : Device) (readings : Nat → Readings)
    (messages : List Json) :
    (∃ replies : List Json, List.Forall₂ Json.RepliesTo replies (messages.filter Json.isDue) ∧
        (s.receivePayload device readings (.batch messages)).value.text =
          if replies.isEmpty then "" else (Json.array replies).text) ∧
      ((s.receivePayload device readings (.batch messages)).value.text = "" ↔
        ∀ v ∈ messages, v.isDue = false) := by
  have hall := receiveAll_replies s device readings 0 messages
  simp only [Server.receivePayload, Step.map]
  refine ⟨⟨_, forall₂_repliesTo hall, Output.text_ofBatch _⟩, ?_⟩
  rw [Output.text_ofBatch_eq_empty, ← List.map_eq_nil_iff, hall, List.map_eq_nil_iff,
    List.filter_eq_nil_iff]
  simp only [Bool.not_eq_true]

/-- Every text is replied to as is right, and in silence only where no message is due a reply. -/
theorem process_replies (s : Server Device) (device : Device) (readings : Nat → Readings)
    (text : String) :
    RightReply text (s.process device readings text).value.text ∧
      ((s.process device readings text).value.text = "" ↔
        ∃ messages, messages? text = some messages ∧ ∀ v ∈ messages, v.isDue = false) := by
  have hunreadable : ∃ reply : Json, reply.RepliesTo .null ∧
      reply.errorCode? = some (.int (-32700)) ∧ Reply.parseError.text = reply.text :=
    ⟨Reply.parseError.toJson, Reply.repliesTo rfl, rfl, rfl⟩
  unfold RightReply messages? Server.process Payload.ofText?
  cases hv : Json.ofText? text with
  | none => exact ⟨hunreadable, iff_of_false Reply.parseError.text_ne_empty (by simp)⟩
  | some v =>
    cases v with
    | array messages =>
      obtain ⟨hright, hsilent⟩ := batch_replied s device readings messages
      exact ⟨hright, by simpa using hsilent⟩
    | object members =>
      obtain ⟨hright, hsilent⟩ := single_replied s device readings (.object members)
      exact ⟨hright, by simpa using hsilent⟩
    | _ => exact ⟨hunreadable, iff_of_false Reply.parseError.text_ne_empty (by simp)⟩

end ContextServer
