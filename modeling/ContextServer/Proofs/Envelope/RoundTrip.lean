import ContextServer.Envelope.Message
import ContextServer.Envelope.Notification
import ContextServer.Proofs.Json.Canonical
import ContextServer.Proofs.Json.Reading

/-!
What the server writes, it reads as the message that was written. Notifications and requests have
their members in ascending order of the keys and replies have not, which makes no difference to the
reader: it looks members up by their keys.
-/

namespace ContextServer

/-! ### Messages by their members -/

section Members

variable {v result error : Json} {id : RequestId} {method : String} {params : Option Json}

theorem Message.readId_none (h : v.member? "id" = none) : Message.readId v = .ok none := by
  simp only [Message.readId, h]

theorem Message.readId_some (h : v.member? "id" = some id.toJson) :
    Message.readId v = .ok (some id) := by
  simp only [Message.readId, h, RequestId.ofJson?_toJson]

theorem Message.ofJson_notification (hobject : v.members?.isNone = false)
    (hid : v.member? "id" = none) (htag : v.member? "jsonrpc" = some (.string protocolTag))
    (hmethod : v.member? "method" = some (.string method)) (hparams : v.member? "params" = params) :
    Message.ofJson v = .ok (.notification method params) := by
  simp [Message.ofJson, hobject, Message.readId_none hid, htag, Json.string?, hmethod, methodText,
    hparams]

theorem Message.ofJson_request (hobject : v.members?.isNone = false)
    (hid : v.member? "id" = some id.toJson)
    (htag : v.member? "jsonrpc" = some (.string protocolTag))
    (hmethod : v.member? "method" = some (.string method)) (hparams : v.member? "params" = params) :
    Message.ofJson v = .ok (.request id method params) := by
  simp [Message.ofJson, hobject, Message.readId_some hid, htag, Json.string?, hmethod, methodText,
    hparams]

theorem Message.ofJson_success (hobject : v.members?.isNone = false)
    (hid : v.member? "id" = some id.toJson)
    (htag : v.member? "jsonrpc" = some (.string protocolTag)) (hmethod : v.member? "method" = none)
    (hresult : v.member? "result" = some result) :
    Message.ofJson v = .ok (.answer ⟨id, .ok result⟩) := by
  simp [Message.ofJson, hobject, Message.readId_some hid, htag, Json.string?, hmethod,
    Message.answer?, hresult]

theorem Message.ofJson_failure (hobject : v.members?.isNone = false)
    (hid : v.member? "id" = some id.toJson)
    (htag : v.member? "jsonrpc" = some (.string protocolTag)) (hmethod : v.member? "method" = none)
    (hresult : v.member? "result" = none) (herror : v.member? "error" = some error) :
    Message.ofJson v = .ok (.answer ⟨id, .error error⟩) := by
  simp [Message.ofJson, hobject, Message.readId_some hid, htag, Json.string?, hmethod,
    Message.answer?, hresult, herror]

end Members

/-! ### Envelopes -/

/-- A message as the server sends it: a notification, a queued request or a reply. -/
inductive Envelope where
  | notification (sent : Notification)
  | request (id : Int) (sent : ClientRequest)
  | reply (sent : Reply)

/-- The error object of a reply, by ascending keys. -/
def Fault.object (f : Fault) : Json :=
  .object (("code", .int f.kind.code) :: (f.data.map fun d => ("data", d)).toList
    ++ [("message", .string f.message)])

/-- A value as it is stored, with its members by ascending keys, that an envelope can carry. The
envelope and an error object take up two of the levels down to which the reader goes. -/
structure Json.Carried (v : Json) : Prop where
  plain : Json.Plain 125 v
  sorted : v.canonical = v

namespace Envelope

/-- The text that is sent. -/
def text : Envelope → String
  | .notification sent => sent.text
  | .request id sent => Outbound.requestText id sent
  | .reply sent => sent.text

/-- The message that the text stands for. -/
def message : Envelope → Message
  | .notification sent => .notification sent.method sent.params
  | .request id sent => .request (.number (.whole id)) sent.method (some sent.params)
  | .reply ⟨id, .ok result⟩ => .answer ⟨id, .ok result⟩
  | .reply ⟨id, .error fault⟩ => .answer ⟨id, .error fault.object⟩

/-- The numbers in the envelope are whole and held by 64 bits, and no value in it nests too deep. -/
inductive Fits : Envelope → Prop where
  | notification {sent : Notification} (hparams : ∀ p, sent.params = some p → p.Carried) :
    Fits (.notification sent)
  | request {id : Int} {sent : ClientRequest} (hid : Range64.Signed id)
    (hparams : sent.params.Carried) : Fits (.request id sent)
  | success {id : RequestId} {result : Json} (hid : Json.Plain 0 id.toJson)
    (hresult : result.Carried) : Fits (.reply ⟨id, .ok result⟩)
  | failure {id : RequestId} {fault : Fault} (hid : Json.Plain 0 id.toJson)
    (hcode : Range64.Signed fault.kind.code) (hdata : ∀ d, fault.data = some d → d.Carried) :
    Fits (.reply ⟨id, .error fault⟩)

end Envelope

/-! ### Reading an envelope -/

/-- The reader gets the members that were written, by ascending keys. -/
theorem Message.ofText_object {members : List (String × Json)}
    (h : ∀ m ∈ members, Json.Plain 126 m.2) :
    Message.ofText (Json.object members).text = Message.ofJson (Json.object members).canonical := by
  have hread : Json.ofText? (Json.object members).text = some (Json.object members).canonical :=
    Json.ofText?_text (.object h)
  unfold Message.ofText Payload.ofText?
  rw [hread, Json.canonical]

theorem Json.members?_canonical_object (members : List (String × Json)) :
    (Json.object members).canonical.members?.isNone = false := by
  rw [Json.canonical]
  rfl

theorem Fault.canonical_toJson {f : Fault} (h : ∀ d, f.data = some d → d.Carried) :
    f.toJson.canonical = f.object := by
  obtain ⟨kind, message, data⟩ := f
  have hmessage : Json.insertMember "message" (.string message) [("code", .int kind.code)] =
      [("code", .int kind.code), ("message", .string message)] :=
    Json.insertMember_cons_of_gt (by decide +kernel) (by decide) _ _ _
  cases data with
  | none => exact congrArg Json.object hmessage
  | some d =>
    have hsorted : (Fault.toJson ⟨kind, message, some d⟩).canonical =
        .object (Json.insertMember "data" d.canonical
          (Json.insertMember "message" (.string message) [("code", .int kind.code)])) := rfl
    rw [hsorted, hmessage, (h d rfl).sorted,
      Json.insertMember_cons_of_gt (by decide +kernel) (by decide),
      Json.insertMember_cons_of_lt (by decide +kernel)]
    rfl

theorem Fault.plain_toJson {f : Fault} (hcode : Range64.Signed f.kind.code)
    (hdata : ∀ d, f.data = some d → d.Carried) : Json.Plain 126 f.toJson := by
  obtain ⟨kind, message, data⟩ := f
  have hwhole : Json.Plain 125 (.int kind.code) := .whole (.inl hcode)
  refine .object ?_
  cases data with
  | none => simp [hwhole, Json.Plain.string]
  | some d => simp [hwhole, Json.Plain.string, (hdata d rfl).plain]

theorem Message.ofText_notification {sent : Notification}
    (h : ∀ p, sent.params = some p → p.Carried) :
    Message.ofText sent.text = .ok (.notification sent.method sent.params) := by
  obtain ⟨method, params⟩ := sent
  have hplain : ∀ m ∈ [("jsonrpc", Json.string protocolTag), ("method", .string method)] ++
      (params.map fun p => ("params", p)).toList, Json.Plain 126 m.2 := by
    cases params with
    | none => simp [Json.Plain.string]
    | some p => simp [Json.Plain.string, (h p rfl).plain.mono (Nat.le_succ 125)]
  rw [Notification.text, Notification.toJson, Message.ofText_object hplain]
  apply Message.ofJson_notification (Json.members?_canonical_object _)
  all_goals rw [Json.member?_canonical_object]
  · cases params <;> rfl
  · cases params <;> rfl
  · cases params <;> rfl
  · cases params with
    | none => rfl
    | some p => exact congrArg some (h p rfl).sorted

theorem Message.ofText_request {id : Int} {sent : ClientRequest} (hid : Range64.Signed id)
    (h : sent.params.Carried) : Message.ofText (Outbound.requestText id sent) =
      .ok (.request (.number (.whole id)) sent.method (some sent.params)) := by
  have hplain : ∀ m ∈ [("id", Json.int id), ("jsonrpc", .string protocolTag),
      ("method", .string sent.method), ("params", sent.params)], Json.Plain 126 m.2 := by
    have hwhole : Json.Plain 126 (.int id) := .whole (.inl hid)
    simp [hwhole, Json.Plain.string, h.plain.mono (Nat.le_succ 125)]
  rw [Outbound.requestText, Message.ofText_object hplain]
  apply Message.ofJson_request (Json.members?_canonical_object _)
  all_goals rw [Json.member?_canonical_object]
  · rfl
  · rfl
  · rfl
  · exact congrArg some h.sorted

theorem RequestId.canonical_toJson (id : RequestId) : id.toJson.canonical = id.toJson := by
  cases id <;> rfl

theorem Message.ofText_success {id : RequestId} {result : Json} (hid : Json.Plain 0 id.toJson)
    (h : result.Carried) :
    Message.ofText (Reply.text ⟨id, .ok result⟩) = .ok (.answer ⟨id, .ok result⟩) := by
  have hplain : ∀ m ∈ [("jsonrpc", Json.string protocolTag), ("id", id.toJson),
      ("result", result)], Json.Plain 126 m.2 := by
    simp [Json.Plain.string, hid.mono (Nat.zero_le 126), h.plain.mono (Nat.le_succ 125)]
  rw [Reply.text, Reply.toJson, Reply.outcomeMember, Message.ofText_object hplain]
  apply Message.ofJson_success (Json.members?_canonical_object _)
  all_goals rw [Json.member?_canonical_object]
  · exact congrArg some id.canonical_toJson
  · rfl
  · rfl
  · exact congrArg some h.sorted

theorem Message.ofText_failure {id : RequestId} {fault : Fault} (hid : Json.Plain 0 id.toJson)
    (hcode : Range64.Signed fault.kind.code) (h : ∀ d, fault.data = some d → d.Carried) :
    Message.ofText (Reply.text ⟨id, .error fault⟩) = .ok (.answer ⟨id, .error fault.object⟩) := by
  have hplain : ∀ m ∈ [("jsonrpc", Json.string protocolTag), ("id", id.toJson),
      ("error", fault.toJson)], Json.Plain 126 m.2 := by
    simp [Json.Plain.string, hid.mono (Nat.zero_le 126), Fault.plain_toJson hcode h]
  rw [Reply.text, Reply.toJson, Reply.outcomeMember, Message.ofText_object hplain]
  apply Message.ofJson_failure (Json.members?_canonical_object _)
  all_goals rw [Json.member?_canonical_object]
  · exact congrArg some id.canonical_toJson
  · rfl
  · rfl
  · rfl
  · exact congrArg some (Fault.canonical_toJson h)

/-- What is sent is read as the message that was written. -/
theorem Envelope.ofText_text (e : Envelope) (h : e.Fits) :
    Message.ofText e.text = .ok e.message := by
  cases h with
  | notification hparams => exact Message.ofText_notification hparams
  | request hid hparams => exact Message.ofText_request hid hparams
  | success hid hresult => exact Message.ofText_success hid hresult
  | failure hid hcode hdata => exact Message.ofText_failure hid hcode hdata

/-- An error reply with a text to escape and the outermost numbers. -/
def edgeReply : Envelope :=
  .reply ⟨.text "a\"b\n", .error ⟨.serverError (-32000), "no", some (.object
    [("edges", .array [.int Range64.minSigned, .nat Range64.maxUnsigned])])⟩⟩

theorem edgeReply_ofText :
    edgeReply.Fits ∧ Message.ofText edgeReply.text = .ok (.answer ⟨.text "a\"b\n", .error (.object
      [("code", .int (-32000)),
        ("data", .object [("edges", .array [.int Range64.minSigned, .nat Range64.maxUnsigned])]),
        ("message", .string "no")])⟩) := by
  have hleast : Json.Plain 123 (.int Range64.minSigned) := .whole (.inl (by decide))
  have hmost : Json.Plain 123 (.nat Range64.maxUnsigned) := .whole (.inr (by decide))
  have hfits : edgeReply.Fits := by
    refine .failure .string (by decide) fun d hd => ?_
    cases hd
    have hedges : Json.Plain 124 (.array [.int Range64.minSigned, .nat Range64.maxUnsigned]) :=
      .array (by simp [hleast, hmost])
    exact ⟨.object (by simp [hedges]), rfl⟩
  exact ⟨hfits, edgeReply.ofText_text hfits⟩

end ContextServer
