import ContextServer.Proofs.Envelope.RoundTrip
import ContextServer.Proofs.Server.Serving

/-!
Notifications that name a method. One does what the request would do that has `null` for an identifier
and is admitted without a limit, and nothing comes back: the two ways into the server lead to the same
method, and no method but the handshake looks at the limiter, which it only tells of.
-/

namespace ContextServer

variable {Device : Type}

/-! ### Methods and the limiter -/

/-- A step that does the same but for the limiter that it leaves; it may give something else. -/
structure SameButLimiter {α β : Type} (r : Step Device α) (q : Step Device β) : Prop where
  server : r.server = { q.server with limiter := r.server.limiter }
  device : r.device = q.device
  events : r.events = q.events

theorem SameButLimiter.map {α β α' β' : Type} {r : Step Device α} {q : Step Device β}
    (h : SameButLimiter r q) (f : α → α') (g : β → β') : SameButLimiter (r.map f) (q.map g) :=
  ⟨h.server, h.device, h.events⟩

section OtherLimiter

variable (s : Server Device) (limiter : TokenBucket Float) (device : Device) (readings : Readings)

theorem handshake_sameButLimiter (params : Option Json) :
    SameButLimiter (s.handshake device readings params)
      (({ s with limiter } : Server Device).handshake device readings params) := by
  unfold Server.handshake
  dsimp only
  cases s.sessionId <;> dsimp only <;> split <;> exact ⟨rfl, rfl, rfl⟩

theorem callTool_sameButLimiter (id : RequestId) (params : Json) :
    SameButLimiter (s.callTool device readings id params)
      (({ s with limiter } : Server Device).callTool device readings id params) := by
  have hfind (name : String) : ({ s with limiter } : Server Device).findTool name = s.findTool name :=
    rfl
  unfold Server.callTool
  split
  · exact ⟨rfl, rfl, rfl⟩
  · rw [hfind]
    split
    · exact ⟨rfl, rfl, rfl⟩
    · dsimp only
      split <;> exact ⟨rfl, rfl, rfl⟩

theorem readResource_sameButLimiter (params : Json) :
    SameButLimiter (s.readResource device params)
      (({ s with limiter } : Server Device).readResource device params) := by
  unfold Server.readResource
  split
  · exact ⟨rfl, rfl, rfl⟩
  · dsimp only
    split <;> exact ⟨rfl, rfl, rfl⟩

theorem getPrompt_sameButLimiter (params : Json) :
    SameButLimiter (s.getPrompt device params)
      (({ s with limiter } : Server Device).getPrompt device params) := by
  unfold Server.getPrompt
  split
  · exact ⟨rfl, rfl, rfl⟩
  · dsimp only
    split
    · exact ⟨rfl, rfl, rfl⟩
    · split <;> exact ⟨rfl, rfl, rfl⟩

/-- No method lets the limiter have a say in what it does. -/
theorem serve_sameButLimiter (id : RequestId) (params : Option Json) (m : Method) :
    SameButLimiter (s.serve device readings id params m)
      (({ s with limiter } : Server Device).serve device readings id params m) := by
  cases m with
  | handshake => exact handshake_sameButLimiter s limiter device readings params
  | callTool => exact callTool_sameButLimiter s limiter device readings id (params.getD .null)
  | readResource => exact readResource_sameButLimiter s limiter device (params.getD .null)
  | getPrompt => exact getPrompt_sameButLimiter s limiter device (params.getD .null)
  | subscribe | unsubscribe =>
    simp only [Server.serve, Server.setSubscription]
    split <;> exact ⟨rfl, rfl, rfl⟩
  | complete =>
    simp only [Server.serve, Server.completeArgument]
    split <;> exact ⟨rfl, rfl, rfl⟩
  | setLevel =>
    simp only [Server.serve, Server.setLevel]
    split <;> exact ⟨rfl, rfl, rfl⟩
  | _ => exact ⟨rfl, rfl, rfl⟩

end OtherLimiter

theorem Method.Frame.limiter {s t : Server Device} {m : Method} (h : m.Frame s t) :
    t.limiter = s.limiter := by
  rw [h.rest]

/-! ### Two ways into the server -/

/-- The server without a limit on requests. -/
def Server.unlimited (s : Server Device) : Server Device :=
  { s with limiter := s.limiter.disable }

theorem TokenBucket.acquire_disable {α : Type} [LevelArithmetic α] (b : TokenBucket α)
    (now : Instant) : b.disable.acquire now = (true, b.disable) := rfl

/-- A notification other than the two of its own does what a request of the name does. -/
theorem receiveNotification_sameButLimiter (s : Server Device) (device : Device)
    (readings : Readings) {method : String} (params : Option Json)
    (ready : method ≠ "notifications/initialized") (cancel : method ≠ "notifications/cancelled") :
    SameButLimiter (s.receiveNotification device readings method params)
        (s.unlimited.receiveRequest device readings .null method params) ∧
      (s.receiveNotification device readings method params).server.limiter = s.limiter := by
  simp only [Server.receiveNotification, if_neg ready, if_neg cancel, Server.receiveRequest,
    Server.unlimited, TokenBucket.acquire_disable, if_true, Server.serveNamed]
  cases Method.ofName? method with
  | none => exact ⟨⟨rfl, rfl, rfl⟩, rfl⟩
  | some m =>
    have hserve := serve_sameButLimiter s s.limiter.disable device readings .null params m
    exact ⟨hserve.map _ _, (s.serve_frame device readings .null params m).limiter⟩

/-- The message `v`, which has no identifier, with `null` for one. -/
structure Json.NullIdentified (v w : Json) : Prop where
  nameless : v.member? "id" = none
  null : w.member? "id" = some .null
  others : ∀ key, key ≠ "id" → w.member? key = v.member? key

theorem Json.members?_isNone_of_member? {v value : Json} {key : String}
    (h : v.member? key = some value) : v.members?.isNone = false := by
  unfold Json.member? at h
  cases hv : v.members? with
  | none => simp [hv] at h
  | some members => rfl

/-- The two are read as a notification and as a request of one method with the same parameters. -/
theorem Json.NullIdentified.read {v w : Json} (h : v.NullIdentified w) {method : String}
    (tagged : v.member? "jsonrpc" = some (.string protocolTag))
    (named : v.member? "method" = some (.string method)) :
    Message.ofJson v = .ok (.notification method (v.member? "params")) ∧
      Message.ofJson w = .ok (.request .null method (v.member? "params")) := by
  have hobject := Json.members?_isNone_of_member? tagged
  have hobject' := Json.members?_isNone_of_member? h.null
  have htag := (h.others "jsonrpc" (by decide)).trans tagged
  have hname := (h.others "method" (by decide)).trans named
  have hparams := h.others "params" (by decide)
  have hnull : w.member? "id" = some RequestId.null.toJson := h.null
  exact ⟨Message.ofJson_notification hobject h.nameless tagged named rfl,
    Message.ofJson_request hobject' hnull htag hname hparams⟩

theorem receive_nullIdentified (s : Server Device) (device : Device) (readings : Readings)
    {v w : Json} (twin : v.NullIdentified w) {method : String}
    (tagged : v.member? "jsonrpc" = some (.string protocolTag))
    (named : v.member? "method" = some (.string method))
    (ready : method ≠ "notifications/initialized") (cancel : method ≠ "notifications/cancelled") :
    (s.receive device readings v).value = none ∧
      (s.receive device readings v).server.limiter = s.limiter ∧
      SameButLimiter (s.receive device readings v) (s.unlimited.receive device readings w) := by
  obtain ⟨hv, hw⟩ := twin.read tagged named
  obtain ⟨hsame, hlimiter⟩ := receiveNotification_sameButLimiter s device readings
    (v.member? "params") ready cancel
  simp only [Server.receive, hv, hw]
  exact ⟨rfl, hlimiter, hsame.map _ _⟩

/-- A notification that names a method is answered with nothing and leaves the limiter alone. All else
it leaves as the same message with the identifier `null` does where requests have no limit, and it
tells the same outside. -/
theorem notification_acts_as_request (s : Server Device) (device : Device)
    (readings : Nat → Readings) {silent asking : String} {v w : Json} {method : String}
    (notifies : Payload.ofText? silent = some (.single v))
    (asks : Payload.ofText? asking = some (.single w)) (twin : v.NullIdentified w)
    (tagged : v.member? "jsonrpc" = some (.string protocolTag))
    (named : v.member? "method" = some (.string method))
    (ready : method ≠ "notifications/initialized") (cancel : method ≠ "notifications/cancelled") :
    let told := s.process device readings silent
    let asked := s.unlimited.process device readings asking
    told.value.text = "" ∧ told.server.limiter = s.limiter ∧
      told.server = { asked.server with limiter := s.limiter } ∧
      told.device = asked.device ∧ told.events = asked.events := by
  intro told asked
  obtain ⟨hsilent, hlimiter, hsame⟩ :=
    receive_nullIdentified s device (readings 0) twin tagged named ready cancel
  have htold : told = (s.receive device (readings 0) v).map Output.ofMessage := by
    simp only [told, Server.process, notifies, Server.receivePayload]
  have hasked : asked = (s.unlimited.receive device (readings 0) w).map Output.ofMessage := by
    simp only [asked, Server.process, asks, Server.receivePayload]
  rw [htold, hasked]
  refine ⟨?_, hlimiter, ?_, hsame.device, hsame.events⟩
  · simp only [Step.map, hsilent]
    rfl
  · have hserver := hsame.server
    rw [hlimiter] at hserver
    exact hserver

/-- A message that asks to follow a resource: a request with an identifier, and else a notification. -/
def followMessage (id : List (String × Json)) : Json :=
  .object (id ++ [("jsonrpc", .string "2.0"), ("method", .string "resources/subscribe"),
    ("params", .object [("uri", .string "u")])])

def followNotice : String :=
  "\x7b\"jsonrpc\":\"2.0\",\"method\":\"resources/subscribe\"," ++
    "\"params\":\x7b\"uri\":\"u\"\x7d\x7d"

def followAsking : String :=
  "\x7b\"id\":null,\"jsonrpc\":\"2.0\",\"method\":\"resources/subscribe\"," ++
    "\"params\":\x7b\"uri\":\"u\"\x7d\x7d"

/-- A server whose bucket is empty and stays so. -/
def exhausted : Server Unit := .ofOptions { rateLimit := some (0, 0) } 0

/-- Where no request is admitted, the resource is followed all the same. -/
theorem followNotice_acts_as_request :
    Payload.ofText? followNotice = some (.single (followMessage [])) ∧
    Payload.ofText? followAsking = some (.single (followMessage [("id", .null)])) ∧
    (followMessage []).NullIdentified (followMessage [("id", .null)]) ∧
    let told := exhausted.process () (fun _ => ⟨0, 0, 0, 0, ""⟩) followNotice
    let asked := exhausted.unlimited.process () (fun _ => ⟨0, 0, 0, 0, ""⟩) followAsking
    told.value.text = "" ∧ told.server.limiter = exhausted.limiter ∧
      told.server = { asked.server with limiter := exhausted.limiter } ∧
      told.device = asked.device ∧ told.events = asked.events := by
  have notifies : Payload.ofText? followNotice = some (.single (followMessage [])) := by
    have hwritten : Json.ofWritten? followNotice = some (followMessage []) := by rfl
    have hsorted : (followMessage []).canonical = followMessage [] := by rfl
    rw [Payload.ofText?, Json.ofText?, hwritten, Option.map_some, hsorted]
    rfl
  have asks : Payload.ofText? followAsking = some (.single (followMessage [("id", .null)])) := by
    have hwritten : Json.ofWritten? followAsking = some (followMessage [("id", .null)]) := by rfl
    have hsorted : (followMessage [("id", .null)]).canonical = followMessage [("id", .null)] := by rfl
    rw [Payload.ofText?, Json.ofText?, hwritten, Option.map_some, hsorted]
    rfl
  have twin : (followMessage []).NullIdentified (followMessage [("id", .null)]) := by
    refine ⟨rfl, rfl, fun key hkey => ?_⟩
    have hne : (key == "id") = false := by simpa using hkey
    simp only [Json.member?, followMessage, Json.members?, List.nil_append, List.cons_append,
      Option.bind_some, List.lookup_cons, hne]
  have tagged : (followMessage []).member? "jsonrpc" = some (.string protocolTag) := by rfl
  have named : (followMessage []).member? "method" = some (.string "resources/subscribe") := by rfl
  have acts := notification_acts_as_request exhausted () (fun _ => ⟨0, 0, 0, 0, ""⟩) notifies asks twin
    tagged named (by decide) (by decide)
  exact ⟨notifies, asks, twin, acts⟩

end ContextServer
