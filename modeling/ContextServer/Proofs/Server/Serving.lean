import ContextServer.Server.Processing

/-!
What serving a message may change. Five methods change the server at all, each only a few of its parts:
a handshake the session, a tool call what calls leave behind, the two subscription methods the
notifier, and `logging/setLevel` the threshold. The frame of each method says so; the offers, the
groups and the requests to the client are in none of them. A message has one method carried out at the
most, which `carriesOut?` names; `receive_handled` says what becomes of the others.
-/

namespace ContextServer

variable {Device : Type}

/-- The parts of a server that a method may change; everything else is in `t` as it is in `s`. -/
def Method.Frame (s t : Server Device) : Method → Prop
  | .handshake => t = { s with
      phase := t.phase, clientName := t.clientName, sessionId := t.sessionId, sessions := t.sessions }
  | .callTool => t = { s with notifier := t.notifier, inFlight := t.inFlight, cache := t.cache }
  | .subscribe | .unsubscribe => t = { s with notifier := t.notifier }
  | .setLevel => t = { s with threshold := t.threshold }
  | _ => t = s

namespace Server

/-! ### The methods keep to their frames -/

theorem handshake_frame (s : Server Device) (device : Device) (readings : Readings)
    (params : Option Json) :
    Method.Frame s (s.handshake device readings params).server .handshake := by
  unfold handshake
  cases s.sessionId <;> dsimp only <;> split <;> rfl

theorem callTool_frame (s : Server Device) (device : Device) (readings : Readings) (id : RequestId)
    (params : Json) :
    Method.Frame s (s.callTool device readings id params).server .callTool := by
  unfold callTool
  split
  · rfl
  · split
    · rfl
    · dsimp only
      split <;> rfl

theorem setSubscription_frame (s : Server Device) (device : Device) (subscribe : Bool)
    (params : Json) :
    Method.Frame s (s.setSubscription device subscribe params).server .subscribe := by
  unfold setSubscription
  split <;> rfl

theorem setLevel_frame (s : Server Device) (device : Device) (params : Json) :
    Method.Frame s (s.setLevel device params).server .setLevel := by
  unfold setLevel
  split <;> rfl

theorem readResource_server (s : Server Device) (device : Device) (params : Json) :
    (s.readResource device params).server = s := by
  unfold readResource
  split
  · rfl
  · split <;> rfl

theorem getPrompt_server (s : Server Device) (device : Device) (params : Json) :
    (s.getPrompt device params).server = s := by
  unfold getPrompt
  split
  · rfl
  · split
    · rfl
    · dsimp only
      split <;> rfl

theorem completeArgument_server (s : Server Device) (device : Device) (params : Json) :
    (s.completeArgument device params).server = s := by
  unfold completeArgument
  split <;> rfl

theorem serve_frame (s : Server Device) (device : Device) (readings : Readings) (id : RequestId)
    (params : Option Json) (m : Method) :
    m.Frame s (s.serve device readings id params m).server := by
  cases m with
  | handshake => exact s.handshake_frame device readings params
  | callTool => exact s.callTool_frame device readings id _
  | subscribe => exact s.setSubscription_frame device true _
  | unsubscribe => exact s.setSubscription_frame device false _
  | setLevel => exact s.setLevel_frame device _
  | readResource => exact s.readResource_server device _
  | getPrompt => exact s.getPrompt_server device _
  | complete => exact s.completeArgument_server device _
  | _ => rfl

/-- The one thing that the outside is told of is the opening of a session. -/
theorem serve_events (s : Server Device) (device : Device) (readings : Readings) (id : RequestId)
    (params : Option Json) (m : Method) :
    ∀ e ∈ (s.serve device readings id params m).events, ∃ name, e = .opened name := by
  cases m with
  | handshake =>
    simp only [serve, handshake]
    cases s.sessionId <;> dsimp only <;> split <;> simp
  | callTool =>
    simp only [serve, callTool]
    split
    · simp [unchanged]
    · split
      · simp [unchanged]
      · split <;> simp [unchanged, runTool, Step.map]
  | subscribe => simp only [serve, setSubscription]; split <;> simp [unchanged]
  | unsubscribe => simp only [serve, setSubscription]; split <;> simp [unchanged]
  | setLevel => simp only [serve, setLevel]; split <;> simp [unchanged]
  | readResource =>
    simp only [serve, readResource]
    split
    · simp [unchanged]
    · split <;> simp [unchanged]
  | getPrompt =>
    simp only [serve, getPrompt]
    split
    · simp [unchanged]
    · split
      · simp [unchanged]
      · split <;> simp [unchanged]
  | complete => simp only [serve, completeArgument]; split <;> simp [unchanged]
  | _ => simp [serve, unchanged]

end Server

/-! ### What the frames leave alone -/

namespace Method.Frame

variable {s t : Server Device} {m : Method}

theorem rest (h : m.Frame s t) :
    t = { s with
      phase := t.phase, clientName := t.clientName, sessionId := t.sessionId, sessions := t.sessions
      notifier := t.notifier, inFlight := t.inFlight, cache := t.cache, threshold := t.threshold } := by
  cases m <;> simp only [Method.Frame] at h <;> rw [h]

theorem catalog (h : m.Frame s t) : t.catalog = s.catalog := by rw [h.rest]

theorem threshold (h : m.Frame s t) (hm : m ≠ .setLevel) : t.threshold = s.threshold := by
  cases m with
  | setLevel => exact absurd rfl hm
  | _ => simp only [Method.Frame] at h; rw [h]

theorem cache (h : m.Frame s t) (hm : m ≠ .callTool) : t.cache = s.cache := by
  cases m with
  | callTool => exact absurd rfl hm
  | _ => simp only [Method.Frame] at h; rw [h]

theorem inFlight (h : m.Frame s t) (hm : m ≠ .callTool) : t.inFlight = s.inFlight := by
  cases m with
  | callTool => exact absurd rfl hm
  | _ => simp only [Method.Frame] at h; rw [h]

theorem notifier (h : m.Frame s t) (hc : m ≠ .callTool) (hs : m ≠ .subscribe)
    (hu : m ≠ .unsubscribe) : t.notifier = s.notifier := by
  cases m with
  | callTool => exact absurd rfl hc
  | subscribe => exact absurd rfl hs
  | unsubscribe => exact absurd rfl hu
  | _ => simp only [Method.Frame] at h; rw [h]

end Method.Frame

/-! ### What becomes of a message -/

namespace Server

/-- The method that a message has carried out, with the identifier and the parameters that it is given.
A request has to be admitted; a notification that names a method is served without an identifier. -/
def carriesOut? (s : Server Device) (readings : Readings) (v : Json) :
    Option (RequestId × Option Json × Method) :=
  match Message.ofJson v with
  | .ok (.request id method params) =>
    if (s.limiter.acquire readings.admission).1 then
      (Method.ofName? method).map fun m => (id, params, m)
    else none
  | .ok (.notification method params) =>
    (Method.ofName? method).map fun m => (.null, params, m)
  | _ => none

/-- What becomes of a message: a method is served, an answer is matched, or nothing comes of it but a
note of the limiter, the phase or the requests in flight. -/
inductive Handled (s : Server Device) (device : Device) (readings : Readings) (v : Json)
    (r : Step Device (Option Reply)) : Prop
  | served (id : RequestId) (params : Option Json) (m : Method) (limiter : TokenBucket Float)
    (carried : s.carriesOut? readings v = some (id, params, m))
    (step : ∃ f, r = (({ s with limiter } : Server Device).serve device readings id params m).map f)
  | answered (reply : ClientReply) (carried : s.carriesOut? readings v = none)
    (message : Message.ofJson v = .ok (.answer reply))
    (step : r = (s.receiveAnswer device reply).map fun _ => none)
  | idle (limiter : TokenBucket Float) (phase : Phase) (inFlight : InFlight)
    (carried : s.carriesOut? readings v = none)
    (message : ∀ reply, Message.ofJson v ≠ .ok (.answer reply))
    (server : r.server = { s with limiter, phase, inFlight })
    (device : r.device = device) (events : r.events = [])

theorem receiveRequest_handled (s : Server Device) (device : Device) (readings : Readings) (v : Json)
    {id : RequestId} {method : String} {params : Option Json}
    (h : Message.ofJson v = .ok (.request id method params)) :
    Handled s device readings v ((s.receiveRequest device readings id method params).map some) := by
  unfold receiveRequest
  dsimp only
  split
  · rename_i hadmitted
    unfold serveNamed
    split
    · rename_i m hm
      exact .served id params m _ (by simp [carriesOut?, h, hadmitted, hm])
        ⟨fun answer => some ⟨id, answer⟩, rfl⟩
    · rename_i hm
      exact .idle (s.limiter.acquire readings.admission).2 s.phase s.inFlight
        (by simp [carriesOut?, h, hm]) (by simp [h]) rfl rfl rfl
  · rename_i hadmitted
    exact .idle (s.limiter.acquire readings.admission).2 s.phase s.inFlight
      (by simp [carriesOut?, h, hadmitted]) (by simp [h]) rfl rfl rfl

/-- A request for a method is served if it is admitted. -/
theorem receive_request (s : Server Device) (device : Device) (readings : Readings) {v : Json}
    {id : RequestId} {m : Method} {params : Option Json}
    (h : Message.ofJson v = .ok (.request id m.name params)) :
    s.receive device readings v =
      let limited := { s with limiter := (s.limiter.acquire readings.admission).2 }
      if (s.limiter.acquire readings.admission).1 then
        (limited.serve device readings id params m).map fun answer => some ⟨id, answer⟩
      else ⟨some (.refusal id .rateLimited), limited, device, []⟩ := by
  have hnamed : Method.ofName? m.name = some m := m.ofName?_name
  simp only [receive, h, receiveRequest, serveNamed, hnamed]
  split <;> rfl

theorem confirmHandshake_frame (s : Server Device) :
    s.confirmHandshake = { s with phase := s.confirmHandshake.phase } := by
  unfold confirmHandshake
  split <;> rfl

theorem cancelRequest_frame (s : Server Device) (params : Option Json) :
    s.cancelRequest params = { s with inFlight := (s.cancelRequest params).inFlight } := by
  unfold cancelRequest
  split <;> rfl

theorem receiveAnswer_frame (s : Server Device) (device : Device) (reply : ClientReply) :
    (s.receiveAnswer device reply).server = { s with
      sampling := (s.receiveAnswer device reply).server.sampling
      elicitation := (s.receiveAnswer device reply).server.elicitation } := by
  unfold receiveAnswer
  split
  · rfl
  · split
    · rfl
    · split <;> rfl

theorem receiveNotification_handled (s : Server Device) (device : Device) (readings : Readings)
    (v : Json) {method : String} {params : Option Json}
    (h : Message.ofJson v = .ok (.notification method params)) :
    Handled s device readings v
      ((s.receiveNotification device readings method params).map fun _ => none) := by
  unfold receiveNotification
  split
  · rename_i hmethod
    exact .idle s.limiter s.confirmHandshake.phase s.inFlight
      (by simp [carriesOut?, h, hmethod]; decide) (by simp [h]) s.confirmHandshake_frame rfl rfl
  · split
    · rename_i hmethod
      exact .idle s.limiter s.phase (s.cancelRequest params).inFlight
        (by simp [carriesOut?, h, hmethod]; decide) (by simp [h]) (s.cancelRequest_frame params)
        rfl rfl
    · split
      · rename_i m hm
        exact .served .null params m s.limiter (by simp [carriesOut?, h, hm]) ⟨fun _ => none, rfl⟩
      · rename_i hm
        exact .idle s.limiter s.phase s.inFlight (by simp [carriesOut?, h, hm]) (by simp [h])
          rfl rfl rfl

theorem receive_handled (s : Server Device) (device : Device) (readings : Readings) (v : Json) :
    Handled s device readings v (s.receive device readings v) := by
  unfold receive
  split
  · rename_i rejection h
    exact .idle s.limiter s.phase s.inFlight (by simp [carriesOut?, h]) (by simp [h]) rfl rfl rfl
  · rename_i id method params h
    exact receiveRequest_handled s device readings v h
  · rename_i method params h
    exact receiveNotification_handled s device readings v h
  · rename_i reply h
    exact .answered reply (by simp [carriesOut?, h]) h rfl

/-- The method that a message has carried out is served, and the limiter alone was there before. -/
theorem receive_carried {s : Server Device} {readings : Readings} {v : Json} {id : RequestId}
    {params : Option Json} {m : Method} (device : Device)
    (h : s.carriesOut? readings v = some (id, params, m)) :
    ∃ limiter f, s.receive device readings v =
      (({ s with limiter } : Server Device).serve device readings id params m).map f := by
  cases s.receive_handled device readings v with
  | served id' params' m' limiter carried step =>
    cases h.symm.trans carried
    exact ⟨limiter, step⟩
  | answered reply carried => cases h.symm.trans carried
  | idle limiter phase inFlight carried => cases h.symm.trans carried

end Server

end ContextServer
