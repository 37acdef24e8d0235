import ContextServer.Proofs.Server.Kept
import ContextServer.Proofs.Server.Replies
import ContextServer.Proofs.Server.Run
import ContextServer.Proofs.Server.Unanswered

/-!
The account of the limiter. Every well-formed request is counted once, as allowed or as denied, also
where a batch holds it, and nothing else is: a denied one is answered with the limiter's error, which
no other message gets, and does nothing but count.
-/

namespace ContextServer

variable {Device : Type}

/-! ### Requests and the limiter's error -/

/-- Whether a reply has the code of the limiter's error. -/
def Reply.isLimited (r : Reply) : Bool :=
  (r.toJson.errorCode?.bind Json.number?).bind Number.signed? == some (-32000)

theorem Reply.isLimited_ok (id : RequestId) (result : Json) :
    (⟨id, .ok result⟩ : Reply).isLimited = false :=
  rfl

theorem Reply.isLimited_error (id : RequestId) (fault : Fault) :
    (⟨id, .error fault⟩ : Reply).isLimited =
      ((Number.whole fault.kind.code).signed? == some (-32000)) :=
  rfl

/-- A rejected message is told so, and not that there were too many. -/
theorem isLimited_rejection {v : Json} {rejection : Reply} (h : Message.ofJson v = .error rejection) :
    rejection.isLimited = false := by
  have hread := Message.read_ofJson v
  rw [h] at hread
  cases hread
  rfl

theorem isRequest_of_ofJson {v : Json} {id : RequestId} {method : String} {params : Option Json}
    (h : Message.ofJson v = .ok (.request id method params)) : v.isRequest = true := by
  have hread := Message.read_ofJson v
  rw [h] at hread
  cases hread with
  | request hid due request => exact request

theorem exists_request {v : Json} (h : v.isRequest = true) :
    ∃ id method params, Message.ofJson v = .ok (.request id method params) := by
  have hread := Message.read_ofJson v
  generalize Message.ofJson v = read at hread
  cases hread with
  | request => exact ⟨_, _, _, rfl⟩
  | rejected r hid due request => cases h.symm.trans request
  | notification due request => cases h.symm.trans request
  | answer due request => cases h.symm.trans request

/-! ### Methods -/

/-- The kinds of error that a method may end with. -/
def Method.faultKinds : List FaultKind := [.invalidParams, .internalError, .sessionLimit]

theorem Fault.kind_invalidParams (message : String) :
    (Fault.invalidParams message).kind ∈ Method.faultKinds := .head _

theorem Fault.kind_internalError (message : String) :
    (Fault.internalError message).kind ∈ Method.faultKinds := .tail _ (.head _)

section Kinds

variable (s : Server Device) (device : Device) {params : Json} {fault : Fault}

theorem listPage_kind {key : String} {entries : List Json}
    (h : s.listPage params key entries = .error fault) : fault.kind ∈ Method.faultKinds := by
  unfold Server.listPage at h
  split at h
  · cases h
    exact Fault.kind_invalidParams _
  · cases h

theorem findTool_kind {name : String} (h : s.findTool name = .error fault) :
    fault.kind ∈ Method.faultKinds := by
  unfold Server.findTool at h
  split at h
  · cases h
    exact Fault.kind_invalidParams _
  · split at h <;> cases h
    exact Fault.kind_invalidParams _

theorem callTool_kind {readings : Readings} {id : RequestId}
    (h : (s.callTool device readings id params).value = .error fault) :
    fault.kind ∈ Method.faultKinds := by
  unfold Server.callTool at h
  split at h
  · cases h
    exact Fault.kind_invalidParams _
  · split at h
    · rename_i hfind
      cases h
      exact findTool_kind s hfind
    · dsimp only at h
      split at h <;> cases h

theorem readResource_kind (h : (s.readResource device params).value = .error fault) :
    fault.kind ∈ Method.faultKinds := by
  unfold Server.readResource at h
  split at h
  · cases h
    exact Fault.kind_invalidParams _
  · split at h
    · cases h
      exact Fault.kind_invalidParams _
    · dsimp only [Server.unchanged] at h
      split at h <;> cases h
      exact Fault.kind_internalError _

theorem setSubscription_kind {subscribe : Bool}
    (h : (s.setSubscription device subscribe params).value = .error fault) :
    fault.kind ∈ Method.faultKinds := by
  unfold Server.setSubscription at h
  split at h <;> cases h
  exact Fault.kind_invalidParams _

theorem getPrompt_kind (h : (s.getPrompt device params).value = .error fault) :
    fault.kind ∈ Method.faultKinds := by
  unfold Server.getPrompt at h
  split at h
  · cases h
    exact Fault.kind_invalidParams _
  · split at h
    · cases h
      exact Fault.kind_invalidParams _
    · dsimp only at h
      split at h
      · cases h
        exact Fault.kind_invalidParams _
      · dsimp only [Server.unchanged] at h
        split at h <;> cases h
        exact Fault.kind_internalError _

theorem completionTarget_kind (h : Server.completionTarget params = .error fault) :
    fault.kind ∈ Method.faultKinds := by
  unfold Server.completionTarget at h
  split at h
  · cases h
    exact Fault.kind_invalidParams _
  · split at h
    · cases h
      exact Fault.kind_invalidParams _
    · dsimp only at h
      split at h <;> cases h
      exact Fault.kind_invalidParams _

theorem completeArgument_kind (h : (s.completeArgument device params).value = .error fault) :
    fault.kind ∈ Method.faultKinds := by
  unfold Server.completeArgument at h
  split at h
  · rename_i htarget
    cases h
    exact completionTarget_kind htarget
  · cases h

theorem setLevel_kind (h : (s.setLevel device params).value = .error fault) :
    fault.kind ∈ Method.faultKinds := by
  unfold Server.setLevel at h
  split at h <;> cases h
  exact Fault.kind_invalidParams _

end Kinds

theorem serve_kind (s : Server Device) (device : Device) (readings : Readings) (id : RequestId)
    {params : Option Json} {m : Method} {fault : Fault}
    (h : (s.serve device readings id params m).value = .error fault) :
    fault.kind ∈ Method.faultKinds := by
  cases m with
  | handshake =>
    obtain ⟨rfl, -⟩ := handshake_error h
    exact .tail _ (.tail _ (.head _))
  | ping => cases h
  | listTools | listResources | listTemplates | listPrompts | listRoots => exact listPage_kind s h
  | callTool => exact callTool_kind s device h
  | readResource => exact readResource_kind s device h
  | subscribe | unsubscribe => exact setSubscription_kind s device h
  | getPrompt => exact getPrompt_kind s device h
  | complete => exact completeArgument_kind s device h
  | setLevel => exact setLevel_kind s device h

theorem serveNamed_not_limited (s : Server Device) (device : Device) (readings : Readings)
    (id : RequestId) (method : String) (params : Option Json) (asker : RequestId) :
    (⟨asker, (s.serveNamed device readings id method params).value⟩ : Reply).isLimited = false := by
  cases hvalue : (s.serveNamed device readings id method params).value with
  | ok result => exact Reply.isLimited_ok asker result
  | error fault =>
    rw [Reply.isLimited_error]
    unfold Server.serveNamed at hvalue
    split at hvalue
    · have hkind := serve_kind s device readings id hvalue
      simp only [Method.faultKinds, List.mem_cons, List.not_mem_nil, or_false] at hkind
      rcases hkind with hkind | hkind | hkind <;> rw [hkind] <;> decide
    · cases hvalue
      rfl

/-! ### One message -/

/-- The limiter `c` is `b` after it has counted some requests, of which it has denied some. -/
structure TokenBucket.Counted {α : Type} (b c : TokenBucket α) (requests denied : Nat) : Prop where
  enabled : c.enabled = true
  total : c.allowed + c.denied = b.allowed + b.denied + requests
  denied : c.denied = b.denied + denied

theorem TokenBucket.Counted.trans {α : Type} {b c d : TokenBucket α} {m n m' n' : Nat}
    (h : b.Counted c m n) (h' : c.Counted d m' n') : b.Counted d (m + m') (n + n') where
  enabled := h'.enabled
  total := by
    have := h.total
    have := h'.total
    omega
  denied := by
    have := h.denied
    have := h'.denied
    omega

theorem TokenBucket.counted_acquire {α : Type} [LevelArithmetic α] {b : TokenBucket α}
    (enabled : b.enabled = true) (now : Instant) :
    b.Counted (b.acquire now).2 1 (if (b.acquire now).1 then 0 else 1) := by
  unfold TokenBucket.acquire
  simp only [enabled, Bool.not_true, Bool.false_eq_true, if_false]
  split
  · exact ⟨enabled, by simp [refill]; omega, rfl⟩
  · exact ⟨enabled, by simp [refill]; omega, rfl⟩

theorem serveNamed_limiter (s : Server Device) (device : Device) (readings : Readings)
    (id : RequestId) (method : String) (params : Option Json) :
    (s.serveNamed device readings id method params).server.limiter = s.limiter := by
  unfold Server.serveNamed
  split
  · exact (s.serve_frame device readings id params _).limiter
  · rfl

theorem receiveRequest_counted {s : Server Device} (enabled : s.limiter.enabled = true)
    (device : Device) (readings : Readings) (id : RequestId) (method : String)
    (params : Option Json) :
    s.limiter.Counted (s.receiveRequest device readings id method params).server.limiter 1
      (if (s.receiveRequest device readings id method params).value.isLimited then 1 else 0) := by
  have hcounted := TokenBucket.counted_acquire enabled readings.admission
  unfold Server.receiveRequest
  dsimp only
  split
  · rename_i admitted
    rw [if_pos admitted] at hcounted
    simp only [Step.map, serveNamed_limiter, serveNamed_not_limited, Bool.false_eq_true, if_false]
    exact hcounted
  · rename_i refused
    rw [if_neg refused] at hcounted
    exact hcounted

/-- What is no request leaves the limiter as it is. -/
theorem receive_limiter (s : Server Device) (device : Device) (readings : Readings) {v : Json}
    (h : v.isRequest = false) : (s.receive device readings v).server.limiter = s.limiter := by
  unfold Server.receive
  split
  · rfl
  · rename_i hmessage
    cases h.symm.trans (isRequest_of_ofJson hmessage)
  · rename_i method params _
    simp only [Step.map, Server.receiveNotification]
    split
    · rw [s.confirmHandshake_frame]
    · split
      · rw [s.cancelRequest_frame params]
      · split
        · exact (s.serve_frame device readings .null params _).limiter
        · rfl
  · rename_i reply _
    simp only [Step.map]
    rw [s.receiveAnswer_frame device reply]

theorem receive_not_limited (s : Server Device) (device : Device) (readings : Readings) {v : Json}
    (h : v.isRequest = false) :
    ∀ reply ∈ (s.receive device readings v).value, reply.isLimited = false := by
  unfold Server.receive
  split
  · rename_i hmessage
    rintro reply ⟨⟩
    exact isLimited_rejection hmessage
  · rename_i hmessage
    cases h.symm.trans (isRequest_of_ofJson hmessage)
  · nofun
  · nofun

theorem receive_counted {s : Server Device} (enabled : s.limiter.enabled = true) (device : Device)
    (readings : Readings) (v : Json) :
    s.limiter.Counted (s.receive device readings v).server.limiter
      (if v.isRequest then 1 else 0)
      ((s.receive device readings v).value.toList.countP Reply.isLimited) := by
  cases hv : v.isRequest with
  | true =>
    obtain ⟨id, method, params, hmessage⟩ := exists_request hv
    have hcounted := receiveRequest_counted enabled device readings id method params
    simpa [Server.receive, hmessage, Step.map, List.countP_cons] using hcounted
  | false =>
    have hlimiter := receive_limiter s device readings hv
    have hnone : (s.receive device readings v).value.toList.countP Reply.isLimited = 0 := by
      rw [List.countP_eq_zero]
      intro reply hreply
      simp [receive_not_limited s device readings hv reply (Option.mem_toList.mp hreply)]
    rw [hlimiter, hnone]
    exact ⟨enabled, rfl, rfl⟩

/-- The reply with the limiter's error that a moment's message gets, if it gets one. -/
def Moment.denial? (moment : Moment Device) : Option Reply := moment.reply?.filter Reply.isLimited

/-- The moment's message is a request, the reply is under its identifier, and nothing comes of it but
that the limiter counts it. -/
def Moment.Denied (moment : Moment Device) (reply : Reply) : Prop :=
  ∃ readings v, moment.move = .message readings v ∧ v.isRequest = true ∧
    reply.id.toJson = v.echoedId ∧
      let r := moment.server.receive moment.device readings v
      moment.server.SameButTokens r.server ∧ r.device = moment.device ∧ r.events = []

theorem denied_of_denial? {moment : Moment Device} {reply : Reply} (h : moment.denial? = some reply) :
    moment.Denied reply := by
  obtain ⟨hreplied, limited⟩ := Option.filter_eq_some_iff.mp h
  obtain ⟨s, device, move⟩ := moment
  cases move with
  | call c => cases hreplied
  | message readings v =>
    have hreply : (s.receive device readings v).value = some reply := hreplied
    have hrequest : v.isRequest = true := by
      by_contra hother
      have hnot := receive_not_limited s device readings (Bool.eq_false_iff.mpr hother) reply hreply
      rw [limited] at hnot
      cases hnot
    have hid : reply.id.toJson = v.echoedId := by
      have hechoed := receive_replies s device readings v
      rw [hreply] at hechoed
      split at hechoed
      · exact Option.some.inj hechoed
      · cases hechoed
    refine ⟨readings, v, rfl, hrequest, hid, ?_⟩
    obtain ⟨id, method, params, hmessage⟩ := exists_request hrequest
    have hreceive : s.receive device readings v =
        (s.receiveRequest device readings id method params).map some := by
      simp only [Server.receive, hmessage]
    rw [hreceive] at hreply ⊢
    unfold Server.receiveRequest at hreply ⊢
    dsimp only at hreply ⊢
    split
    · rename_i admitted
      -- an admitted request is answered by its method, and never so
      rw [if_pos admitted] at hreply
      have hserved : reply.isLimited = false := by
        rw [← Option.some.inj hreply]
        exact serveNamed_not_limited _ device readings id method params id
      rw [limited] at hserved
      cases hserved
    · exact ⟨s.sameButTokens_acquire readings.admission, rfl, rfl⟩

/-! ### Histories -/

/-- A move that neither switches the limiter off nor resets its counts. -/
def Move.steady : Move Device → Prop
  | .call (.changeLimiter change) => ∀ b : TokenBucket Float, b.enabled = true →
      (change b).enabled = true ∧ (change b).allowed = b.allowed ∧ (change b).denied = b.denied
  | _ => True

def Move.isRequest : Move Device → Bool
  | .call _ => false
  | .message _ v => v.isRequest

theorem perform_counted {s : Server Device} (enabled : s.limiter.enabled = true) (device : Device)
    {c : HostCall Device} (steady : (Move.call c).steady) :
    s.limiter.Counted (s.perform device c).server.limiter 0 0 := by
  cases c with
  | changeLimiter change =>
    obtain ⟨henabled, hallowed, hdenied⟩ := steady s.limiter enabled
    exact ⟨henabled, by simp only [Server.perform]; omega, hdenied⟩
  | log level logger data =>
    simp only [Server.perform, Server.flagged, Server.log]
    split <;> exact ⟨enabled, rfl, rfl⟩
  | _ => exact ⟨enabled, rfl, rfl⟩

theorem move_counted {s : Server Device} (enabled : s.limiter.enabled = true) (device : Device)
    {m : Move Device} (steady : m.steady) :
    s.limiter.Counted (s.move device m).server.limiter (if m.isRequest then 1 else 0)
      ((Moment.mk s device m).reply?.toList.countP Reply.isLimited) := by
  cases m with
  | call c => exact perform_counted enabled device steady
  | message readings v => exact receive_counted enabled device readings v

/-- The replies to the messages of a history, in order. -/
def Server.replies (s : Server Device) (device : Device) (history : List (Move Device)) :
    List Reply :=
  (s.moments device history).filterMap Moment.reply?

theorem Server.replies_cons (s : Server Device) (device : Device) (m : Move Device)
    (rest : List (Move Device)) :
    s.replies device (m :: rest) = (Moment.mk s device m).reply?.toList ++
      (s.move device m).server.replies (s.move device m).device rest := by
  rw [replies, moments, List.filterMap_cons]
  cases (Moment.mk s device m).reply? <;> rfl

theorem play_counted {s : Server Device} (enabled : s.limiter.enabled = true) (device : Device)
    {history : List (Move Device)} (steady : ∀ m ∈ history, m.steady) :
    s.limiter.Counted (s.play device history).server.limiter (history.countP Move.isRequest)
      ((s.replies device history).countP Reply.isLimited) := by
  induction history generalizing s device with
  | nil => exact ⟨enabled, rfl, rfl⟩
  | cons m rest ih =>
    have step := move_counted enabled device (steady m List.mem_cons_self)
    have more := ih step.enabled (s.move device m).device fun m' hm' =>
      steady m' (List.mem_cons_of_mem _ hm')
    have whole := step.trans more
    rw [List.countP_cons, Nat.add_comm, Server.play_cons, Server.replies_cons, List.countP_append]
    exact whole

/-! ### Texts -/

theorem Server.replies_append (s : Server Device) (device : Device)
    (before after : List (Move Device)) :
    s.replies device (before ++ after) = s.replies device before ++
      (s.play device before).server.replies (s.play device before).device after := by
  induction before generalizing s device with
  | nil => rfl
  | cons m rest ih =>
    have htail := ih (s.move device m).server (s.move device m).device
    rw [List.cons_append, Server.replies_cons, htail, Server.replies_cons, List.append_assoc]
    rfl

theorem receiveAll_value (s : Server Device) (device : Device) (readings : Nat → Readings) (k : Nat)
    (values : List Json) :
    (s.receiveAll device readings k values).value =
      s.replies device (Move.ofMessages readings k values) := by
  induction values generalizing s device k with
  | nil => rfl
  | cons v rest ih =>
    rw [Server.receiveAll, ih, Move.ofMessages, Server.replies_cons]
    rfl

theorem Output.replies_ofMessage (reply : Option Reply) :
    (Output.ofMessage reply).replies = reply.toList := by
  cases reply <;> rfl

/-- One action with what is sent for it. -/
def Server.respond (s : Server Device) (device : Device) : Action Device → Step Device (List Output)
  | .call c => (s.perform device c).map fun _ => []
  | .inbound readings text => (s.process device readings text).map fun output => [output]

/-- The messages that come in with an action, those of a batch one by one. -/
def Action.messages : Action Device → List Json
  | .call _ => []
  | .inbound _ text => (messages? text).getD []

theorem messages?_eq (text : String) :
    messages? text = (Payload.ofText? text).map Payload.messages := by
  unfold messages? Payload.ofText?
  cases Json.ofText? text with
  | none => rfl
  | some v => cases v <;> rfl

theorem countP_ofMessages (readings : Nat → Readings) (k : Nat) (values : List Json) :
    (Move.ofMessages readings k values : List (Move Device)).countP Move.isRequest =
      values.countP Json.isRequest := by
  induction values generalizing k with
  | nil => rfl
  | cons v rest ih => rw [Move.ofMessages, List.countP_cons, List.countP_cons, ih]; rfl

theorem countP_moves (a : Action Device) :
    a.moves.countP Move.isRequest = a.messages.countP Json.isRequest := by
  cases a with
  | call c => rfl
  | inbound readings text =>
    simp only [Action.moves, Action.messages, messages?_eq]
    cases Payload.ofText? text with
    | none => rfl
    | some p => exact countP_ofMessages readings 0 p.messages

theorem respond_server (s : Server Device) (device : Device) (a : Action Device) :
    (s.respond device a).server = (s.play device a.moves).server ∧
      (s.respond device a).device = (s.play device a.moves).device := by
  rw [← Server.act_eq_play]
  cases a <;> exact ⟨rfl, rfl⟩

/-- What is sent for an action holds the replies of its moves; the only other reply tells that a text
is no payload. -/
theorem respond_limited (s : Server Device) (device : Device) (a : Action Device) :
    ((s.respond device a).value.flatMap Output.replies).filter Reply.isLimited =
      (s.replies device a.moves).filter Reply.isLimited := by
  cases a with
  | call c => rfl
  | inbound readings text =>
    simp only [Server.respond, Step.map, List.flatMap_cons, List.flatMap_nil, List.append_nil,
      Server.process, Action.moves]
    cases Payload.ofText? text with
    | none => rfl
    | some p =>
      cases p with
      | single v =>
        have hone := receiveAll_value s device readings 0 [v]
        simp only [Server.receiveAll, List.append_nil] at hone
        simp only [Server.receivePayload, Step.map, Output.replies_ofMessage, hone]
        rfl
      | batch values =>
        simp only [Server.receivePayload, Step.map, Output.replies_ofBatch, receiveAll_value]
        rfl

theorem Server.play_append (s : Server Device) (device : Device) (before after : List (Move Device)) :
    (s.play device (before ++ after)).server =
      ((s.play device before).server.play (s.play device before).device after).server := by
  simp only [Server.play, Server.inOrder_append]

/-- A run is answered as its history is, but for what is told of texts that are no payloads. -/
theorem run_limited (s : Server Device) (device : Device) (actions : List (Action Device)) :
    ((s.inOrder Server.respond device actions).value.flatMap Output.replies).filter
        Reply.isLimited = (s.replies device (Action.history actions)).filter Reply.isLimited ∧
      (s.inOrder Server.respond device actions).server =
        (s.play device (Action.history actions)).server := by
  induction actions generalizing s device with
  | nil => exact ⟨rfl, rfl⟩
  | cons a rest ih =>
    obtain ⟨hserver, hdevice⟩ := respond_server s device a
    have hfirst := respond_limited s device a
    obtain ⟨hreplies, hended⟩ := ih (s.respond device a).server (s.respond device a).device
    rw [hserver, hdevice] at hreplies hended
    constructor
    · simp only [Server.inOrder, List.flatMap_append, List.filter_append, hfirst, Action.history,
        List.flatMap_cons, Server.replies_append, hserver, hdevice]
      exact congrArg _ hreplies
    · simp only [Server.inOrder, hserver, hdevice, hended, Action.history, List.flatMap_cons,
        Server.play_append]

theorem countP_history (actions : List (Action Device)) :
    (Action.history actions).countP Move.isRequest =
      (actions.flatMap Action.messages).countP Json.isRequest := by
  induction actions with
  | nil => rfl
  | cons a rest ih =>
    rw [Action.history, List.flatMap_cons, List.countP_append, countP_moves, List.flatMap_cons,
      List.countP_append, ← ih]
    rfl

/-- While the limiter is on and its counts are not reset, it counts the well-formed requests of the
texts that come in, and denies as many as are answered with its error. Each of those does nothing
else; and what is no request, or no payload, leaves the limiter as it is. -/
theorem admissions_counted (s : Server Device) (device : Device) (actions : List (Action Device))
    (enabled : s.limiter.enabled = true)
    (steady : ∀ c, .call c ∈ actions → (Move.call c).steady) :
    let ended := s.inOrder Server.respond device actions
    let limited := (ended.value.flatMap Output.replies).filter Reply.isLimited
    ended.server.limiter.allowed + ended.server.limiter.denied =
        s.limiter.allowed + s.limiter.denied +
          (actions.flatMap Action.messages).countP Json.isRequest ∧
      ended.server.limiter.denied = s.limiter.denied + limited.length ∧
      limited = (s.moments device (Action.history actions)).filterMap Moment.denial? ∧
      (∀ moment ∈ s.moments device (Action.history actions), ∀ reply,
        moment.denial? = some reply → moment.Denied reply) ∧
      (∀ (t : Server Device) d readings v, v.isRequest = false →
        (t.receive d readings v).server.limiter = t.limiter) ∧
      ∀ (t : Server Device) d readings text, messages? text = none →
        (t.process d readings text).server.limiter = t.limiter := by
  intro ended limited
  obtain ⟨hlimited, hended⟩ := run_limited s device actions
  have hsteady : ∀ m ∈ Action.history actions, m.steady := by
    intro m hm
    obtain ⟨a, ha, hmoves⟩ := List.mem_flatMap.mp hm
    cases a with
    | call c =>
      rw [List.mem_singleton.mp hmoves]
      exact steady c ha
    | inbound readings text =>
      have hinbound : m ∈ Action.history (Action.inbounds [(readings, text)]) :=
        List.mem_flatMap.mpr ⟨_, List.mem_singleton.mpr rfl, hmoves⟩
      obtain ⟨r, v, rfl⟩ := isMessage_of_mem_history hinbound
      exact trivial
  have hcounted := play_counted enabled device hsteady
  have hlength : limited.length =
      (s.replies device (Action.history actions)).countP Reply.isLimited := by
    rw [List.countP_eq_length_filter, ← hlimited]
  rw [← hended, countP_history, ← hlength] at hcounted
  refine ⟨hcounted.total, hcounted.denied, ?_, fun _ _ _ => denied_of_denial?, ?_, ?_⟩
  · exact hlimited.trans (List.filter_filterMap ..)
  · exact fun t d readings v => receive_limiter t d readings
  · intro t d readings text hnone
    rw [messages?_eq, Option.map_eq_none_iff] at hnone
    rw [Server.process, hnone]

/-- Two requests in a batch, with a notification that names a method and what is no message between
them; then the limit is set anew, and what is no payload comes in. -/
def crowdedBatch : List (Action Unit) :=
  [.inbound (fun _ => ⟨0, 0, 0, 0, "s"⟩)
    ("[\x7b\"id\":1,\"jsonrpc\":\"2.0\",\"method\":\"ping\"\x7d," ++
      "\x7b\"jsonrpc\":\"2.0\",\"method\":\"ping\"\x7d,null," ++
      "\x7b\"id\":\"b\",\"jsonrpc\":\"2.0\",\"method\":7\x7d]"),
    .call (.changeLimiter fun b => b.configure 0 0 1),
    .inbound (fun _ => ⟨1, 1, 1, 1, "t"⟩) "ping"]

/-- A server that admits one request. -/
def thrifty : Server Unit := .ofOptions { rateLimit := some (0, 1) } 0

theorem crowdedBatch_counted :
    thrifty.limiter.enabled = true ∧ (∀ c, .call c ∈ crowdedBatch → (Move.call c).steady) ∧
      let ended := thrifty.inOrder Server.respond () crowdedBatch
      let limited := (ended.value.flatMap Output.replies).filter Reply.isLimited
      ended.server.limiter.allowed + ended.server.limiter.denied = 2 ∧
        ended.server.limiter.denied = limited.length ∧ limited.map Reply.text =
          ["\x7b\"jsonrpc\":\"2.0\",\"id\":\"b\",\"error\":" ++
            "\x7b\"code\":-32000,\"message\":\"Rate limit exceeded\"\x7d\x7d"] := by
  have enabled : thrifty.limiter.enabled = true := by rfl
  have steady : ∀ c, .call c ∈ crowdedBatch → (Move.call c).steady := by
    intro c hc
    simp only [crowdedBatch, List.mem_cons, Action.call.injEq, reduceCtorEq, List.not_mem_nil,
      or_false, false_or] at hc
    rw [hc]
    exact fun b _ => ⟨rfl, rfl, rfl⟩
  have hrequests : (crowdedBatch.flatMap Action.messages).countP Json.isRequest = 2 := by
    decide +kernel
  obtain ⟨htotal, hdenied, -⟩ := admissions_counted thrifty () crowdedBatch enabled steady
  have hallowed : thrifty.limiter.allowed = 0 := by rfl
  have hzero : thrifty.limiter.denied = 0 := by rfl
  rw [hrequests, hallowed, hzero] at htotal
  rw [hzero, Nat.zero_add] at hdenied
  exact ⟨enabled, steady, htotal, hdenied, by decide +kernel⟩

end ContextServer
