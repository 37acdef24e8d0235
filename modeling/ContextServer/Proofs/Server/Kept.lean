import ContextServer.Proofs.Requests.Tables
import ContextServer.Proofs.Server.Refusals
import ContextServer.Proofs.Sessions.Refusals

/-!
What a client cannot change. The offers, the groups, the limits and the rules of the cache are the
host's: no text that comes in changes them, and none asks the client for anything. All that a text can
do to the server's own requests is to end the wait for one. So a listing says the same until the host
changes something.
-/

namespace ContextServer

variable {Device : Type}

/-! ### Rules and what is kept under them -/

/-- The same lifetimes and bound, and the cache on or off alike; the entries and counts may differ. -/
structure ResultCache.SameRules (c d : ResultCache) : Prop where
  enabled : d.enabled = c.enabled
  lifetimes : d.lifetimes = c.lifetimes
  maxEntries : d.maxEntries = c.maxEntries

theorem ResultCache.SameRules.trans {c d e : ResultCache} (h : c.SameRules d) (h' : d.SameRules e) :
    c.SameRules e :=
  ⟨h'.enabled.trans h.enabled, h'.lifetimes.trans h.lifetimes, h'.maxEntries.trans h.maxEntries⟩

theorem ResultCache.sameRules_lookup (c : ResultCache) (tool : String) (arguments : Json)
    (now : Instant) : c.SameRules (c.lookup tool arguments now).2 := by
  unfold ResultCache.lookup
  split
  · exact ⟨rfl, rfl, rfl⟩
  · dsimp only
    split
    · split <;> exact ⟨rfl, rfl, rfl⟩
    · exact ⟨rfl, rfl, rfl⟩

theorem ResultCache.sameRules_store (c : ResultCache) (tool : String) (arguments : Json)
    (result : ToolResult) (now : Instant) : c.SameRules (c.store tool arguments result now) := by
  unfold ResultCache.store
  split
  · exact ⟨rfl, rfl, rfl⟩
  · split <;> exact ⟨rfl, rfl, rfl⟩

/-- The same rate and capacity, and the bucket on or off alike; the level and counts may differ. -/
structure TokenBucket.SameRules {α : Type} (b c : TokenBucket α) : Prop where
  enabled : c.enabled = b.enabled
  rate : c.rate = b.rate
  capacity : c.capacity = b.capacity

theorem TokenBucket.SameRules.trans {α : Type} {b c d : TokenBucket α} (h : b.SameRules c)
    (h' : c.SameRules d) : b.SameRules d :=
  ⟨h'.enabled.trans h.enabled, h'.rate.trans h.rate, h'.capacity.trans h.capacity⟩

theorem TokenBucket.sameRules_acquire {α : Type} [LevelArithmetic α] (b : TokenBucket α)
    (now : Instant) : b.SameRules (b.acquire now).2 := by
  rw [b.acquire_frame now]
  exact ⟨rfl, rfl, rfl⟩

/-- The same bound and timeout; the sessions may differ. -/
structure Sessions.SameRules (s t : Sessions) : Prop where
  maxSessions : t.maxSessions = s.maxSessions
  idleTimeout : t.idleTimeout = s.idleTimeout

theorem Sessions.SameRules.trans {s t u : Sessions} (h : s.SameRules t) (h' : t.SameRules u) :
    s.SameRules u :=
  ⟨h'.maxSessions.trans h.maxSessions, h'.idleTimeout.trans h.idleTimeout⟩

theorem Sessions.sameRules_create (s : Sessions) (id clientName : String) (now : Timestamp) :
    s.SameRules (s.create id clientName now).2 := by
  have hsweep : s.SameRules (s.sweep now) := by
    rw [s.sweep_eq now]
    exact ⟨rfl, rfl⟩
  unfold Sessions.create
  dsimp only
  split
  · exact hsweep
  · exact ⟨hsweep.maxSessions, hsweep.idleTimeout⟩

/-- Nothing more is asked: the queue and the numbering are the same, and some waits may have ended. -/
structure Outbound.AsksNoMore (o p : Outbound) : Prop where
  outgoing : p.outgoing = o.outgoing
  nextId : p.nextId = o.nextId
  pending : p.pending.entries.Sublist o.pending.entries

theorem Outbound.asksNoMore_refl (o : Outbound) : o.AsksNoMore o := ⟨rfl, rfl, .refl _⟩

theorem Outbound.asksNoMore_resolve (o : Outbound) (id : Int) : o.AsksNoMore (o.resolve id).2 where
  outgoing := o.resolve_outgoing id
  nextId := by
    unfold Outbound.resolve
    split <;> rfl
  pending := by
    rw [o.resolve_pending id]
    exact List.filter_sublist

theorem Outbound.AsksNoMore.trans {o p q : Outbound} (h : o.AsksNoMore p) (h' : p.AsksNoMore q) :
    o.AsksNoMore q :=
  ⟨h'.outgoing.trans h.outgoing, h'.nextId.trans h.nextId, h'.pending.trans h.pending⟩

/-! ### What is the host's -/

/-- What only the host changes is in `t` as it is in `s`. -/
structure Kept (s t : Server Device) : Prop where
  identity : t.identity = s.identity
  catalog : t.catalog = s.catalog
  completions : t.completions = s.completions
  groups : t.groups = s.groups
  pageSize : t.pageSize = s.pageSize
  cache : s.cache.SameRules t.cache
  limiter : s.limiter.SameRules t.limiter
  sessions : s.sessions.SameRules t.sessions
  nextRequestId : t.nextRequestId = s.nextRequestId
  sampling : s.sampling.AsksNoMore t.sampling
  elicitation : s.elicitation.AsksNoMore t.elicitation

theorem Kept.refl (s : Server Device) : Kept s s :=
  ⟨rfl, rfl, rfl, rfl, rfl, ⟨rfl, rfl, rfl⟩, ⟨rfl, rfl, rfl⟩, ⟨rfl, rfl⟩, rfl,
    s.sampling.asksNoMore_refl, s.elicitation.asksNoMore_refl⟩

theorem Kept.trans {s t u : Server Device} (h : Kept s t) (h' : Kept t u) : Kept s u where
  identity := h'.identity.trans h.identity
  catalog := h'.catalog.trans h.catalog
  completions := h'.completions.trans h.completions
  groups := h'.groups.trans h.groups
  pageSize := h'.pageSize.trans h.pageSize
  cache := h.cache.trans h'.cache
  limiter := h.limiter.trans h'.limiter
  sessions := h.sessions.trans h'.sessions
  nextRequestId := h'.nextRequestId.trans h.nextRequestId
  sampling := h.sampling.trans h'.sampling
  elicitation := h.elicitation.trans h'.elicitation

/-- A token costs the host nothing of its own. -/
theorem kept_acquire (s : Server Device) (now : Instant) :
    Kept s { s with limiter := (s.limiter.acquire now).2 } :=
  { Kept.refl s with limiter := s.limiter.sameRules_acquire now }

/-! ### Methods -/

theorem Server.sameRules_freed (s : Server Device) : s.sessions.SameRules s.freed := by
  unfold Server.freed
  cases s.sessionId <;> exact ⟨rfl, rfl⟩

theorem handshake_sessionRules (s : Server Device) (device : Device) (readings : Readings)
    (params : Option Json) :
    s.sessions.SameRules (s.handshake device readings params).server.sessions := by
  have hcreate := s.sameRules_freed.trans (s.freed.sameRules_create readings.sessionId
    (Handshake.clientName params) readings.opening)
  unfold Server.handshake
  dsimp only
  split
  · rename_i full sessions hfull
    have hfreed : s.freed.create readings.sessionId (Handshake.clientName params)
        readings.opening = (.error full, sessions) := hfull
    rwa [hfreed] at hcreate
  · rename_i sessions hopened
    have hfreed : s.freed.create readings.sessionId (Handshake.clientName params)
        readings.opening = (.ok (), sessions) := hopened
    rwa [hfreed] at hcreate

theorem callTool_cacheRules (s : Server Device) (device : Device) (readings : Readings)
    (id : RequestId) (params : Json) :
    s.cache.SameRules (s.callTool device readings id params).server.cache := by
  unfold Server.callTool
  split
  · exact ⟨rfl, rfl, rfl⟩
  · rename_i name _
    split
    · exact ⟨rfl, rfl, rfl⟩
    · have hlookup := s.cache.sameRules_lookup name (Json.arguments (params.field "arguments").value?)
        readings.lookup
      dsimp only
      split
      · exact hlookup
      · exact hlookup.trans (ResultCache.sameRules_store _ _ _ _ _)

theorem Server.kept_serve (s : Server Device) (device : Device) (readings : Readings)
    (id : RequestId) (params : Option Json) (m : Method) :
    Kept s (s.serve device readings id params m).server := by
  have frame := s.serve_frame device readings id params m
  cases m with
  | handshake =>
    have hsessions := handshake_sessionRules s device readings params
    rw [frame]
    exact { Kept.refl s with sessions := hsessions }
  | callTool =>
    have hcache := callTool_cacheRules s device readings id (params.getD .null)
    rw [frame]
    exact { Kept.refl s with cache := hcache }
  | subscribe => rw [frame]; exact { Kept.refl s with }
  | unsubscribe => rw [frame]; exact { Kept.refl s with }
  | setLevel => rw [frame]; exact { Kept.refl s with }
  | _ => rw [frame]; exact Kept.refl s

/-! ### Messages -/

theorem Server.kept_receiveRequest (s : Server Device) (device : Device) (readings : Readings)
    (id : RequestId) (method : String) (params : Option Json) :
    Kept s (s.receiveRequest device readings id method params).server := by
  have hlimited := kept_acquire s readings.admission
  unfold Server.receiveRequest Server.serveNamed
  dsimp only
  split
  · split
    · exact hlimited.trans (Server.kept_serve _ device readings id params _)
    · exact hlimited
  · exact hlimited

theorem Server.kept_receiveNotification (s : Server Device) (device : Device) (readings : Readings)
    (method : String) (params : Option Json) :
    Kept s (s.receiveNotification device readings method params).server := by
  unfold Server.receiveNotification
  split
  · dsimp only
    rw [s.confirmHandshake_frame]
    exact { Kept.refl s with }
  · split
    · dsimp only
      rw [s.cancelRequest_frame params]
      exact { Kept.refl s with }
    · split
      · exact s.kept_serve device readings .null params _
      · exact Kept.refl s

theorem Server.kept_receiveAnswer (s : Server Device) (device : Device) (reply : ClientReply) :
    Kept s (s.receiveAnswer device reply).server := by
  cases hid : reply.id.signed? with
  | none =>
    simp only [Server.receiveAnswer, hid]
    exact Kept.refl s
  | some id =>
    rw [s.receiveAnswer_eq device reply hid]
    split
    · exact { Kept.refl s with sampling := s.sampling.asksNoMore_resolve id }
    · exact { Kept.refl s with elicitation := s.elicitation.asksNoMore_resolve id }
    · exact Kept.refl s

theorem Server.kept_receive (s : Server Device) (device : Device) (readings : Readings) (v : Json) :
    Kept s (s.receive device readings v).server := by
  unfold Server.receive
  split
  · exact Kept.refl s
  · exact s.kept_receiveRequest device readings _ _ _
  · exact s.kept_receiveNotification device readings _ _
  · exact s.kept_receiveAnswer device _

theorem Server.kept_receiveAll (s : Server Device) (device : Device) (readings : Nat → Readings)
    (k : Nat) (values : List Json) : Kept s (s.receiveAll device readings k values).server := by
  induction values generalizing s device k with
  | nil => exact Kept.refl s
  | cons v rest ih => exact (s.kept_receive device (readings k) v).trans (ih _ _ (k + 1))

theorem Server.kept_process (s : Server Device) (device : Device) (readings : Nat → Readings)
    (text : String) : Kept s (s.process device readings text).server := by
  unfold Server.process
  split
  · exact Kept.refl s
  · rename_i payload _
    cases payload with
    | single v => exact s.kept_receive device (readings 0) v
    | batch values => exact s.kept_receiveAll device readings 0 values

/-! ### Listings -/

/-- The methods that list what the host offers. -/
def Method.lists : Method → Bool
  | .listTools | .listResources | .listTemplates | .listPrompts | .listRoots => true
  | _ => false

/-- A listing goes by what only the host changes. -/
theorem Kept.serve_listing {s t : Server Device} (h : Kept s t) (device device' : Device)
    (readings readings' : Readings) (id id' : RequestId) (params : Option Json) {m : Method}
    (lists : m.lists = true) :
    (t.serve device' readings' id' params m).value = (s.serve device readings id params m).value := by
  cases m with
  | listTools | listResources | listTemplates | listPrompts | listRoots =>
    simp only [Server.serve, Server.unchanged, Server.listTools, Server.listResources,
      Server.listTemplates, Server.listPrompts, Server.listRoots, Server.visibleTools,
      Server.listPage, h.catalog, h.groups, h.pageSize]
  | _ => cases lists

/-- The admitted request for a listing that a moment brings, if it brings one. -/
def Moment.listing? (moment : Moment Device) : Option (RequestId × Method × Option Json) :=
  match moment.move with
  | .call _ => none
  | .message readings v =>
    match Message.ofJson v with
    | .ok (.request id method params) =>
      if (moment.server.limiter.acquire readings.admission).1 then
        ((Method.ofName? method).filter Method.lists).map fun m => (id, m, params)
      else none
    | _ => none

/-- The reply that a moment's message gets, if it gets one. -/
def Moment.reply? (moment : Moment Device) : Option Reply :=
  match moment.move with
  | .call _ => none
  | .message readings v => (moment.server.receive moment.device readings v).value

/-- A request for a listing is answered with what the server lists, whatever else there is to it. -/
theorem Moment.reply_of_listing {moment : Moment Device} {id : RequestId} {m : Method}
    {params : Option Json} (h : moment.listing? = some (id, m, params)) {s : Server Device}
    (kept : Kept s moment.server) (device : Device) (readings : Readings) (asker : RequestId) :
    moment.reply? = some ⟨id, (s.serve device readings asker params m).value⟩ := by
  obtain ⟨t, device', move⟩ := moment
  cases move with
  | call c => cases h
  | message readings' v =>
    simp only [Moment.listing?] at h
    split at h
    · rename_i id' method params' request
      split at h
      · rename_i admitted
        obtain ⟨m', hm', heq⟩ := Option.map_eq_some_iff.mp h
        obtain ⟨hname, lists⟩ := Option.filter_eq_some_iff.mp hm'
        cases heq
        rw [← Method.name_of_ofName? hname] at request
        have hreceive := t.receive_request device' readings' request
        have hlimited := kept.trans (kept_acquire t readings'.admission)
        have hanswer := hlimited.serve_listing device device' readings readings' asker id params lists
        simp only [Moment.reply?, hreceive, admitted, if_true, Step.map, hanswer]
      · cases h
    · cases h

/-! ### Runs without the host -/

theorem Move.isMessage_of_mem_ofMessages {readings : Nat → Readings} {k : Nat} {values : List Json}
    {move : Move Device} (h : move ∈ Move.ofMessages readings k values) :
    ∃ readings v, move = .message readings v := by
  induction values generalizing k with
  | nil => cases h
  | cons v rest ih =>
    rcases List.mem_cons.mp h with rfl | hrest
    · exact ⟨readings k, v, rfl⟩
    · exact ih hrest

/-- Texts that come in, each with its readings, in a row. -/
def Action.inbounds (texts : List ((Nat → Readings) × String)) : List (Action Device) :=
  texts.map fun inbound => .inbound inbound.1 inbound.2

theorem isMessage_of_mem_history {texts : List ((Nat → Readings) × String)} {move : Move Device}
    (h : move ∈ Action.history (Action.inbounds texts)) : ∃ readings v, move = .message readings v := by
  obtain ⟨action, haction, hmove⟩ := List.mem_flatMap.mp h
  obtain ⟨inbound, -, rfl⟩ := List.mem_map.mp haction
  simp only [Action.moves] at hmove
  cases hp : Payload.ofText? inbound.2 with
  | none => simp [hp] at hmove
  | some p =>
    rw [hp] at hmove
    exact Move.isMessage_of_mem_ofMessages hmove

theorem kept_moments (s : Server Device) (device : Device) {history : List (Move Device)}
    (messages : ∀ move ∈ history, ∃ readings v, move = .message readings v) :
    ∀ moment ∈ s.moments device history, Kept s moment.server := by
  induction history generalizing s device with
  | nil => simp [Server.moments]
  | cons move rest ih =>
    obtain ⟨readings, v, rfl⟩ := messages _ List.mem_cons_self
    intro moment hmoment
    rcases List.mem_cons.mp hmoment with rfl | hlater
    · exact Kept.refl s
    · have hfirst := s.kept_receive device readings v
      have hrest := ih (s.receive device readings v).server (s.receive device readings v).device
        (fun move hmove => messages move (List.mem_cons_of_mem _ hmove)) moment hlater
      exact hfirst.trans hrest

/-- No text changes what is the host's. So of the requests that come in without a call of the host
between them, those for one listing get one answer, each under its own identifier. -/
theorem inbound_keeps_host_parts (s : Server Device) (device : Device) :
    (∀ readings text, Kept s (s.process device readings text).server) ∧
    ∀ texts, ∀ a ∈ s.moments device (Action.history (Action.inbounds texts)),
      ∀ b ∈ s.moments device (Action.history (Action.inbounds texts)),
        ∀ id id' m params, a.listing? = some (id, m, params) → b.listing? = some (id', m, params) →
          ∃ answer, a.reply? = some ⟨id, answer⟩ ∧ b.reply? = some ⟨id', answer⟩ := by
  refine ⟨fun readings text => s.kept_process device readings text, ?_⟩
  intro texts a ha b hb id id' m params hlists hlists'
  have messages : ∀ move ∈ Action.history (Action.inbounds texts : List (Action Device)),
      ∃ readings v, move = .message readings v := fun _ => isMessage_of_mem_history
  have kept := kept_moments s device messages
  have hfirst := Moment.reply_of_listing hlists (kept a ha) device ⟨0, 0, 0, 0, ""⟩ id
  have hsecond := Moment.reply_of_listing hlists' (kept b hb) device ⟨0, 0, 0, 0, ""⟩ id
  exact ⟨_, hfirst, hsecond⟩

def listOfRoots (id : Int) : Json :=
  .object [("id", .int id), ("jsonrpc", .string "2.0"), ("method", .string "roots/list")]

def bareHandshake : Json := .object [("jsonrpc", .string "2.0"), ("method", .string "initialize")]

/-- The roots are asked for twice: alone, and in a batch after a handshake and what is no message. -/
def askedTwice : List ((Nat → Readings) × String) :=
  [(fun _ => ⟨0, 0, 0, 0, "s"⟩, "\x7b\"id\":1,\"jsonrpc\":\"2.0\",\"method\":\"roots/list\"\x7d"),
    (fun _ => ⟨1, 1, 1, 1, "t"⟩, "[\x7b\"jsonrpc\":\"2.0\",\"method\":\"initialize\"\x7d,null," ++
      "\x7b\"id\":2,\"jsonrpc\":\"2.0\",\"method\":\"roots/list\"\x7d]")]

theorem askedTwice_answered_alike :
    let s : Server Unit := .ofOptions { roots := [⟨"file:///a", "a"⟩] } 0
    ∃ a ∈ s.moments () (Action.history (Action.inbounds askedTwice)),
      ∃ b ∈ s.moments () (Action.history (Action.inbounds askedTwice)),
        a.listing? = some (.number (.whole 1), .listRoots, none) ∧
        b.listing? = some (.number (.whole 2), .listRoots, none) ∧ b.server.phase = .handshaking ∧
          ∃ answer, a.reply? = some ⟨.number (.whole 1), answer⟩ ∧
            b.reply? = some ⟨.number (.whole 2), answer⟩ := by
  intro s
  have hfirst : Json.ofWritten? "\x7b\"id\":1,\"jsonrpc\":\"2.0\",\"method\":\"roots/list\"\x7d" =
      some (listOfRoots 1) := by rfl
  have hsecond : Json.ofWritten? ("[\x7b\"jsonrpc\":\"2.0\",\"method\":\"initialize\"\x7d,null," ++
      "\x7b\"id\":2,\"jsonrpc\":\"2.0\",\"method\":\"roots/list\"\x7d]") =
        some (.array [bareHandshake, .null, listOfRoots 2]) := by rfl
  have hsorted : (listOfRoots 1).canonical = listOfRoots 1 := by rfl
  have hsorted' : (Json.array [bareHandshake, .null, listOfRoots 2]).canonical =
      .array [bareHandshake, .null, listOfRoots 2] := by rfl
  have hhistory : Action.history (Action.inbounds askedTwice) =
      ([.message ⟨0, 0, 0, 0, "s"⟩ (listOfRoots 1), .message ⟨1, 1, 1, 1, "t"⟩ bareHandshake,
        .message ⟨1, 1, 1, 1, "t"⟩ .null, .message ⟨1, 1, 1, 1, "t"⟩ (listOfRoots 2)] :
          List (Move Unit)) := by
    simp only [Action.history, Action.inbounds, askedTwice, List.map_cons, List.map_nil,
      List.flatMap_cons, List.flatMap_nil, Action.moves, Payload.ofText?, Json.ofText?, hfirst,
      hsecond, Option.map_some, hsorted, hsorted']
    rfl
  have answered := (inbound_keeps_host_parts s ()).2 askedTwice
  rw [hhistory] at answered ⊢
  refine ⟨_, .head _, _, .tail _ (.tail _ (.tail _ (.head _))), rfl, rfl, rfl, ?_⟩
  exact answered _ (.head _) _ (.tail _ (.tail _ (.tail _ (.head _)))) _ _ _ _ rfl rfl

end ContextServer
