import ContextServer.Server.Processing

/-!
Runs of a hosted server. The host makes calls and passes inbound texts on, in any order. A text is
taken apart into messages: the history of a run lists the calls and the messages one by one, and
`run_eq_play` says that nothing else counts.
-/

namespace ContextServer

/-- A call of the host. The parts that it holds mutably it may change in any way, and so it may the
device. -/
inductive HostCall (Device : Type) where
  | addTool (tool : Tool Device)
  | removeTool (name : String)
  | addResource (resource : Resource Device)
  | removeResource (uri : String)
  | addTemplate (resource : TemplatedResource Device)
  | removeTemplate (template : String)
  | addPrompt (prompt : Prompt Device)
  | removePrompt (name : String)
  | addRoot (root : Root)
  | removeRoot (uri : String)
  | createGroup (name description : String)
  | addToGroup (group tool : String)
  | setGroupEnabled (group : String) (enabled : Bool)
  | setPageSize (size : Nat)
  | changeCompletions (change : Completions Device → Completions Device)
  | changeCache (change : ResultCache → ResultCache)
  | changeLimiter (change : TokenBucket Float → TokenBucket Float)
  | changeSessions (change : Sessions → Sessions)
  | changeInFlight (change : InFlight → InFlight)
  | changeDevice (change : Device → Device)
  | listChanged (kind : ListKind)
  | resourceUpdated (uri : String)
  | log (level : LogLevel) (logger : String) (data : Json)
  | reportProgress (token : String) (report : ProgressReport)
  | drainNotifications
  | requestSampling (request : Sampling.Request) (label : String) (now : Instant)
  | requestElicitation (request : Elicitation.Request) (label : String) (now : Instant)
  | pruneRequests (now : Instant) (timeout : Span)
  | drainRequests

inductive Returned where
  | nothing
  | flag (value : Bool)
  | count (value : Nat)
  | issued (id : Int)
  | notifications (lines : List String)
  | requests (lines : List String)

/-- One thing that happens to a server: a call of the host, or a message with its readings. -/
inductive Move (Device : Type) where
  | call (call : HostCall Device)
  | message (readings : Readings) (value : Json)

/-- One thing that a host does: a call, or passing an inbound text on. -/
inductive Action (Device : Type) where
  | call (call : HostCall Device)
  | inbound (readings : Nat → Readings) (text : String)

/-- A move as it is made: with the server and the device that it finds. -/
structure Moment (Device : Type) where
  server : Server Device
  device : Device
  move : Move Device

def Payload.messages : Payload → List Json
  | .single v => [v]
  | .batch values => values

/-- Messages as moves, counted from `k`. -/
def Move.ofMessages {Device : Type} (readings : Nat → Readings) : Nat → List Json → List (Move Device)
  | _, [] => []
  | k, v :: rest => .message (readings k) v :: ofMessages readings (k + 1) rest

/-- What an action amounts to. A text that is no payload amounts to nothing. -/
def Action.moves {Device : Type} : Action Device → List (Move Device)
  | .call c => [.call c]
  | .inbound readings text =>
    ((Payload.ofText? text).map fun p => Move.ofMessages readings 0 p.messages).getD []

def Action.history {Device : Type} (actions : List (Action Device)) : List (Move Device) :=
  actions.flatMap Action.moves

/-- What the entries of a history add one after another, each in view of those before it. -/
def collect {α β : Type} (yield : List α → α → List β) : List α → List α → List β
  | _, [] => []
  | past, a :: rest => yield past a ++ collect yield (past ++ [a]) rest

theorem collect_append {α β : Type} (yield : List α → α → List β) (past as bs : List α) :
    collect yield past (as ++ bs) = collect yield past as ++ collect yield (past ++ as) bs := by
  induction as generalizing past with
  | nil => simp [collect]
  | cons a as ih => simp [collect, ih]

namespace Server

variable {Device : Type}

/-! ### Steps in a row -/

/-- The steps of a list in order; what they give is joined. -/
def inOrder {α β : Type} (step : Server Device → Device → α → Step Device (List β))
    (s : Server Device) (device : Device) : List α → Step Device (List β)
  | [] => ⟨[], s, device, []⟩
  | a :: rest =>
    let first := step s device a
    let more := inOrder step first.server first.device rest
    ⟨first.value ++ more.value, more.server, more.device, first.events ++ more.events⟩

theorem inOrder_append {α β : Type} (step : Server Device → Device → α → Step Device (List β))
    (s : Server Device) (device : Device) (as bs : List α) :
    inOrder step s device (as ++ bs) =
      let first := inOrder step s device as
      let more := inOrder step first.server first.device bs
      ⟨first.value ++ more.value, more.server, more.device, first.events ++ more.events⟩ := by
  induction as generalizing s device with
  | nil => rfl
  | cons a as ih => simp only [List.cons_append, inOrder, ih, List.append_assoc]

/-! ### Calls of the host -/

def flagged (device : Device) (r : Bool × Server Device) : Step Device Returned :=
  ⟨.flag r.1, r.2, device, []⟩

def perform (s : Server Device) (device : Device) : HostCall Device → Step Device Returned
  | .addTool t => ⟨.nothing, s.addTool t, device, []⟩
  | .removeTool name => flagged device (s.removeTool name)
  | .addResource r => ⟨.nothing, s.addResource r, device, []⟩
  | .removeResource uri => flagged device (s.removeResource uri)
  | .addTemplate t => ⟨.nothing, s.addTemplate t, device, []⟩
  | .removeTemplate template => flagged device (s.removeTemplate template)
  | .addPrompt p => ⟨.nothing, s.addPrompt p, device, []⟩
  | .removePrompt name => flagged device (s.removePrompt name)
  | .addRoot r => ⟨.nothing, s.addRoot r, device, []⟩
  | .removeRoot uri => flagged device (s.removeRoot uri)
  | .createGroup name description => flagged device (s.createGroup name description)
  | .addToGroup group tool => flagged device (s.addToGroup group tool)
  | .setGroupEnabled group enabled => flagged device (s.setGroupEnabled group enabled)
  | .setPageSize size => ⟨.nothing, { s with pageSize := size }, device, []⟩
  | .changeCompletions change =>
    ⟨.nothing, { s with completions := change s.completions }, device, []⟩
  | .changeCache change => ⟨.nothing, { s with cache := change s.cache }, device, []⟩
  | .changeLimiter change => ⟨.nothing, { s with limiter := change s.limiter }, device, []⟩
  | .changeSessions change => ⟨.nothing, { s with sessions := change s.sessions }, device, []⟩
  | .changeInFlight change => ⟨.nothing, { s with inFlight := change s.inFlight }, device, []⟩
  | .changeDevice change => ⟨.nothing, s, change device, []⟩
  | .listChanged kind => ⟨.nothing, s.listChanged kind, device, []⟩
  | .resourceUpdated uri => flagged device (s.resourceUpdated uri)
  | .log level logger data => flagged device (s.log level logger data)
  | .reportProgress token report => ⟨.nothing, s.reportProgress token report, device, []⟩
  | .drainNotifications =>
    ⟨.notifications s.drainNotifications.1, s.drainNotifications.2, device, []⟩
  | .requestSampling request label now =>
    ⟨.issued (s.requestSampling request label now).1, (s.requestSampling request label now).2,
      device, []⟩
  | .requestElicitation request label now =>
    ⟨.issued (s.requestElicitation request label now).1,
      (s.requestElicitation request label now).2, device, []⟩
  | .pruneRequests now timeout =>
    ⟨.count (s.pruneRequests now timeout).1, (s.pruneRequests now timeout).2, device, []⟩
  | .drainRequests => ⟨.requests s.drainRequests.1, s.drainRequests.2, device, []⟩

/-! ### Runs -/

/-- One move; the value lists what the host got back. -/
def move (s : Server Device) (device : Device) : Move Device → Step Device (List Returned)
  | .call c => (s.perform device c).map fun r => [r]
  | .message readings v => (s.receive device readings v).map fun _ => []

def play (s : Server Device) (device : Device) (history : List (Move Device)) :
    Step Device (List Returned) :=
  inOrder move s device history

/-- The moves of a history with what they find. -/
def moments (s : Server Device) (device : Device) : List (Move Device) → List (Moment Device)
  | [] => []
  | m :: rest =>
    ⟨s, device, m⟩ :: (s.move device m).server.moments (s.move device m).device rest

/-- One action; the value lists what the host got back from its calls. -/
def act (s : Server Device) (device : Device) : Action Device → Step Device (List Returned)
  | .call c => (s.perform device c).map fun r => [r]
  | .inbound readings text => (s.process device readings text).map fun _ => []

def run (s : Server Device) (device : Device) (actions : List (Action Device)) :
    Step Device (List Returned) :=
  inOrder act s device actions

theorem play_cons (s : Server Device) (device : Device) (m : Move Device)
    (history : List (Move Device)) :
    s.play device (m :: history) =
      let first := s.move device m
      let more := first.server.play first.device history
      ⟨first.value ++ more.value, more.server, more.device, first.events ++ more.events⟩ := rfl

theorem receiveAll_eq_play (s : Server Device) (device : Device) (readings : Nat → Readings)
    (k : Nat) (values : List Json) :
    (s.receiveAll device readings k values).map (fun _ => []) =
      s.play device (Move.ofMessages readings k values) := by
  induction values generalizing s device k with
  | nil => rfl
  | cons v rest ih =>
    have h := ih (s.receive device (readings k) v).server (s.receive device (readings k) v).device
      (k + 1)
    simp only [Move.ofMessages, play_cons, move, Step.map, receiveAll] at h ⊢
    rw [← h]
    rfl

/-- An action is the row of its moves. -/
theorem act_eq_play (s : Server Device) (device : Device) (a : Action Device) :
    s.act device a = s.play device a.moves := by
  cases a with
  | call c =>
    simp only [act, Action.moves, play, inOrder, move, Step.map, List.append_nil]
  | inbound readings text =>
    simp only [act, process, Action.moves]
    cases Payload.ofText? text with
    | none => rfl
    | some p =>
      simp only [Option.map_some, Option.getD_some]
      rw [← receiveAll_eq_play]
      cases p with
      | batch values => rfl
      | single v =>
        simp only [receivePayload, Payload.messages, receiveAll, Step.map, List.append_nil]

/-- A run depends on its history alone. -/
theorem run_eq_play (s : Server Device) (device : Device) (actions : List (Action Device)) :
    s.run device actions = s.play device (Action.history actions) := by
  induction actions generalizing s device with
  | nil => rfl
  | cons a rest ih =>
    simp only [run, Action.history, List.flatMap_cons] at ih ⊢
    simp only [inOrder, ih, act_eq_play, play, inOrder_append]

end Server

end ContextServer
