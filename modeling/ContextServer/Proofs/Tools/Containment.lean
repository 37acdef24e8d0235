import ContextServer.Proofs.Notifications.Stream
import ContextServer.Proofs.Requests.InFlight
import ContextServer.Proofs.Server.Kept

/-!
Containment of handlers. However a tool's handler ends, the call that runs it is answered with a result;
a failure is told as an error result and is not kept in the cache, what was reported is queued once, and
the requests in flight are what they were before.
-/

namespace ContextServer

variable {Device : Type}

/-! ### The run of a handler -/

namespace Tool

/-- How the run of a tool's handler ends. A text that is returned counts as a result of that one text,
with the JSON value that it spells as structured content: for a tool that declares a schema of its
output, if the value is an object or an array. -/
def outcome (t : Tool Device) (arguments : Json) (context : CallContext) (device : Device) :
    Outcome ToolResult :=
  match t.handler with
  | .text run =>
    match (run arguments device).1 with
    | .returned text => .returned {
        content := [.text text]
        structured :=
          if t.outputSchema.isSome then (Json.ofText? text).filter Json.isContainer else none
        isError := false }
    | .failed e => .failed e
    | .crashed => .crashed
  | .rich run => (run arguments device).1
  | .reporting run => (run arguments context device).1.outcome

theorem call_result (t : Tool Device) (arguments : Json) (context : CallContext) (device : Device) :
    (t.call arguments context device).1.result = resultOf (t.outcome arguments context device) := by
  unfold call outcome
  cases t.handler with
  | text run =>
    dsimp only
    cases (run arguments device).1 <;> rfl
  | rich run => rfl
  | reporting run => rfl

end Tool

/-- The result that tells a client of a failure: one text, marked as an error. -/
def failureJson (message : String) : Json :=
  .object [("content", .array [.object [("text", .string message), ("type", .string "text")]]),
    ("isError", .bool true)]

theorem canonical_ofError (message : String) :
    (ToolResult.ofError message).toJson.canonical = failureJson message := by
  have hsorted : (ToolResult.ofError message).toJson.canonical =
      .object (Json.sortMembers
        [("content", .array [.object (Json.sortMembers
          [("type", .string "text"), ("text", .string message)])]),
        ("isError", .bool true)]) := rfl
  rw [hsorted, Json.sortMembers_pair, Json.sortMembers_pair,
    Json.insertMember_cons_of_gt (by decide +kernel) (by decide),
    Json.insertMember_cons_of_lt (by decide +kernel)]
  rfl

/-- What a client is told of the outcome of a run. -/
def Outcome.Tells : Outcome ToolResult → ToolResult → Prop
  | .returned own, result => result = own
  | .failed e, result => result.isError = true ∧
    result.toJson.canonical = failureJson ("Internal tool error: " ++ e.message)
  | .crashed, result => result.isError = true ∧
    result.toJson.canonical = failureJson "Internal tool error"

theorem Tool.tells_resultOf (ran : Outcome ToolResult) : ran.Tells (Tool.resultOf ran) := by
  cases ran with
  | returned own => rfl
  | failed e => exact ⟨rfl, canonical_ofError _⟩
  | crashed => exact ⟨rfl, canonical_ofError _⟩

/-! ### The cache -/

theorem ResultCache.find?_store {c : ResultCache} {tool : String} {result : ToolResult}
    {lifetime : Span} (enabled : c.enabled = true) (kept : c.lifetimes.find? tool = some lifetime)
    (success : result.isError = false) (arguments : Json) (now : Instant) :
    (c.store tool arguments result now).entries.find? (CallKey.ofCall tool arguments) =
      some ⟨result, now, lifetime⟩ := by
  unfold ResultCache.store
  simp only [enabled, success, kept, Bool.not_true, Bool.or_false, Bool.false_eq_true, if_false]
  exact Roster.find?_insert_self _ _ _

theorem ResultCache.store_of_unkept {c : ResultCache} {tool : String} {result : ToolResult}
    (h : c.enabled = false ∨ c.lifetimes.find? tool = none ∨ result.isError = true)
    (arguments : Json) (now : Instant) : c.store tool arguments result now = c := by
  unfold ResultCache.store
  rcases h with h | h | h
  · rw [h]
    rfl
  · rw [h]
    exact ite_self c
  · rw [h, Bool.or_true]
    rfl

/-! ### The call -/

/-- A call that comes to a tool runs it on what the look-up has left of the cache. -/
theorem callTool_runs {s : Server Device} {readings : Readings} {params : Json} {name : String}
    {tool : Tool Device} {arguments : Json} (named : params.stringAt? "name" = some name)
    (runs : s.runs? readings params = some (tool, arguments)) (device : Device) (id : RequestId) :
    s.callTool device readings id params =
      (({ s with cache := (s.cache.lookup name arguments readings.lookup).2 } : Server Device).runTool
        device readings id name tool arguments ((clientToken? params).bind Json.tokenText?)).map
          fun result => .ok result.toJson.canonical := by
  unfold Server.runs? at runs
  simp only [named] at runs
  split at runs
  · cases runs
  · rename_i found hfound
    split at runs
    · cases runs
    · rename_i hmiss
      obtain ⟨rfl, rfl⟩ := Prod.mk.inj (Option.some.inj runs)
      have hlookup := s.cache.lookup_fst name (Json.arguments (params.field "arguments").value?)
        readings.lookup
      rw [hmiss, Option.map_none] at hlookup
      simp only [Server.callTool, named, hfound, hlookup, progressToken?_eq]

/-- What a call with some result and some reports leaves behind. -/
structure Contained (s : Server Device) (readings : Readings) (name : String) (arguments : Json)
    (context : CallContext) (result : ToolResult) (reports : List ProgressReport)
    (r : Step Device (Option Reply)) : Prop where
  answered : r.value.map Reply.toJson = some (.object [("jsonrpc", .string "2.0"),
    ("id", context.requestId.toJson), ("result", result.toJson.canonical)])
  stored : ∀ lifetime, s.cache.enabled = true → s.cache.lifetimes.find? name = some lifetime →
    result.isError = false →
      r.server.cache.entries.find? (CallKey.ofCall name arguments) =
        some ⟨result, readings.store, lifetime⟩
  /-- Otherwise nothing is stored: the cache is what the look-up has left. -/
  passed : s.cache.enabled = false ∨ s.cache.lifetimes.find? name = none ∨ result.isError = true →
    r.server.cache = (s.cache.lookup name arguments readings.lookup).2
  queued : r.server.notifier.queue = s.notifier.queue ++
    match context.progressToken with
    | none => []
    | some token => reports.map (ProgressReport.notice token)
  restored : s.inFlight.Reachable → s.inFlight.requests.contains context.requestId = false →
    r.server.inFlight = s.inFlight

/-- Running a tool, with a token or without one, leaves the requests in flight as they were. -/
theorem runTool_inFlight {s : Server Device} (h : s.inFlight.Reachable) {id : RequestId}
    (hid : (id == id) = true) (hnew : s.inFlight.requests.contains id = false) (device : Device)
    (readings : Readings) (name : String) (tool : Tool Device) (arguments : Json)
    (token : Option String) :
    (s.runTool device readings id name tool arguments token).server.inFlight = s.inFlight := by
  cases token with
  | none => rfl
  | some token => exact InFlight.complete_track h hid hnew (some token)

/-- Running a tool is contained, whatever answer is made of its result. -/
theorem runTool_contained (s : Server Device) (device : Device) (readings : Readings)
    {id : RequestId} (hid : (id == id) = true) (name : String) (tool : Tool Device)
    (arguments : Json) (token : Option String) :
    let looked : Server Device :=
      { s with cache := (s.cache.lookup name arguments readings.lookup).2 }
    Contained s readings name arguments ⟨id, token⟩
      (Tool.resultOf (tool.outcome arguments ⟨id, token⟩ device))
      (tool.reports arguments ⟨id, token⟩ device)
      ((looked.runTool device readings id name tool arguments token).map
        fun result => some ⟨id, .ok result.toJson.canonical⟩) := by
  intro looked
  have hresult := tool.call_result arguments ⟨id, token⟩ device
  have hrules := s.cache.sameRules_lookup name arguments readings.lookup
  constructor
  case answered =>
    simp only [Step.map, Server.runTool, hresult]
    rfl
  case stored =>
    intro lifetime enabled kept success
    simp only [Step.map, Server.runTool, hresult]
    exact ResultCache.find?_store (hrules.enabled.trans enabled) (by rw [hrules.lifetimes, kept])
      success arguments readings.store
  case passed =>
    intro unkept
    simp only [Step.map, Server.runTool, hresult]
    refine ResultCache.store_of_unkept ?_ arguments readings.store
    rw [hrules.enabled, hrules.lifetimes]
    exact unkept
  case queued =>
    simp only [Step.map, Server.runTool, Tool.call_progress]
    rfl
  case restored =>
    intro reachable fresh
    exact runTool_inFlight (s := looked) reachable hid fresh device readings name tool arguments
      token

/-- Whatever the handler does that a request runs, the request is contained. -/
theorem calls_contained (s : Server Device) (device : Device) (readings : Readings)
    {text : String} {messages : List Json} {v : Json} {id : RequestId} {params : Option Json}
    {name : String} {tool : Tool Device} {arguments : Json}
    (read : messages? text = some messages) (sent : v ∈ messages)
    (call : Message.ofJson v = .ok (.request id "tools/call" params))
    (admitted : (s.limiter.acquire readings.admission).1 = true)
    (named : (params.getD .null).stringAt? "name" = some name)
    (runs : s.runs? readings (params.getD .null) = some (tool, arguments)) :
    let context : CallContext := ⟨id, (clientToken? (params.getD .null)).bind Json.tokenText?⟩
    ∃ result, (tool.outcome arguments context device).Tells result ∧
      Contained s readings name arguments context result (tool.reports arguments context device)
        (s.receive device readings v) := by
  intro context
  have hid : (id == id) = true :=
    RequestId.beq_self_of_read read sent (member?_of_readId (readId_of_request call))
  let limited : Server Device := { s with limiter := (s.limiter.acquire readings.admission).2 }
  have hreceive : s.receive device readings v =
      (limited.callTool device readings id (params.getD .null)).map
        fun answer => some ⟨id, answer⟩ := by
    have hrequest := s.receive_request device readings (m := .callTool) call
    rw [admitted] at hrequest
    exact hrequest
  have hruns : limited.runs? readings (params.getD .null) = some (tool, arguments) := runs
  have hcontained := runTool_contained limited device readings hid name tool arguments
    context.progressToken
  rw [callTool_runs named hruns device id] at hreceive
  rw [hreceive]
  exact ⟨_, Tool.tells_resultOf _, {
    answered := hcontained.answered
    stored := hcontained.stored
    passed := hcontained.passed
    queued := hcontained.queued
    restored := hcontained.restored }⟩

/-- A tool that reports two steps and crashes. -/
def stumblingTool : Tool Unit where
  name := "t"
  description := ""
  inputSchema := .object []
  handler := .reporting fun _ _ device => (⟨[⟨1, 2, "one"⟩, ⟨2, 2, ""⟩], .crashed⟩, device)

/-- The tool is cached, and another request is in flight and cancelled. -/
def stumblingHistory : List (Move Unit) := [
  .call (.addTool stumblingTool),
  .call (.changeCache fun c => { c.setLifetime "t" (Span.ofSeconds 3600) with enabled := true }),
  .call (.changeInFlight fun t => ((t.track (.text "other") none).cancel (.text "other")).2)]

def stumblingCall : String :=
  "\x7b\"jsonrpc\":\"2.0\",\"id\":7,\"method\":\"tools/call\",\"params\":\x7b\"_meta\":" ++
    "\x7b\"progressToken\":\"p\"\x7d,\"name\":\"t\"\x7d\x7d"

def stumblingParams : Json :=
  .object [("_meta", .object [("progressToken", .string "p")]), ("name", .string "t")]

/-- The members of the call, as they are written. -/
def stumblingMembers : List (String × Json) :=
  [("jsonrpc", .string "2.0"), ("id", .int 7), ("method", .string "tools/call"),
    ("params", stumblingParams)]

theorem stumblingCall_contained :
    let s := ((Server.ofOptions {} 0).play () stumblingHistory).server
    let ended := s.receive () ⟨0, 0, 0, 0, ""⟩ (Json.object stumblingMembers).canonical
    ended.value.map Reply.toJson = some (.object [("jsonrpc", .string "2.0"), ("id", .int 7),
        ("result", failureJson "Internal tool error")]) ∧
      ended.server.notifier.queue =
        [ProgressReport.notice "p" ⟨1, 2, "one"⟩, ProgressReport.notice "p" ⟨2, 2, ""⟩] ∧
      ended.server.cache.entries.entries = [] ∧
      ended.server.inFlight = s.inFlight ∧ s.inFlight.cancelled = [.text "other"] := by
  intro s ended
  have hwritten : Json.ofWritten? stumblingCall = some (.object stumblingMembers) := by rfl
  have read : messages? stumblingCall = some [(Json.object stumblingMembers).canonical] := by
    rw [messages?, Json.ofText?, hwritten, Option.map_some, Json.canonical]
    rfl
  have call : Message.ofJson (Json.object stumblingMembers).canonical =
      .ok (.request (.number (.whole 7)) "tools/call" (some stumblingParams)) := by
    apply Message.ofJson_request
    · rfl
    all_goals
      rw [Json.member?_canonical_object]
      rfl
  have tracks : ∀ m ∈ stumblingHistory, m.tracks := by
    intro m hm
    simp only [stumblingHistory, List.mem_cons, List.not_mem_nil, or_false] at hm
    rcases hm with rfl | rfl | rfl
    · trivial
    · trivial
    · exact fun t ht => (ht.track _ _).cancel _
  have tracked : s.inFlight.Reachable := play_reachable .none () tracks
  obtain ⟨result, tells, contained⟩ := calls_contained s () ⟨0, 0, 0, 0, ""⟩ read
    List.mem_cons_self call rfl rfl rfl
  obtain ⟨failure, told⟩ : result.isError = true ∧
    result.toJson.canonical = failureJson "Internal tool error" := tells
  refine ⟨?_, contained.queued, ?_, contained.restored tracked rfl, rfl⟩
  · rw [contained.answered, told]
    rfl
  · rw [contained.passed (.inr (.inr failure))]
    rfl

end ContextServer
