import ContextServer.Proofs.Json.Canonical
import ContextServer.Proofs.Notifications.Stream

/-!
The token under which progress is told of. A call keeps its token as a text, and the text is what every
notification carries: a token that is a string comes back as it was sent, while one that is a number
comes back as the string of its digits, which is another value.
-/

namespace ContextServer

variable {Device : Type}

/-- The token that a notification carries. -/
def Notification.token? (n : Notification) : Option Json :=
  n.params.bind fun params => params.member? "progressToken"

theorem token?_progress (told : String) (done total : Float) (message : String) :
    (Notification.progress told done total message).token? = some (.string told) := by
  unfold Notification.token? Notification.progress
  rw [Option.bind_some, Json.member?_canonical_object]
  -- the other members are looked up first, and none of them is the token
  by_cases htotal : 0 < total <;> cases message.isEmpty <;>
    simp [htotal, Json.lookup_cons_ite, Json.canonical]

/-- A token and the text it is kept as are one value only where the token is a string. -/
theorem Json.eq_string_of_tokenText? {token : Json} {told : String}
    (h : token.tokenText? = some told) : .string told = token ↔ ∃ t, token = .string t := by
  cases token with
  | string s =>
    obtain rfl := Option.some.inj h
    simp
  | _ => simp

/-- What the tool that a call runs reports while it runs. -/
def Server.reportsOf (s : Server Device) (device : Device) (readings : Readings) (params : Json)
    (context : CallContext) : List ProgressReport :=
  match s.runs? readings params with
  | some (tool, arguments) => tool.reports arguments context device
  | none => []

/-- A call queues one notification for every report, in order. Each carries the client's token as a
string, which is the value that was sent exactly where that was a string. -/
theorem progress_told_under_text (s : Server Device) (device : Device) (readings : Readings)
    {v token : Json} {id : RequestId} {params : Option Json} {told : String}
    (carried : s.carriesOut? readings v = some (id, params, .callTool))
    (sent : clientToken? (params.getD .null) = some token)
    (text : token.tokenText? = some told) :
    let reports := s.reportsOf device readings (params.getD .null) ⟨id, some told⟩
    let news := reports.map fun r => Notification.progress told r.done r.total r.message
    (s.receive device readings v).server.notifier.queue = s.notifier.queue ++ news ∧
      ∀ n ∈ news, n.token? = some (.string told) ∧
        (n.token? = some token ↔ ∃ t, token = .string t) := by
  intro reports news
  constructor
  · have htoken : (clientToken? (params.getD .null)).bind Json.tokenText? = some told := by
      rw [sent, Option.bind_some, text]
    obtain ⟨limiter, f, hreceive⟩ := Server.receive_carried device carried
    have hqueue := congrArg Notifier.queue
      (callTool_queue { s with limiter } device readings id (params.getD .null))
    have hruns : ({ s with limiter } : Server Device).runs? readings (params.getD .null) =
        s.runs? readings (params.getD .null) := rfl
    rw [hreceive]
    refine hqueue.trans ?_
    simp only [Notifier.pushAll, htoken, hruns, news, reports, Server.reportsOf,
      Notification.progress_eq]
    cases s.runs? readings (params.getD .null) <;> rfl
  · intro n hn
    obtain ⟨r, -, rfl⟩ := List.mem_map.mp hn
    rw [token?_progress]
    exact ⟨rfl, Option.some_inj.trans (Json.eq_string_of_tokenText? text)⟩

/-- A call of the tool `t` under a progress token. -/
def callUnder (token : Json) : Json :=
  .object [("id", .int 1), ("jsonrpc", .string "2.0"), ("method", .string "tools/call"),
    ("params", .object [("_meta", .object [("progressToken", token)]), ("name", .string "t")])]

theorem numberedCall_told_under_text :
    let s : Server Unit := (Server.ofOptions {} 0).addTool twoSteps
    let told := Notification.progress "5" 1 2 "one"
    (s.receive () ⟨0, 0, 0, 0, ""⟩ (callUnder (.int 5))).server.notifier.queue =
        [told, Notification.progress "5" 2 2 ""] ∧
      told.token? = some (.string "5") ∧ told.token? ≠ some (.int 5) := by
  intro s told
  have carried : s.carriesOut? ⟨0, 0, 0, 0, ""⟩ (callUnder (.int 5)) = some
      (.number (.whole 1), (callUnder (.int 5)).member? "params", .callTool) := by rfl
  have sent : clientToken? (((callUnder (.int 5)).member? "params").getD .null) = some (.int 5) := by
    rfl
  have text : (Json.int 5).tokenText? = some "5" := by decide +kernel
  obtain ⟨queued, carry⟩ := progress_told_under_text s () ⟨0, 0, 0, 0, ""⟩ carried sent text
  obtain ⟨carries, same⟩ := carry told List.mem_cons_self
  refine ⟨queued, carries, fun h => ?_⟩
  obtain ⟨text, htext⟩ := same.mp h
  cases htext

end ContextServer
