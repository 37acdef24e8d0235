import ContextServer.Proofs.Cache.Entries
import ContextServer.Proofs.Json.Canonical
import ContextServer.Proofs.Server.Run
import ContextServer.Proofs.Server.Serving

/-!
Which notifications a run issues, told from its moments: what the client follows and the threshold of
log messages come from what it last asked for, and every move issues what its kind calls for.
-/

namespace ContextServer

variable {Device : Type}

/-! ### Severities -/

/-- The severities by their names, lowest first. -/
def LogLevel.scale : List (String × LogLevel) :=
  [("debug", .debug), ("info", .info), ("notice", .notice), ("warning", .warning),
    ("error", .error), ("critical", .critical), ("alert", .alert), ("emergency", .emergency)]

/-- The level that a client means by a name; what names none is taken for `info`. -/
def LogLevel.meant (name : String) : LogLevel := (scale.lookup name).getD .info

/-- A level reaches a threshold if it stands no lower on the scale. -/
def LogLevel.Reaches (level threshold : LogLevel) : Prop :=
  scale.findIdx (·.2 = threshold) ≤ scale.findIdx (·.2 = level)

instance (level threshold : LogLevel) : Decidable (level.Reaches threshold) :=
  inferInstanceAs (Decidable (_ ≤ _))

/-! ### What the client asked for -/

namespace Moment

/-- Whether a moment makes the client follow a URI, or cease to: its message has a subscription carried
out that names the URI. -/
def follows? (uri : String) (moment : Moment Device) : Option Bool :=
  match moment.move with
  | .call _ => none
  | .message readings v =>
    match moment.server.carriesOut? readings v with
    | some (_, params, .subscribe) =>
      if (params.getD .null).stringAt? "uri" = some uri then some true else none
    | some (_, params, .unsubscribe) =>
      if (params.getD .null).stringAt? "uri" = some uri then some false else none
    | _ => none

/-- The threshold that a moment sets: its message has the setting of a level carried out. -/
def threshold? (moment : Moment Device) : Option LogLevel :=
  match moment.move with
  | .call _ => none
  | .message readings v =>
    match moment.server.carriesOut? readings v with
    | some (_, params, .setLevel) =>
      ((params.getD .null).field "level").value?.map fun level =>
        LogLevel.meant (level.string?.getD "")
    | _ => none

end Moment

def latest? {α : Type} (said : Moment Device → Option α) (past : List (Moment Device)) : Option α :=
  past.reverse.findSome? said

/-- Whether the client follows a URI: it does if it last asked to. -/
def isFollowed (past : List (Moment Device)) (uri : String) : Bool :=
  (latest? (Moment.follows? uri) past).getD false

/-- The threshold in force: the one last set, and `warning` before. -/
def thresholdAfter (past : List (Moment Device)) : LogLevel :=
  (latest? Moment.threshold? past).getD .warning

theorem latest?_append {α : Type} (said : Moment Device → Option α) (past : List (Moment Device))
    (moment : Moment Device) :
    latest? said (past ++ [moment]) = (said moment).or (latest? said past) := by
  unfold latest?
  rw [List.reverse_append, List.reverse_singleton, List.singleton_append, List.findSome?_cons]
  cases said moment <;> rfl

/-! ### What a call reports -/

/-- The progress token of a call's parameters, as the client sent it. -/
def clientToken? (params : Json) : Option Json :=
  (params.objectAt? "_meta").bind fun more => (more.field "progressToken").value?

/-- The text that a token is kept as; what is neither a string nor a number is no token. -/
def Json.tokenText? : Json → Option String
  | .string s => some s
  | .number n => some n.text
  | _ => none

/-- The notification of a report, with its members in canonical order. An amount of work that is not
positive is not told, nor is an empty message. -/
def ProgressReport.notice (token : String) (r : ProgressReport) : Notification :=
  ⟨"notifications/progress", some (.object (
    (if r.message.isEmpty then [] else [("message", .string r.message)])
      ++ [("progress", .float r.done), ("progressToken", .string token)]
      ++ (if 0 < r.total then [("total", .float r.total)] else [])))⟩

/-- The progress that a tool reports while it is called. -/
def Tool.reports (t : Tool Device) (arguments : Json) (context : CallContext) (device : Device) :
    List ProgressReport :=
  match t.handler with
  | .reporting run => (run arguments context device).1.reports
  | _ => []

/-- The tool that a call runs, with the arguments that it is given. A call of no tool, of a disabled
one, or with a result in the cache runs none. -/
def Server.runs? (s : Server Device) (readings : Readings) (params : Json) :
    Option (Tool Device × Json) :=
  match params.stringAt? "name" with
  | none => none
  | some name =>
    match s.findTool name with
    | .error _ => none
    | .ok tool =>
      let arguments := Json.arguments (params.field "arguments").value?
      match s.cache.found? name arguments readings.lookup with
      | some _ => none
      | none => some (tool, arguments)

/-- The progress notifications of a message: the reports of the tool that it runs, if it is a call with
a token that is a string or a number. -/
def Server.progressOf (s : Server Device) (device : Device) (readings : Readings) (v : Json) :
    List Notification :=
  match s.carriesOut? readings v with
  | some (id, params, .callTool) =>
    match s.runs? readings (params.getD .null),
        (clientToken? (params.getD .null)).bind Json.tokenText? with
    | some (tool, arguments), some token =>
      (tool.reports arguments ⟨id, some token⟩ device).map (ProgressReport.notice token)
    | _, _ => []
  | _ => []

/-! ### What a move issues -/

def LogLevel.message (level : LogLevel) (logger : String) (data : Json) : Notification :=
  ⟨"notifications/message",
    some (.object [("data", data), ("level", .string level.name), ("logger", .string logger)])⟩

/-- The notification that the entries of a list have changed. -/
def ListKind.notice (kind : ListKind) : Notification :=
  let list := match kind with
    | .tools => "tools"
    | .resources => "resources"
    | .prompts => "prompts"
  ⟨"notifications/" ++ list ++ "/list_changed", none⟩

/-- Whether a switch moves: there is such a group, and it is switched the other way. -/
def ToolGroups.moves (s : ToolGroups) (group : String) (enabled : Bool) : Bool :=
  (s.groups.find? group).any fun g => g.enabled != enabled

/-- The notifications that a moment issues, after what is past. -/
def issuedAfter (past : List (Moment Device)) (moment : Moment Device) : List Notification :=
  match moment.move with
  | .message readings v => moment.server.progressOf moment.device readings v
  | .call (.resourceUpdated uri) =>
    if isFollowed past uri then
      [⟨"notifications/resources/updated", some (.object [("uri", .string uri)])⟩]
    else []
  | .call (.log level logger data) =>
    if level.Reaches (thresholdAfter past) then [level.message logger data] else []
  | .call (.setGroupEnabled group enabled) =>
    if moment.server.groups.moves group enabled then [ListKind.tools.notice] else []
  | .call (.listChanged kind) => [kind.notice]
  | .call (.reportProgress token report) => [report.notice token]
  | .call _ => []

/-! ### The parts do what is told of them -/

theorem progressToken?_eq (params : Json) :
    Server.progressToken? params = (clientToken? params).bind Json.tokenText? := by
  unfold Server.progressToken? clientToken?
  cases (params.objectAt? "_meta").bind fun more => (more.field "progressToken").value? with
  | none => rfl
  | some token => cases token <;> rfl

theorem Notification.progress_eq (token : String) (r : ProgressReport) :
    progress token r.done r.total r.message = r.notice token := by
  have hprogress (v w : Json) : Json.insertMember "progress" v [("progressToken", w)] =
      [("progress", v), ("progressToken", w)] :=
    Json.insertMember_cons_of_lt (by decide +kernel) _ _ _
  have htotal (v w u : Json) : Json.insertMember "total" u [("progress", v), ("progressToken", w)] =
      [("progress", v), ("progressToken", w), ("total", u)] := by
    rw [Json.insertMember_cons_of_gt (by decide +kernel) (by decide),
      Json.insertMember_cons_of_gt (by decide +kernel) (by decide), Json.insertMember]
  have hmessage (v u : Json) (rest : List (String × Json)) :
      Json.insertMember "message" u (("progress", v) :: rest) =
        ("message", u) :: ("progress", v) :: rest :=
    Json.insertMember_cons_of_lt (by decide +kernel) _ _ _
  unfold progress ProgressReport.notice
  by_cases hpositive : 0 < r.total <;> cases r.message.isEmpty <;>
    simp only [hpositive, if_true, if_false, Bool.false_eq_true, List.cons_append, List.nil_append,
      List.append_nil, Json.canonical, Json.canonicalMembers, Json.canonical_float, Json.sortMembers,
      List.foldl_cons, List.foldl_nil, Json.insertMember.eq_1, hprogress, htotal, hmessage]

theorem Tool.call_progress (t : Tool Device) (arguments : Json) (context : CallContext)
    (device : Device) :
    (t.call arguments context device).1.progress =
      match context.progressToken with
      | none => []
      | some token => (t.reports arguments context device).map (ProgressReport.notice token) := by
  unfold Tool.call Tool.reports
  cases t.handler with
  | reporting run =>
    cases context.progressToken with
    | none => rfl
    | some token => exact List.map_congr_left fun r _ => Notification.progress_eq token r
  | text run => cases context.progressToken <;> rfl
  | rich run => cases context.progressToken <;> rfl

theorem ListKind.changed_eq (kind : ListKind) : kind.changed = kind.notice := by
  cases kind <;> rfl

theorem LogLevel.ofName_eq (name : String) : ofName name = meant name := by
  by_cases h : ∃ level : LogLevel, level.name = name
  · obtain ⟨level, rfl⟩ := h
    rw [ofName_name]
    cases level <;> rfl
  · -- what names no level is found in neither list
    have hname (level : LogLevel) : level.name ≠ name := fun hlevel => h ⟨level, hlevel⟩
    have hlookup : scale.lookup name = none := by
      have hscale : ∀ entry ∈ scale, entry.1 = entry.2.name := by decide
      refine List.lookup_eq_none_iff.mpr fun entry hentry => ?_
      simpa [hscale entry hentry] using (hname entry.2).symm
    unfold ofName meant
    rw [List.find?_eq_none.mpr (by simp [hname]), hlookup]

theorem LogLevel.notification?_eq (threshold level : LogLevel) (logger : String) (data : Json) :
    threshold.notification? level logger data =
      if level.Reaches threshold then some (level.message logger data) else none := by
  have hrank (level : LogLevel) : level.rank = scale.findIdx (·.2 = level) := by
    cases level <;> rfl
  have hreaches : level.Reaches threshold ↔ ¬level.rank < threshold.rank := by
    rw [hrank, hrank, Nat.not_lt]
    rfl
  unfold LogLevel.notification? LogLevel.message
  simp only [hreaches, ite_not]

theorem ToolGroups.setEnabled_fst (s : ToolGroups) (group : String) (enabled : Bool) :
    (s.setEnabled group enabled).1 = s.moves group enabled := by
  unfold ToolGroups.setEnabled ToolGroups.moves
  cases s.groups.find? group with
  | none => rfl
  | some g =>
    by_cases h : g.enabled = enabled
    · simp [h]
    · simp [h]

theorem NameList.contains_add (names : NameList) (name other : String) :
    List.contains (NameList.add names name) other = (List.contains names other || other == name) := by
  unfold NameList.add
  split
  · rename_i h
    by_cases he : other = name
    · rw [he, h]
      simp
    · simp [he]
  · rw [List.contains_eq_any_beq, List.any_append, ← List.contains_eq_any_beq]
    simp

theorem NameList.contains_drop (names : NameList) (name other : String) :
    List.contains (NameList.drop names name) other = (List.contains names other && other != name) := by
  unfold NameList.drop
  rw [Bool.eq_iff_iff]
  simp

end ContextServer
