import ContextServer.Proofs.Groups.Index
import ContextServer.Proofs.Json.Canonical
import ContextServer.Proofs.Tools.Replacement
import Mathlib.Data.List.Nodup

/-!
Listing and calling. Whatever the host and the client did before, the tools that a server lists are
those that it lets be called: both leave out a name that is not registered, and one that only groups
list that are off.
-/

namespace ContextServer

variable {Device : Type}

/-- The names in the answer to a listing, in its order. -/
def Json.toolNames (answer : Json) : List String :=
  (((answer.member? "tools").bind items?).getD []).filterMap fun item => item.stringAt? "name"

def Server.HasTool (s : Server Device) (name : String) : Prop :=
  ∃ t ∈ s.catalog.tools.values, t.name = name

/-- Some group lists a tool, and all that do are off. -/
def ToolGroups.SwitchedOff (s : ToolGroups) (tool : String) : Prop :=
  (∃ group, tool ∈ s.toolsInGroup group) ∧
    ∀ group, tool ∈ s.toolsInGroup group → s.isGroupEnabled group = false

/-! ### Tools under their names -/

/-- Tools are registered under their own names, each once, and the groups agree with their index. -/
structure Orderly (s : Server Device) : Prop where
  once : s.catalog.tools.keys.Nodup
  named : ∀ entry ∈ s.catalog.tools.entries, entry.2.name = entry.1
  linked : s.groups.Linked

theorem Orderly.addTool {s : Server Device} (h : Orderly s) (t : Tool Device) :
    Orderly (s.addTool t) where
  once := Roster.nodup_keys_insert h.once t.name t
  named entry hentry := by
    rcases Roster.mem_insert hentry with hold | hnew
    · exact h.named entry hold
    · rw [hnew]
  linked := h.linked

theorem Orderly.removeTool {s : Server Device} (h : Orderly s) (name : String) :
    Orderly (s.removeTool name).2 where
  once := Roster.nodup_keys_erase h.once name
  named entry hentry := h.named entry (Roster.mem_of_mem_erase hentry)
  linked := h.linked.forgetTool name

theorem Orderly.perform {s : Server Device} (h : Orderly s) (device : Device)
    (c : HostCall Device) : Orderly (s.perform device c).server := by
  cases c with
  | addTool t => exact h.addTool t
  | removeTool name => exact h.removeTool name
  | createGroup name description => exact ⟨h.once, h.named, h.linked.create name description⟩
  | addToGroup group tool => exact ⟨h.once, h.named, h.linked.addTool group tool⟩
  | setGroupEnabled group enabled => exact ⟨h.once, h.named, h.linked.setEnabled group enabled⟩
  | log level logger data =>
    simp only [Server.perform, Server.flagged, Server.log]
    split <;> exact ⟨h.once, h.named, h.linked⟩
  | _ => exact ⟨h.once, h.named, h.linked⟩

theorem Orderly.receive {s : Server Device} (h : Orderly s) (device : Device) (readings : Readings)
    (v : Json) : Orderly (s.receive device readings v).server := by
  cases s.receive_handled device readings v with
  | served id params m limiter carried step =>
    obtain ⟨f, hf⟩ := step
    have frame := ({ s with limiter } : Server Device).serve_frame device readings id params m
    simp only [hf, Step.map]
    rw [frame.rest]
    exact ⟨h.once, h.named, h.linked⟩
  | answered reply carried message step =>
    have frame := s.receiveAnswer_frame device reply
    simp only [step, Step.map]
    rw [frame]
    exact ⟨h.once, h.named, h.linked⟩
  | idle limiter phase inFlight carried message server device events =>
    rw [server]
    exact ⟨h.once, h.named, h.linked⟩

theorem Orderly.play {s : Server Device} (h : Orderly s) (device : Device)
    (history : List (Move Device)) : Orderly (s.play device history).server := by
  induction history generalizing s device with
  | nil => exact h
  | cons m rest ih =>
    have step : Orderly (s.move device m).server := by
      cases m with
      | call c => exact h.perform device c
      | message readings v => exact h.receive device readings v
    rw [Server.play_cons]
    exact ih step (s.move device m).device

theorem orderly_ofOptions (options : ServerOptions) (now : Instant) :
    Orderly (.ofOptions options now : Server Device) := by
  -- the only entries that a server starts with are roots
  have htools : (Server.ofOptions options now : Server Device).catalog.tools = {} := by
    have hroots (roots : List Root) (c : Catalog Device) :
        (roots.foldl Catalog.addRoot c).tools = c.tools := by
      induction roots generalizing c with
      | nil => rfl
      | cons root rest ih => exact ih (c.addRoot root)
    exact hroots options.roots {}
  have hgroups : (Server.ofOptions options now : Server Device).groups.Linked :=
    ToolGroups.linked_empty
  refine ⟨?_, ?_, hgroups⟩
  · rw [htools]
    exact List.nodup_nil
  · rw [htools]
    exact fun entry hentry => absurd hentry List.not_mem_nil

/-! ### What is listed -/

theorem Tool.stringAt?_name (t : Tool Device) :
    t.toJson.canonical.stringAt? "name" = some t.name := by
  have hmember : t.toJson.canonical.member? "name" = some (.string t.name) := by
    unfold Tool.toJson
    rw [Json.member?_canonical_object]
    -- the other members of a tool's entry are under other keys, and may be left out
    cases t.title <;> cases t.outputSchema <;> cases t.hints <;> cases t.icons <;>
      simp [optionalMember, iconsMember, Json.lookup_cons_ite, Json.canonical]
  simp only [Json.stringAt?, Json.field, hmember]
  rfl

theorem names_values {s : Server Device} (h : Orderly s) :
    s.catalog.tools.values.map Tool.name = s.catalog.tools.keys := by
  unfold Roster.values Roster.keys
  rw [List.map_map]
  exact List.map_congr_left h.named

/-- Without pages a listing names the registered tools that are not disabled. -/
theorem listTools_names {s : Server Device} (h : Orderly s) (whole : s.pageSize = 0)
    (params : Json) : ∃ answer, s.listTools params = .ok answer ∧
      answer.toolNames = s.catalog.tools.keys.filter fun name => !s.groups.isToolDisabled name := by
  let answer := Json.canonical (.object [("tools", .array (s.visibleTools.map Tool.toJson))])
  have hlist : s.listTools params = .ok answer := by
    simp only [Server.listTools, Server.listPage, Page.ofList, whole, if_true]
    rfl
  have hitems : answer.member? "tools" =
      some (.array (s.visibleTools.map fun t => t.toJson.canonical)) := by
    rw [Json.member?_canonical_object]
    simp [Json.canonical, Json.canonicalItems_eq_map, Function.comp_def]
  refine ⟨answer, hlist, ?_⟩
  calc answer.toolNames
      = s.visibleTools.filterMap fun t => t.toJson.canonical.stringAt? "name" := by
        simp [Json.toolNames, hitems, Json.items?, List.filterMap_map]
    _ = s.visibleTools.map Tool.name := by
        simp only [Tool.stringAt?_name]
        exact congrFun List.filterMap_eq_map _
    _ = (s.catalog.tools.values.map Tool.name).filter
          fun name => !s.groups.isToolDisabled name := by
        rw [List.filter_map]
        rfl
    _ = s.catalog.tools.keys.filter fun name => !s.groups.isToolDisabled name := by
        rw [names_values h]

/-! ### What may be called -/

theorem hasTool_iff {s : Server Device} (h : Orderly s) (name : String) :
    s.HasTool name ↔ name ∈ s.catalog.tools.keys := by
  rw [← names_values h, List.mem_map]
  rfl

/-- A call of a tool has a result if the tool is registered and not disabled, and otherwise an error
that says which of the two it is. -/
theorem callTool_cases (s : Server Device) (device : Device) (readings : Readings) (id : RequestId)
    {params : Json} {name : String} (named : params.stringAt? "name" = some name) :
    let value := (s.callTool device readings id params).value
    (name ∉ s.catalog.tools.keys ∧ value = .error (.invalidParams ("Tool not found: " ++ name))) ∨
      (name ∈ s.catalog.tools.keys ∧ s.groups.isToolDisabled name = true ∧
        value = .error (.invalidParams ("Tool disabled: " ++ name))) ∨
      (name ∈ s.catalog.tools.keys ∧ s.groups.isToolDisabled name = false ∧
        ∃ result, value = .ok result) := by
  intro value
  have hfails : ∀ fault, s.findTool name = .error fault → value = .error fault := by
    intro fault hfault
    simp only [value, Server.callTool, named, hfault]
    rfl
  rw [← Roster.contains_iff_mem_keys]
  cases hfind : s.catalog.tools.find? name with
  | none =>
    have hmissing : s.findTool name = .error (.invalidParams ("Tool not found: " ++ name)) := by
      simp only [Server.findTool, hfind]
    exact .inl ⟨by simp [Roster.contains, hfind], hfails _ hmissing⟩
  | some tool =>
    have hthere : s.catalog.tools.contains name = true := by simp [Roster.contains, hfind]
    cases hoff : s.groups.isToolDisabled name with
    | true =>
      have hdisabled : s.findTool name = .error (.invalidParams ("Tool disabled: " ++ name)) := by
        simp only [Server.findTool, hfind, hoff, if_true]
      exact .inr (.inl ⟨hthere, rfl, hfails _ hdisabled⟩)
    | false =>
      have hfound : s.findTool name = .ok tool := by
        simp only [Server.findTool, hfind, hoff, Bool.false_eq_true, if_false]
      obtain ⟨context, hvalue⟩ := callTool_value s device readings id named hfound
      exact .inr (.inr ⟨hthere, rfl, _, hvalue⟩)

/-- A name is listed, and then once, exactly when a call of it has a result. A call of any other
name is told that there is no such tool, or that it is disabled: some group lists it, and all that do
are off. -/
theorem listing_agrees_with_calling (options : ServerOptions) (now : Instant) (device : Device)
    (actions : List (Action Device)) (readings readings' : Readings) {listing calling : Json}
    {id id' : RequestId} {params params' : Option Json} {name : String}
    (lists : Message.ofJson listing = .ok (.request id "tools/list" params))
    (calls : Message.ofJson calling = .ok (.request id' "tools/call" params'))
    (named : (params'.getD .null).stringAt? "name" = some name) :
    let last := (Server.ofOptions options now).run device actions
    let server := last.server
    let listed := (server.receive last.device readings listing).value
    let called := (server.receive last.device readings' calling).value
    server.pageSize = 0 →
    (server.limiter.acquire readings.admission).1 = true →
    (server.limiter.acquire readings'.admission).1 = true →
      ∃ answer, listed = some ⟨id, .ok answer⟩ ∧
        (name ∈ answer.toolNames → answer.toolNames.count name = 1) ∧
        (name ∈ answer.toolNames ↔ ∃ result, called = some ⟨id', .ok result⟩) ∧
        (name ∉ answer.toolNames →
          (¬server.HasTool name →
            called = some (.refusal id' (.invalidParams ("Tool not found: " ++ name)))) ∧
          (server.HasTool name → server.groups.SwitchedOff name ∧
            called = some (.refusal id' (.invalidParams ("Tool disabled: " ++ name))))) := by
  intro last server listed called whole admitted admitted'
  have orderly : Orderly server := by
    have h := (orderly_ofOptions options now).play device (Action.history actions)
    rw [← Server.run_eq_play] at h
    exact h
  -- a request costs a token, which is all that sets the server that serves it apart
  let limited (r : Readings) : Server Device :=
    { server with limiter := (server.limiter.acquire r.admission).2 }
  obtain ⟨answer, hanswer, hnames⟩ :=
    listTools_names (s := limited readings) ⟨orderly.once, orderly.named, orderly.linked⟩ whole
      (params.getD .null)
  have hlisted : listed = some ⟨id, .ok answer⟩ := by
    have hreceive := server.receive_request last.device readings (m := .listTools) lists
    simp only [listed, hreceive, admitted, if_true, Step.map, Server.serve, Server.unchanged]
    rw [← hanswer]
  have hcalled : called = some ⟨id', ((limited readings').callTool last.device readings' id'
      (params'.getD .null)).value⟩ := receive_admitted server last.device calls admitted'
  have hmem : name ∈ answer.toolNames ↔
      name ∈ server.catalog.tools.keys ∧ server.groups.isToolDisabled name = false := by
    rw [hnames, List.mem_filter, Bool.not_eq_true']
  have honce : name ∈ answer.toolNames → answer.toolNames.count name = 1 := by
    intro hin
    have hnodup : answer.toolNames.Nodup := by
      rw [hnames]
      exact orderly.once.filter _
    exact List.count_eq_one_of_mem hnodup hin
  refine ⟨answer, hlisted, honce, ?_⟩
  rw [hmem, hasTool_iff orderly, hcalled]
  rcases callTool_cases (limited readings') last.device readings' id' named with
    ⟨hunknown, hvalue⟩ | ⟨hknown, hoff, hvalue⟩ | ⟨hknown, hon, result, hvalue⟩
  · have hunknown' : name ∉ server.catalog.tools.keys := hunknown
    simp [hvalue, hunknown', Reply.refusal]
  · have hknown' : name ∈ server.catalog.tools.keys := hknown
    have hoff' : server.groups.isToolDisabled name = true := hoff
    have hswitched : server.groups.SwitchedOff name :=
      (orderly.linked.isToolDisabled_iff name).mp hoff
    simp [hvalue, hknown', hoff', hswitched, Reply.refusal]
  · have hknown' : name ∈ server.catalog.tools.keys := hknown
    have hon' : server.groups.isToolDisabled name = false := hon
    simp [hvalue, hknown', hon']

/-- A tool in a group that is then switched off. -/
def switchingOff : List (Action Unit) :=
  [.call (.addTool (constantTool "t" "one")), .call (.addToGroup "g" "t"),
    .call (.setGroupEnabled "g" false)]

def listOfTools : Json :=
  .object [("id", .int 1), ("jsonrpc", .string "2.0"), ("method", .string "tools/list")]

/-- The tool is not listed, and a call of it is told why. -/
theorem switchingOff_agrees :
    let last := (Server.ofOptions {} 0).run () switchingOff
    let listed := (last.server.receive () ⟨0, 0, 0, 0, ""⟩ listOfTools).value
    let called := (last.server.receive () ⟨0, 0, 0, 0, ""⟩ (callOfT 2)).value
    ∃ answer, listed = some ⟨.number (.whole 1), .ok answer⟩ ∧ "t" ∉ answer.toolNames ∧
      last.server.HasTool "t" ∧ last.server.groups.SwitchedOff "t" ∧
        called = some (.refusal (.number (.whole 2)) (.invalidParams "Tool disabled: t")) := by
  intro last listed called
  have lists : Message.ofJson listOfTools =
      .ok (.request (.number (.whole 1)) "tools/list" none) := by rfl
  have calls : Message.ofJson (callOfT 2) = .ok (.request (.number (.whole 2)) "tools/call"
      (some (.object [("name", .string "t")]))) := by rfl
  have hcalled : called =
      some (.refusal (.number (.whole 2)) (.invalidParams "Tool disabled: t")) := by rfl
  obtain ⟨answer, hlisted, -, hiff, hwhy⟩ := listing_agrees_with_calling {} 0 () switchingOff
    ⟨0, 0, 0, 0, ""⟩ ⟨0, 0, 0, 0, ""⟩ lists calls rfl rfl rfl rfl
  have hout : "t" ∉ answer.toolNames := by
    intro hin
    obtain ⟨result, hresult⟩ := hiff.mp hin
    cases hresult.symm.trans hcalled
  have hthere : last.server.HasTool "t" := ⟨constantTool "t" "one", List.mem_singleton.mpr rfl, rfl⟩
  obtain ⟨hswitched, -⟩ := (hwhy hout).2 hthere
  exact ⟨answer, hlisted, hout, hthere, hswitched, hcalled⟩

end ContextServer
