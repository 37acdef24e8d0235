import ContextServer.Proofs.Cache.Entries
import ContextServer.Proofs.Server.Run
import ContextServer.Proofs.Server.Serving

/-!
Replacing a tool. From its registration on, and as long as nothing else takes its name, a tool answers
the calls of its name with its own results, but for results that lie in the cache and that it did not
store: registering a tool does not drop what its predecessor left there, and a fresh leftover is
answered in its place.
-/

namespace ContextServer

variable {Device : Type}

/-- The results of a tool are a function of its arguments, whatever the call and the device. -/
def Tool.Computes (t : Tool Device) (own : Json → ToolResult) : Prop :=
  ∀ arguments context device, (t.call arguments context device).1.result = own arguments

/-- A move that neither registers nor removes a tool of a name. -/
def Move.keepsTool (name : String) : Move Device → Prop
  | .call (.addTool t) => t.name ≠ name
  | .call (.removeTool removed) => removed ≠ name
  | _ => True

/-- A moment at which the host puts an entry into the cache by its own hand. -/
def Moment.puts (entry : CallKey × CacheEntry) (moment : Moment Device) : Prop :=
  ∃ change, moment.move = .call (.changeCache change) ∧
    entry ∈ (change moment.server.cache).entries.entries ∧
      entry ∉ moment.server.cache.entries.entries

/-- An entry that no call since has stored: it lay in the cache before, or the host put it there. -/
def Inherited (before : ResultCache) (since : List (Moment Device)) (entry : CallKey × CacheEntry) :
    Prop :=
  entry ∈ before.entries.entries ∨ ∃ moment ∈ since, moment.puts entry

/-! ### Calls -/

theorem findTool_ok {s : Server Device} {name : String} {tool : Tool Device}
    (h : s.findTool name = .ok tool) : s.catalog.tools.find? name = some tool := by
  unfold Server.findTool at h
  split at h
  · cases h
  · rename_i found hfound
    split at h
    · cases h
    · cases h
      exact hfound

/-- A call stores at most one entry, under its own key: the result of the tool that it ran. -/
theorem mem_callTool (s : Server Device) (device : Device) (readings : Readings) (id : RequestId)
    (params : Json) {entry : CallKey × CacheEntry}
    (h : entry ∈ (s.callTool device readings id params).server.cache.entries.entries) :
    entry ∈ s.cache.entries.entries ∨
      ∃ tool arguments context, s.findTool entry.1.tool = .ok tool ∧
        entry.1.arguments = Json.text arguments ∧
          entry.2.result = (tool.call arguments context device).1.result := by
  unfold Server.callTool at h
  split at h
  · exact .inl h
  · rename_i name hname
    split at h
    · exact .inl h
    · rename_i tool htool
      dsimp only at h
      split at h
      · exact .inl (ResultCache.mem_of_mem_lookup h)
      · rcases ResultCache.mem_store h with hold | ⟨hkey, hresult⟩
        · exact .inl (ResultCache.mem_of_mem_lookup hold)
        · refine .inr ⟨tool, _, _, ?_, ?_, hresult⟩
          · rw [hkey]
            exact htool
          · rw [hkey]
            rfl

/-! ### What the registry and the cache agree on -/

/-- The tool of a name is `t`, and what is stored for it is inherited or its own. -/
structure Coherent (t : Tool Device) (own : Json → ToolResult) (inherited : CallKey × CacheEntry → Prop)
    (s : Server Device) : Prop where
  registered : s.catalog.tools.find? t.name = some t
  stored : ∀ entry ∈ s.cache.entries.entries, entry.1.tool = t.name →
    inherited entry ∨ ∃ w : Json, w.text = entry.1.arguments ∧ entry.2.result = own w

section Invariant

variable {t : Tool Device} {own : Json → ToolResult} {inherited : CallKey × CacheEntry → Prop}
  {s : Server Device}

theorem Coherent.mono {more : CallKey × CacheEntry → Prop} (h : Coherent t own inherited s)
    (hmore : ∀ entry, inherited entry → more entry) : Coherent t own more s :=
  ⟨h.registered, fun entry hentry hname => (h.stored entry hentry hname).imp_left (hmore entry)⟩

/-- Where the tool is kept and nothing is stored, nothing is lost. -/
theorem Coherent.kept {s' : Server Device} (h : Coherent t own inherited s)
    (tools : s'.catalog.tools.find? t.name = s.catalog.tools.find? t.name)
    (entries : ∀ entry ∈ s'.cache.entries.entries, entry ∈ s.cache.entries.entries) :
    Coherent t own inherited s' :=
  ⟨tools.trans h.registered, fun entry hentry => h.stored entry (entries entry hentry)⟩

/-- Serving keeps the tool, and stores no results of others under its name. -/
theorem Coherent.serve (h : Coherent t own inherited s) (computes : t.Computes own)
    (device : Device) (readings : Readings) (id : RequestId) (params : Option Json) (m : Method) :
    Coherent t own inherited (s.serve device readings id params m).server := by
  have frame := s.serve_frame device readings id params m
  refine ⟨by rw [frame.catalog]; exact h.registered, fun entry hentry hname => ?_⟩
  by_cases hm : m = .callTool
  · subst hm
    -- under this name a call stores what `t` gave, since `t` is the tool that it finds
    rcases mem_callTool s device readings id (params.getD .null) hentry with
      hold | ⟨tool, arguments, context, htool, htext, hresult⟩
    · exact h.stored entry hold hname
    · have heq : tool = t := by
        have hfound := findTool_ok htool
        rw [hname, h.registered] at hfound
        exact (Option.some.inj hfound).symm
      rw [heq, computes] at hresult
      exact .inr ⟨arguments, htext.symm, hresult⟩
  · rw [frame.cache hm] at hentry
    exact h.stored entry hentry hname

/-! ### Moves -/

theorem Coherent.receive (h : Coherent t own inherited s) (computes : t.Computes own)
    (device : Device) (readings : Readings) (v : Json) :
    Coherent t own inherited (s.receive device readings v).server := by
  cases s.receive_handled device readings v with
  | served id params m limiter carried step =>
    obtain ⟨f, hf⟩ := step
    have hlimited : Coherent t own inherited { s with limiter } := ⟨h.registered, h.stored⟩
    rw [hf]
    exact hlimited.serve computes device readings id params m
  | answered reply carried message step =>
    have frame := s.receiveAnswer_frame device reply
    simp only [step, Step.map]
    rw [frame]
    exact ⟨h.registered, h.stored⟩
  | idle limiter phase inFlight carried message server device events =>
    rw [server]
    exact ⟨h.registered, h.stored⟩

theorem Coherent.perform (h : Coherent t own inherited s) (device : Device)
    {c : HostCall Device} (hkeep : (Move.call c).keepsTool t.name)
    (hchange : ∀ change, c ≠ .changeCache change) :
    Coherent t own inherited (s.perform device c).server := by
  cases c with
  | addTool other =>
    exact h.kept (Roster.find?_insert_of_ne _ _ (Ne.symm hkeep)) fun _ hentry => hentry
  | removeTool name =>
    exact h.kept (Roster.find?_erase_of_ne _ (Ne.symm hkeep)) fun _ hentry =>
      Roster.mem_of_mem_filter hentry
  | changeCache change => exact absurd rfl (hchange change)
  | log level logger data =>
    refine h.kept ?_ ?_ <;> simp only [Server.perform, Server.flagged, Server.log] <;> split <;>
      simp
  | _ => exact h.kept rfl fun _ hentry => hentry

/-- One move, with what the host puts into the cache by it. -/
theorem Coherent.move (h : Coherent t own inherited s) (computes : t.Computes own)
    (device : Device) {m : Move Device} (hkeep : m.keepsTool t.name) :
    Coherent t own (fun entry => inherited entry ∨ (Moment.mk s device m).puts entry)
      (s.move device m).server := by
  cases m with
  | message readings v => exact (h.receive computes device readings v).mono fun _ => .inl
  | call c =>
    by_cases hchange : ∃ change, c = .changeCache change
    · obtain ⟨change, rfl⟩ := hchange
      refine ⟨h.registered, fun entry hentry hname => ?_⟩
      by_cases hold : entry ∈ s.cache.entries.entries
      · exact (h.stored entry hold hname).imp_left .inl
      · exact .inl (.inr ⟨change, rfl, hentry, hold⟩)
    · exact (h.perform device hkeep fun change hc => hchange ⟨change, hc⟩).mono fun _ => .inl

theorem Coherent.play (h : Coherent t own inherited s) (computes : t.Computes own)
    (device : Device) {history : List (Move Device)} (hkeep : ∀ m ∈ history, m.keepsTool t.name) :
    Coherent t own
      (fun entry => inherited entry ∨ ∃ moment ∈ s.moments device history, moment.puts entry)
      (s.play device history).server := by
  induction history generalizing s device inherited with
  | nil => exact h.mono fun _ => .inl
  | cons m rest ih =>
    have step := h.move computes device (hkeep m List.mem_cons_self)
    have more := ih step (s.move device m).device fun m' hm' => hkeep m' (List.mem_cons_of_mem _ hm')
    refine more.mono fun entry hentry => ?_
    rcases hentry with (hold | hput) | ⟨moment, hmoment, hput⟩
    · exact .inl hold
    · exact .inr ⟨_, List.mem_cons_self, hput⟩
    · exact .inr ⟨moment, List.mem_cons_of_mem _ hmoment, hput⟩

end Invariant

/-! ### Answers -/

/-- The answer to a call of a tool that is there and not disabled: what the cache has, or what the
tool gives. -/
theorem callTool_value (s : Server Device) (device : Device) (readings : Readings) (id : RequestId)
    {params : Json} {name : String} {tool : Tool Device} (hname : params.stringAt? "name" = some name)
    (htool : s.findTool name = .ok tool) :
    ∃ context, (s.callTool device readings id params).value =
      .ok (((s.cache.found? name (Json.arguments (params.field "arguments").value?)
        readings.lookup).map CacheEntry.result).getD
          (tool.call (Json.arguments (params.field "arguments").value?) context device).1.result
        |>.toJson.canonical) := by
  refine ⟨⟨id, Server.progressToken? params⟩, ?_⟩
  unfold Server.callTool
  simp only [hname, htool]
  rw [← ResultCache.lookup_fst]
  split
  · rename_i result hresult
    rw [hresult]
    rfl
  · rename_i hnone
    rw [hnone]
    rfl

theorem receive_admitted (s : Server Device) (device : Device) {readings : Readings} {v : Json}
    {id : RequestId} {params : Option Json}
    (call : Message.ofJson v = .ok (.request id "tools/call" params))
    (admitted : (s.limiter.acquire readings.admission).1 = true) :
    (s.receive device readings v).value = some ⟨id,
      (({ s with limiter := (s.limiter.acquire readings.admission).2 } : Server Device).callTool
        device readings id (params.getD .null)).value⟩ := by
  have hreceive := s.receive_request device readings (m := .callTool) call
  simp only [hreceive, admitted, if_true, Step.map, Server.serve]

theorem findTool_of_enabled {s : Server Device} {t : Tool Device}
    (registered : s.catalog.tools.find? t.name = some t)
    (enabled : s.groups.isToolDisabled t.name = false) : s.findTool t.name = .ok t := by
  unfold Server.findTool
  rw [registered]
  simp only [enabled, Bool.false_eq_true, if_false]

/-- After a tool is registered, every admitted call of its name is answered with what its own handler
gives for the arguments, which the cache knows by their text; but where the cache still has a fresh
entry that the tool did not store, that entry is the answer. -/
theorem replaced_tool_answers (s : Server Device) (device : Device) (t : Tool Device)
    (own : Json → ToolResult)
    (computes : t.Computes own)
    (history : List (Move Device)) (kept : ∀ m ∈ history, m.keepsTool t.name) (readings : Readings)
    {v : Json} {id : RequestId} {params : Option Json}
    (call : Message.ofJson v = .ok (.request id "tools/call" params))
    (named : (params.getD .null).stringAt? "name" = some t.name) :
    let last := (s.addTool t).play device history
    let arguments := Json.arguments ((params.getD .null).field "arguments").value?
    let found := last.server.cache.found? t.name arguments readings.lookup
    let inherited := fun entry => Inherited s.cache ((s.addTool t).moments device history)
      (CallKey.ofCall t.name arguments, entry)
    let reply := (last.server.receive last.device readings v).value
    (last.server.limiter.acquire readings.admission).1 = true →
    last.server.groups.isToolDisabled t.name = false →
      (∀ entry, found = some entry → inherited entry →
        reply = some ⟨id, .ok entry.result.toJson.canonical⟩) ∧
      ((∀ entry, found = some entry → ¬inherited entry) →
        ∃ w : Json, w.text = arguments.text ∧ (found = none → w = arguments) ∧
          reply = some ⟨id, .ok (own w).toJson.canonical⟩) := by
  intro last arguments found inherited reply admitted enabled
  -- at its registration everything that is stored is inherited
  have start : Coherent t own (fun entry => entry ∈ s.cache.entries.entries) (s.addTool t) :=
    ⟨Roster.find?_insert_self _ _ _, fun entry hentry _ => .inl hentry⟩
  have now := start.play computes device kept
  obtain ⟨context, hvalue⟩ := callTool_value
    { last.server with limiter := (last.server.limiter.acquire readings.admission).2 }
    last.device readings id named (findTool_of_enabled now.registered enabled)
  have hreply : reply = some ⟨id, .ok ((found.map CacheEntry.result).getD
      (t.call arguments context last.device).1.result).toJson.canonical⟩ := by
    rw [← hvalue]
    exact receive_admitted last.server last.device call admitted
  constructor
  · intro entry hfound _
    rw [hreply, hfound]
    rfl
  · intro hown
    cases hfound : found with
    | none =>
      refine ⟨arguments, rfl, fun _ => rfl, ?_⟩
      rw [hreply, hfound, computes]
      rfl
    | some entry =>
      rcases now.stored _ (ResultCache.mem_of_found? hfound) rfl with hin | ⟨w, htext, hresult⟩
      · exact absurd hin (hown entry hfound)
      · refine ⟨w, htext, nofun, ?_⟩
        rw [hreply, hfound, ← hresult]
        rfl

def constantTool (name answer : String) : Tool Unit where
  name := name
  description := ""
  inputSchema := .object []
  handler := .rich fun _ device => (.returned (.ofText answer), device)

/-- A call of the tool `t` without arguments. -/
def callOfT (id : Int) : Json :=
  .object [("id", .int id), ("jsonrpc", .string "2.0"), ("method", .string "tools/call"),
    ("params", .object [("name", .string "t")])]

/-- A server that keeps the results of `t`, after a call of a first `t`. -/
def stocked : Server Unit :=
  ((Server.ofOptions {} 0).play () [
    .call (.changeCache fun c => { c.setLifetime "t" (Span.ofSeconds 3600) with enabled := true }),
    .call (.addTool (constantTool "t" "one")),
    .message ⟨0, 0, 0, 0, ""⟩ (callOfT 1)]).server

/-- A second `t` is registered, and the first one's result is still the answer. -/
theorem stocked_answers_leftover :
    let last := (stocked.addTool (constantTool "t" "two")).play () [.call (.listChanged .tools)]
    (last.server.receive () ⟨1, 1, 1, 1, ""⟩ (callOfT 2)).value =
        some ⟨.number (.whole 2), .ok (ToolResult.ofText "one").toJson.canonical⟩ ∧
      (ToolResult.ofText "one").toJson.canonical ≠ (ToolResult.ofText "two").toJson.canonical := by
  have hcall : Message.ofJson (callOfT 2) = .ok (.request (.number (.whole 2)) "tools/call"
      (some (.object [("name", .string "t")]))) := by rfl
  have hfound : stocked.cache.found? "t" (.object []) 1 =
      some ⟨.ofText "one", 0, Span.ofSeconds 3600⟩ := by rfl
  have answers := replaced_tool_answers stocked () (constantTool "t" "two")
    (fun _ => .ofText "two") (fun _ _ _ => rfl) [.call (.listChanged .tools)]
    (by simp [Move.keepsTool]) ⟨1, 1, 1, 1, ""⟩ hcall rfl rfl rfl
  have hdiffer : (ToolResult.ofText "one").toJson.canonical.text ≠
      (ToolResult.ofText "two").toJson.canonical.text := by decide +kernel
  exact ⟨answers.1 _ hfound (.inl (ResultCache.mem_of_found? hfound)),
    fun h => hdiffer (congrArg Json.text h)⟩

end ContextServer
