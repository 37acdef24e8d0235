import ContextServer.Proofs.Tools.Replacement

/-!
The cache does not show in the replies. Two servers that differ in nothing but whether results are
cached are kept side by side, message by message: what the one answers from its cache is what the
other gets from the tool, as long as results depend on the text of the arguments alone. The cache may
spare a tool its run, with the progress and the note of the request in flight that come of it; no
reply tells of those.
-/

namespace ContextServer

variable {Device View : Type}

/-! ### Steady handlers -/

/-- A run that goes by what a view of the device shows, in its outcome and in what the view shows
afterwards. -/
def OnDevice.Sees {α : Type} (view : Device → View) (run : OnDevice Device α) : Prop :=
  ∀ d e, view d = view e → (run d).1 = (run e).1 ∧ view (run d).2 = view (run e).2

/-- A tool's result is a function of the text of its arguments, and a run of it changes nothing that
the view shows. The other handlers go by their arguments and the view; by their arguments alone if the
view shows nothing. -/
structure Steady (view : Device → View) (own : String → String → ToolResult)
    (catalog : Catalog Device) (completions : Completions Device) : Prop where
  tools : ∀ name tool, catalog.tools.find? name = some tool → ∀ arguments context device,
    (tool.call arguments context device).1.result = own name (Json.text arguments) ∧
      view (tool.call arguments context device).2 = view device
  resources : ∀ uri found, catalog.resolve? uri = some found → OnDevice.Sees view (found.read uri)
  prompts : ∀ name prompt, catalog.prompts.find? name = some prompt →
    ∀ supplied, OnDevice.Sees view (prompt.run supplied)
  completions : ∀ key typed, OnDevice.Sees view (completions.complete key typed)

/-! ### Two servers side by side -/

/-- The server with another cache, and with other traces of the calls that it served. -/
def Server.beside (t : Server Device) (cache : ResultCache) (notifier : Notifier)
    (inFlight : InFlight) : Server Device :=
  { t with cache, notifier, inFlight }

/-- A server that keeps its tools' own results, beside one that keeps none. -/
structure Twin (view : Device → View) (own : String → String → ToolResult) (s : Server Device)
    (d : Device) (t : Server Device) (e : Device) : Prop where
  same : s = t.beside s.cache s.notifier s.inFlight
  off : t.cache.enabled = false
  stored : ∀ entry ∈ s.cache.entries.entries, entry.2.result = own entry.1.tool entry.1.arguments
  steady : Steady view own t.catalog t.completions
  seen : view d = view e

/-- Two steps that give the same and leave the servers side by side. -/
structure Alike {α : Type} (view : Device → View) (own : String → String → ToolResult)
    (r q : Step Device α) : Prop where
  value : r.value = q.value
  twin : Twin view own r.server r.device q.server q.device

section SideBySide

variable {view : Device → View} {own : String → String → ToolResult} {s t : Server Device}
  {d e : Device}

theorem Alike.map {α β : Type} {r q : Step Device α} (h : Alike view own r q) (f : α → β) :
    Alike view own (r.map f) (q.map f) :=
  ⟨congrArg f h.value, h.twin⟩

/-! ### Methods -/

theorem handshake_alike (h : Twin view own s d t e) (readings : Readings) (params : Option Json) :
    Alike view own (s.handshake d readings params) (t.handshake e readings params) := by
  obtain ⟨same, off, stored, steady, seen⟩ := h
  rw [same]
  unfold Server.handshake Server.beside
  dsimp only
  cases t.sessionId with
  | none =>
    dsimp only
    split <;> exact ⟨rfl, rfl, off, stored, steady, seen⟩
  | some previous =>
    dsimp only
    split <;> exact ⟨rfl, rfl, off, stored, steady, seen⟩

theorem readResource_alike (h : Twin view own s d t e) (params : Json) :
    Alike view own (s.readResource d params) (t.readResource e params) := by
  obtain ⟨same, off, stored, steady, seen⟩ := h
  rw [same]
  unfold Server.readResource Server.beside
  dsimp only
  cases params.stringAt? "uri" with
  | none => exact ⟨rfl, rfl, off, stored, steady, seen⟩
  | some uri =>
    dsimp only
    cases hfound : t.catalog.resolve? uri with
    | none => exact ⟨rfl, rfl, off, stored, steady, seen⟩
    | some found =>
      obtain ⟨hcontents, hseen⟩ := steady.resources uri found hfound d e seen
      dsimp only [Server.unchanged]
      rw [hcontents]
      exact ⟨rfl, rfl, off, stored, steady, hseen⟩

theorem getPrompt_alike (h : Twin view own s d t e) (params : Json) :
    Alike view own (s.getPrompt d params) (t.getPrompt e params) := by
  obtain ⟨same, off, stored, steady, seen⟩ := h
  rw [same]
  unfold Server.getPrompt Server.beside
  dsimp only
  cases params.stringAt? "name" with
  | none => exact ⟨rfl, rfl, off, stored, steady, seen⟩
  | some name =>
    dsimp only
    cases hfound : t.catalog.prompts.find? name with
    | none => exact ⟨rfl, rfl, off, stored, steady, seen⟩
    | some prompt =>
      dsimp only
      split
      · exact ⟨rfl, rfl, off, stored, steady, seen⟩
      · obtain ⟨hmessages, hseen⟩ := steady.prompts name prompt hfound _ d e seen
        dsimp only [Server.unchanged]
        rw [hmessages]
        exact ⟨rfl, rfl, off, stored, steady, hseen⟩

theorem completeArgument_alike (h : Twin view own s d t e) (params : Json) :
    Alike view own (s.completeArgument d params) (t.completeArgument e params) := by
  obtain ⟨same, off, stored, steady, seen⟩ := h
  rw [same]
  unfold Server.completeArgument Server.beside
  dsimp only
  split
  · exact ⟨rfl, rfl, off, stored, steady, seen⟩
  · rename_i key typed _
    obtain ⟨hcompletion, hseen⟩ := steady.completions key typed d e seen
    dsimp only [Server.unchanged]
    rw [hcompletion]
    exact ⟨rfl, rfl, off, stored, steady, hseen⟩

theorem setSubscription_alike (h : Twin view own s d t e) (subscribe : Bool) (params : Json) :
    Alike view own (s.setSubscription d subscribe params)
      (t.setSubscription e subscribe params) := by
  obtain ⟨same, off, stored, steady, seen⟩ := h
  rw [same]
  unfold Server.setSubscription Server.beside
  dsimp only
  cases params.stringAt? "uri" <;> exact ⟨rfl, rfl, off, stored, steady, seen⟩

theorem setLevel_alike (h : Twin view own s d t e) (params : Json) :
    Alike view own (s.setLevel d params) (t.setLevel e params) := by
  obtain ⟨same, off, stored, steady, seen⟩ := h
  rw [same]
  unfold Server.setLevel Server.beside
  dsimp only
  cases params.field "level" <;> exact ⟨rfl, rfl, off, stored, steady, seen⟩

/-! ### Calls -/

/-- While the cache is off, a call neither asks it nor changes it. -/
theorem callTool_cache_of_off (off : t.cache.enabled = false) (readings : Readings) (id : RequestId)
    (params : Json) : (t.callTool e readings id params).server.cache = t.cache := by
  have hlookup (name : String) (arguments : Json) :
      t.cache.lookup name arguments readings.lookup = (none, t.cache) := by
    simp [ResultCache.lookup, off]
  have hstore (name : String) (arguments : Json) (result : ToolResult) :
      t.cache.store name arguments result readings.store = t.cache := by
    simp [ResultCache.store, off]
  unfold Server.callTool
  split
  · rfl
  · split
    · rfl
    · simp only [hlookup, Step.map, Server.runTool, hstore]

/-- A call runs a tool at the most, and that shows nothing of itself. -/
theorem callTool_seen (steady : Steady view own s.catalog s.completions) (readings : Readings)
    (id : RequestId) (params : Json) :
    view (s.callTool d readings id params).device = view d := by
  unfold Server.callTool
  split
  · rfl
  · rename_i name hname
    split
    · rfl
    · rename_i tool htool
      dsimp only
      split
      · rfl
      · exact (steady.tools name tool (findTool_ok htool) _ _ d).2

/-- With or without the cache, a call is answered with the tool's own result. -/
theorem callTool_own (steady : Steady view own s.catalog s.completions)
    (stored : ∀ entry ∈ s.cache.entries.entries,
      entry.2.result = own entry.1.tool entry.1.arguments)
    (readings : Readings) (id : RequestId) {params : Json} {name : String} {tool : Tool Device}
    (hname : params.stringAt? "name" = some name) (htool : s.findTool name = .ok tool) :
    (s.callTool d readings id params).value =
      .ok (own name (Json.arguments (params.field "arguments").value?).text).toJson.canonical := by
  obtain ⟨context, hvalue⟩ := callTool_value s d readings id hname htool
  rw [hvalue]
  cases hfound : s.cache.found? name (Json.arguments (params.field "arguments").value?)
      readings.lookup with
  | some entry =>
    have hentry := stored _ (ResultCache.mem_of_found? hfound)
    simp only [CallKey.ofCall] at hentry
    rw [Option.map_some, Option.getD_some, hentry]
  | none =>
    have hresult := (steady.tools name tool (findTool_ok htool)
      (Json.arguments (params.field "arguments").value?) context d).1
    rw [Option.map_none, Option.getD_none, hresult]

theorem callTool_alike (h : Twin view own s d t e) (readings : Readings) (id : RequestId)
    (params : Json) :
    Alike view own (s.callTool d readings id params) (t.callTool e readings id params) := by
  have steady : Steady view own s.catalog s.completions := by
    rw [h.same]
    exact h.steady
  have hfind (name : String) : s.findTool name = t.findTool name := by
    rw [h.same]
    rfl
  -- the server without a cache has nothing in it that could be wrong
  have hnothing (name : String) (arguments : Json) :
      t.cache.found? name arguments readings.lookup = none := by
    simp [ResultCache.found?, h.off]
  have hvalue : (s.callTool d readings id params).value =
      (t.callTool e readings id params).value := by
    cases hname : params.stringAt? "name" with
    | none => simp only [Server.callTool, hname, Server.unchanged]
    | some name =>
      cases htool : t.findTool name with
      | error fault => simp only [Server.callTool, hname, hfind, htool, Server.unchanged]
      | ok tool =>
        obtain ⟨context, ht⟩ := callTool_value t e readings id hname htool
        have hresult := (h.steady.tools name tool (findTool_ok htool)
          (Json.arguments (params.field "arguments").value?) context e).1
        rw [callTool_own steady h.stored readings id hname ((hfind name).trans htool), ht,
          hnothing, Option.map_none, Option.getD_none, hresult]
  have hsame : (s.callTool d readings id params).server =
      (t.callTool e readings id params).server.beside
        (s.callTool d readings id params).server.cache
        (s.callTool d readings id params).server.notifier
        (s.callTool d readings id params).server.inFlight := by
    have hs := s.callTool_frame d readings id params
    have ht := t.callTool_frame e readings id params
    simp only [Method.Frame] at hs ht
    generalize (s.callTool d readings id params).server = s' at hs ⊢
    rw [hs, ht, h.same]
    rfl
  refine ⟨hvalue, hsame, ?_, ?_, ?_, ?_⟩
  · rw [callTool_cache_of_off h.off]
    exact h.off
  · intro entry hentry
    rcases mem_callTool s d readings id params hentry with
      hold | ⟨tool, arguments, context, htool, htext, hresult⟩
    · exact h.stored entry hold
    · rw [hresult, htext]
      exact (steady.tools _ tool (findTool_ok htool) arguments context d).1
  · have ht := t.callTool_frame e readings id params
    simp only [Method.Frame] at ht
    rw [ht]
    exact h.steady
  · rw [callTool_seen steady, callTool_seen h.steady]
    exact h.seen

/-! ### Messages -/

theorem serve_alike (h : Twin view own s d t e) (readings : Readings) (id : RequestId)
    (params : Option Json) (m : Method) :
    Alike view own (s.serve d readings id params m) (t.serve e readings id params m) := by
  -- a list goes by the catalog, the groups and the page size alone
  have hlist (list : Server Device → Answer) (heq : list s = list t) :
      Alike view own (s.unchanged d (list s)) (t.unchanged e (list t)) := ⟨heq, h⟩
  cases m with
  | handshake => exact handshake_alike h readings params
  | ping => exact ⟨rfl, h⟩
  | listTools => exact hlist (·.listTools (params.getD .null)) (by rw [h.same]; rfl)
  | callTool => exact callTool_alike h readings id (params.getD .null)
  | listResources => exact hlist (·.listResources (params.getD .null)) (by rw [h.same]; rfl)
  | listTemplates => exact hlist (·.listTemplates (params.getD .null)) (by rw [h.same]; rfl)
  | readResource => exact readResource_alike h (params.getD .null)
  | subscribe => exact setSubscription_alike h true (params.getD .null)
  | unsubscribe => exact setSubscription_alike h false (params.getD .null)
  | listPrompts => exact hlist (·.listPrompts (params.getD .null)) (by rw [h.same]; rfl)
  | getPrompt => exact getPrompt_alike h (params.getD .null)
  | listRoots => exact hlist (·.listRoots (params.getD .null)) (by rw [h.same]; rfl)
  | complete => exact completeArgument_alike h (params.getD .null)
  | setLevel => exact setLevel_alike h (params.getD .null)

theorem receiveRequest_alike (h : Twin view own s d t e) (readings : Readings) (id : RequestId)
    (method : String) (params : Option Json) :
    Alike view own (s.receiveRequest d readings id method params)
      (t.receiveRequest e readings id method params) := by
  have hlimiter : s.limiter = t.limiter := by rw [h.same]; rfl
  have limited (limiter : TokenBucket Float) :
      Twin view own { s with limiter } d { t with limiter } e := by
    obtain ⟨same, off, stored, steady, seen⟩ := h
    rw [same]
    exact ⟨rfl, off, stored, steady, seen⟩
  unfold Server.receiveRequest
  rw [hlimiter]
  dsimp only
  split
  · unfold Server.serveNamed
    split
    · exact (serve_alike (limited _) readings id params _).map _
    · exact ⟨rfl, limited _⟩
  · exact ⟨rfl, limited _⟩

theorem receiveNotification_alike (h : Twin view own s d t e) (readings : Readings)
    (method : String) (params : Option Json) :
    Alike view own (s.receiveNotification d readings method params)
      (t.receiveNotification e readings method params) := by
  have hconfirmed : Twin view own s.confirmHandshake d t.confirmHandshake e := by
    obtain ⟨same, off, stored, steady, seen⟩ := h
    rw [same]
    unfold Server.confirmHandshake Server.beside
    dsimp only
    split <;> exact ⟨rfl, off, stored, steady, seen⟩
  have hcancelled : Twin view own (s.cancelRequest params) d (t.cancelRequest params) e := by
    obtain ⟨same, off, stored, steady, seen⟩ := h
    rw [same]
    unfold Server.cancelRequest Server.beside
    dsimp only
    split <;> exact ⟨rfl, off, stored, steady, seen⟩
  unfold Server.receiveNotification
  split
  · exact ⟨rfl, hconfirmed⟩
  · split
    · exact ⟨rfl, hcancelled⟩
    · split
      · exact (serve_alike h readings .null params _).map _
      · exact ⟨rfl, h⟩

theorem receiveAnswer_alike (h : Twin view own s d t e) (reply : ClientReply) :
    Alike view own (s.receiveAnswer d reply) (t.receiveAnswer e reply) := by
  obtain ⟨same, off, stored, steady, seen⟩ := h
  rw [same]
  unfold Server.receiveAnswer Server.beside
  dsimp only
  split
  · exact ⟨rfl, rfl, off, stored, steady, seen⟩
  · split
    · exact ⟨rfl, rfl, off, stored, steady, seen⟩
    · split <;> exact ⟨rfl, rfl, off, stored, steady, seen⟩

theorem receive_alike (h : Twin view own s d t e) (readings : Readings) (v : Json) :
    Alike view own (s.receive d readings v) (t.receive e readings v) := by
  unfold Server.receive
  split
  · exact ⟨rfl, h⟩
  · exact (receiveRequest_alike h readings _ _ _).map _
  · exact (receiveNotification_alike h readings _ _).map _
  · exact (receiveAnswer_alike h _).map _

/-! ### Texts -/

theorem receiveAll_alike (h : Twin view own s d t e) (readings : Nat → Readings) (k : Nat)
    (values : List Json) :
    Alike view own (s.receiveAll d readings k values) (t.receiveAll e readings k values) := by
  induction values generalizing s d t e k with
  | nil => exact ⟨rfl, h⟩
  | cons v rest ih =>
    have first := receive_alike h (readings k) v
    have more := ih first.twin (k + 1)
    refine ⟨?_, more.twin⟩
    simp only [Server.receiveAll, first.value, more.value]

theorem process_alike (h : Twin view own s d t e) (readings : Nat → Readings) (text : String) :
    Alike view own (s.process d readings text) (t.process e readings text) := by
  unfold Server.process
  split
  · exact ⟨rfl, h⟩
  · unfold Server.receivePayload
    split
    · exact (receive_alike h (readings 0) _).map _
    · exact (receiveAll_alike h readings 0 _).map _

end SideBySide

/-- The texts that are sent in reply to inbound texts, one after the other. -/
def Server.replyTexts (s : Server Device) (device : Device) :
    List ((Nat → Readings) × String) → List String
  | [] => []
  | (readings, text) :: rest =>
    let step := s.process device readings text
    step.value.text :: step.server.replyTexts step.device rest

theorem replyTexts_alike {view : Device → View} {own : String → String → ToolResult}
    {s t : Server Device} {d e : Device} (h : Twin view own s d t e)
    (inbound : List ((Nat → Readings) × String)) :
    s.replyTexts d inbound = t.replyTexts e inbound := by
  induction inbound generalizing s d t e with
  | nil => rfl
  | cons first rest ih =>
    obtain ⟨readings, text⟩ := first
    have step := process_alike h readings text
    simp only [Server.replyTexts, step.value, ih step.twin]

/-- Whether results are cached makes no difference to the replies, whatever the lifetimes and the
bound. -/
theorem cache_transparent (view : Device → View) (own : String → String → ToolResult)
    (s : Server Device) (device : Device) (steady : Steady view own s.catalog s.completions)
    (lifetimes : Roster String Span) (maxEntries : Nat)
    (inbound : List ((Nat → Readings) × String)) :
    ({ s with cache := { enabled := true, lifetimes, maxEntries } } : Server Device).replyTexts
        device inbound =
      ({ s with cache := { enabled := false, lifetimes, maxEntries } } : Server Device).replyTexts
        device inbound := by
  have stored : ∀ entry ∈ ({} : Roster CallKey CacheEntry).entries,
      entry.2.result = own entry.1.tool entry.1.arguments :=
    fun entry hentry => absurd hentry List.not_mem_nil
  have beside : Twin view own
      { s with cache := { enabled := true, lifetimes, maxEntries } } device
      { s with cache := { enabled := false, lifetimes, maxEntries } } device :=
    ⟨rfl, rfl, stored, steady, rfl⟩
  exact replyTexts_alike beside inbound

/-- A tool that counts its runs on the device, and answers the same every time. -/
def countingTool : Tool Nat where
  name := "t"
  description := ""
  inputSchema := .object []
  handler := .rich fun _ runs => (.returned (.ofText "done"), runs + 1)

def countingServer : Server Nat := (Server.ofOptions {} 0).addTool countingTool

def twoCalls : List ((Nat → Readings) × String) :=
  [(fun _ => ⟨0, 0, 0, 0, ""⟩, (callOfT 1).text), (fun _ => ⟨1, 1, 1, 1, ""⟩, (callOfT 2).text)]

/-- The cache spares the tool its second run, and nothing of it shows. -/
theorem countingServer_transparent :
    let lifetimes : Roster String Span := ⟨[("t", Span.ofSeconds 60)]⟩
    let cached : Server Nat := { countingServer with cache := { enabled := true, lifetimes } }
    let uncached : Server Nat := { countingServer with cache := { enabled := false, lifetimes } }
    let runs (s : Server Nat) := (s.run 0 (twoCalls.map fun call => .inbound call.1 call.2)).device
    Steady (fun _ : Nat => ()) (fun _ _ => .ofText "done") countingServer.catalog
        countingServer.completions ∧
      runs cached = 1 ∧ runs uncached = 2 ∧
        cached.replyTexts 0 twoCalls = uncached.replyTexts 0 twoCalls := by
  intro lifetimes cached uncached runs
  have steady : Steady (fun _ : Nat => ()) (fun _ _ => .ofText "done") countingServer.catalog
      countingServer.completions := by
    refine ⟨?_, ?_, ?_, ?_⟩
    · intro name tool htool arguments context device
      have hentry := List.mem_singleton.mp (Roster.mem_of_find? htool)
      obtain rfl : tool = countingTool := congrArg Prod.snd hentry
      exact ⟨rfl, rfl⟩
    · intro uri found hfound
      cases hfound
    · intro name prompt hprompt
      cases hprompt
    · intro key typed d e _
      exact ⟨rfl, rfl⟩
  refine ⟨steady, by decide +kernel, by decide +kernel, ?_⟩
  exact cache_transparent _ _ countingServer 0 steady lifetimes 32 twoCalls

end ContextServer
