import ContextServer.Proofs.Json.Canonical
import ContextServer.Proofs.Registrations
import ContextServer.Proofs.Server.Kept

/-!
What a read finds. It is told from what the host registered and removed: the resource that was
registered last for exactly the URI, or else the first template that matches, in the order of the times
since which the templates are registered. The handler of what is found runs, and no other, also where
it fails; where nothing is found, none runs.
-/

namespace ContextServer

variable {Device : Type}

/-! ### What the host registered -/

namespace Action

/-- The change that an action makes to the resources of one URI. -/
def resourceChange? : Action Device → Option (Roster.Change String (Resource Device))
  | .call (.addResource r) => some (.put r.uri r)
  | .call (.removeResource uri) => some (.drop uri)
  | _ => none

/-- The change that an action makes to the templates. -/
def templateChange? : Action Device → Option (Roster.Change String (TemplatedResource Device))
  | .call (.addTemplate t) => some (.put t.template.text t)
  | .call (.removeTemplate template) => some (.drop template)
  | _ => none

theorem uri_of_put {a : Action Device} {uri : String} {r : Resource Device}
    (h : a.resourceChange? = some (.put uri r)) : r.uri = uri := by
  unfold resourceChange? at h
  split at h <;> cases h
  rfl

theorem text_of_put {a : Action Device} {text : String} {t : TemplatedResource Device}
    (h : a.templateChange? = some (.put text t)) : t.template.text = text := by
  unfold templateChange? at h
  split at h <;> cases h
  rfl

end Action

section Registered

variable (actions : List (Action Device))

/-- The resource of a URI, as it was registered last, unless it has been removed since. -/
def registered (uri : String) : Option (Resource Device) :=
  Roster.standing (actions.filterMap Action.resourceChange?) uri

/-- What is registered under a template's text, as it was registered last. -/
def registeredTemplate (text : String) : Option (TemplatedResource Device) :=
  Roster.standing (actions.filterMap Action.templateChange?) text

/-- The time since which a template is registered without a gap. -/
def registeredSince (text : String) : Nat :=
  Roster.lastAbsent (actions.filterMap Action.templateChange?) text

/-- What a URI leads to. -/
inductive Leads (uri : String) : Option (ResourceMatch Device) → Prop
  | static {r : Resource Device} (newest : registered actions uri = some r) :
      Leads uri (some (.static r))
  | templated {t : TemplatedResource Device} {bindings : Bindings}
      (unregistered : registered actions uri = none)
      (newest : registeredTemplate actions t.template.text = some t)
      (matched : t.template.matchUri? uri = some bindings)
      (first : ∀ text other, registeredTemplate actions text = some other →
        registeredSince actions text < registeredSince actions t.template.text →
          other.template.matchUri? uri = none) :
      Leads uri (some (.templated t bindings))
  | nothing (unregistered : registered actions uri = none)
      (unmatched : ∀ text t, registeredTemplate actions text = some t →
        t.template.matchUri? uri = none) :
      Leads uri none

end Registered

theorem text_of_registered {actions : List (Action Device)} {text : String}
    {t : TemplatedResource Device} (h : registeredTemplate actions text = some t) :
    t.template.text = text := by
  obtain ⟨a, -, hchange⟩ := List.mem_filterMap.mp (Roster.put_mem_of_standing h)
  exact Action.text_of_put hchange

theorem uri_of_registered {actions : List (Action Device)} {uri : String} {r : Resource Device}
    (h : registered actions uri = some r) : r.uri = uri := by
  obtain ⟨a, -, hchange⟩ := List.mem_filterMap.mp (Roster.put_mem_of_standing h)
  exact Action.uri_of_put hchange

/-! ### The catalog of a run -/

/-- A part of a server that every action changes as it says is told from the actions. -/
theorem run_part {α : Type} (part : Server Device → Roster String α)
    (change? : Action Device → Option (Roster.Change String α))
    (step : ∀ (s : Server Device) device a,
      part (s.act device a).server = (change? a).elim (part s) (part s).change)
    (s : Server Device) (device : Device) (actions : List (Action Device)) :
    part (s.run device actions).server = (actions.filterMap change?).foldl Roster.change (part s) := by
  induction actions generalizing s device with
  | nil => rfl
  | cons a rest ih =>
    have hrest := ih (s.act device a).server (s.act device a).device
    have hrun : (s.run device (a :: rest)).server =
        ((s.act device a).server.run (s.act device a).device rest).server := rfl
    rw [hrun, hrest, step]
    cases h : change? a with
    | none => rw [List.filterMap_cons_none h, Option.elim]
    | some c => rw [List.filterMap_cons_some h, Option.elim, List.foldl_cons]

theorem act_resources (s : Server Device) (device : Device) (a : Action Device) :
    (s.act device a).server.catalog.resources =
      a.resourceChange?.elim s.catalog.resources s.catalog.resources.change := by
  cases a with
  | inbound readings text =>
    rw [Server.act, Step.map, (s.kept_process device readings text).catalog]
    rfl
  | call c =>
    cases c with
    | log level logger data =>
      simp only [Server.act, Step.map, Server.perform, Server.flagged, Server.log]
      split <;> rfl
    | _ => rfl

theorem act_templates (s : Server Device) (device : Device) (a : Action Device) :
    (s.act device a).server.catalog.templates =
      a.templateChange?.elim s.catalog.templates s.catalog.templates.change := by
  cases a with
  | inbound readings text =>
    rw [Server.act, Step.map, (s.kept_process device readings text).catalog]
    rfl
  | call c =>
    cases c with
    | log level logger data =>
      simp only [Server.act, Step.map, Server.perform, Server.flagged, Server.log]
      split <;> rfl
    | _ => rfl

theorem catalog_ofOptions (options : ServerOptions) (now : Instant) :
    (Server.ofOptions options now : Server Device).catalog.resources = {} ∧
      (Server.ofOptions options now : Server Device).catalog.templates = {} := by
  have hroots (roots : List Root) (c : Catalog Device) :
      (roots.foldl Catalog.addRoot c).resources = c.resources ∧
        (roots.foldl Catalog.addRoot c).templates = c.templates := by
    induction roots generalizing c with
    | nil => exact ⟨rfl, rfl⟩
    | cons root rest ih => exact ih (c.addRoot root)
  exact hroots options.roots {}

/-- The catalog of a run holds what the host registered. -/
structure Holds (c : Catalog Device) (actions : List (Action Device)) : Prop where
  resources : c.resources = Roster.ofChanges (actions.filterMap Action.resourceChange?)
  templates : c.templates = Roster.ofChanges (actions.filterMap Action.templateChange?)

theorem holds_run (options : ServerOptions) (now : Instant) (device : Device)
    (actions : List (Action Device)) :
    Holds ((Server.ofOptions options now).run device actions).server.catalog actions := by
  obtain ⟨hresources, htemplates⟩ := @catalog_ofOptions Device options now
  constructor
  · have hrun := run_part (·.catalog.resources) Action.resourceChange? act_resources
      (.ofOptions options now) device actions
    rw [hresources] at hrun
    exact hrun
  · have hrun := run_part (·.catalog.templates) Action.templateChange? act_templates
      (.ofOptions options now) device actions
    rw [htemplates] at hrun
    exact hrun

section Holds

variable {c : Catalog Device} {actions : List (Action Device)} {uri : String}

theorem Holds.find? (h : Holds c actions) : c.resources.find? uri = registered actions uri := by
  rw [h.resources, Roster.find?_ofChanges]
  rfl

/-- What the catalog resolves a URI to is what the URI leads to. -/
theorem Holds.leads (h : Holds c actions) : Leads actions uri (c.resolve? uri) := by
  unfold Catalog.resolve?
  rw [h.find?, h.templates]
  cases hstatic : registered actions uri with
  | some r => exact .static hstatic
  | none =>
    dsimp only
    cases hfound : (Roster.ofChanges (actions.filterMap Action.templateChange?)).values.findSome?
        fun t => (t.template.matchUri? uri).map (ResourceMatch.templated t) with
    | none =>
      refine .nothing hstatic fun text t ht => ?_
      exact Option.map_eq_none_iff.mp (Roster.findSome?_values_eq_none_iff.mp hfound text t ht)
    | some found =>
      obtain ⟨text, t, ht, hmatch, hfirst⟩ := Roster.findSome?_values_eq_some_iff.mp hfound
      obtain ⟨bindings, hbindings, rfl⟩ := Option.map_eq_some_iff.mp hmatch
      have htext : t.template.text = text := text_of_registered ht
      subst htext
      refine .templated hstatic ht hbindings fun other older holder hlt => ?_
      exact Option.map_eq_none_iff.mp (hfirst other older holder hlt)

/-- A URI leads to nothing else. -/
theorem Holds.eq_of_leads (h : Holds c actions) {found : Option (ResourceMatch Device)}
    (hleads : Leads actions uri found) : found = c.resolve? uri := by
  unfold Catalog.resolve?
  rw [h.find?, h.templates]
  cases hleads with
  | static newest => rw [newest]
  | templated unregistered newest matched first =>
    rw [unregistered]
    dsimp only
    symm
    rw [Roster.findSome?_values_eq_some_iff]
    refine ⟨_, _, newest, by rw [matched]; rfl, fun text other hother hlt => ?_⟩
    rw [first text other hother hlt]
    rfl
  | nothing unregistered unmatched =>
    rw [unregistered]
    dsimp only
    symm
    rw [Roster.findSome?_values_eq_none_iff]
    intro text t ht
    rw [unmatched text t ht]
    rfl

end Holds

/-! ### Reading -/

/-- The handler behind what was found. -/
def ResourceMatch.run : ResourceMatch Device → OnDevice Device (Outcome String)
  | .static r => r.run
  | .templated t bindings => t.run bindings

def ResourceMatch.mimeType : ResourceMatch Device → String
  | .static r => r.card.mimeType
  | .templated t _ => t.card.mimeType

/-- The answer to a read: one content, or why there is none. -/
def readAnswer (uri mimeType : String) : Outcome String → Answer
  | .returned text => .ok (.object [("contents", .array [.object
      [("mimeType", .string mimeType), ("text", .string text), ("uri", .string uri)]])])
  | .failed e => .error (.internalError ("Resource read failed: " ++ e.message))
  | .crashed => .error (.internalError ("Resource read failed: " ++ "resource handler panicked"))

theorem canonical_contents (uri mimeType text : String) :
    Json.canonical (.object
        [("contents", .array [(⟨uri, mimeType, text⟩ : ResourceContents).toJson])]) =
      .object [("contents", .array [.object
        [("mimeType", .string mimeType), ("text", .string text), ("uri", .string uri)]])] := by
  have hmime : "mimeType" < "uri" := by decide
  have htext : ¬"text" < "mimeType" ∧ "text" < "uri" := by decide
  simp [ResourceContents.toJson, Json.canonical, Json.canonicalItems, Json.canonicalMembers,
    Json.sortMembers, Json.insertMember, hmime, htext]

/-- What was found is read by its own handler. -/
theorem ResourceMatch.read_eq {found : ResourceMatch Device} {uri : String}
    (huri : ∀ r, found = .static r → r.uri = uri) (device : Device) :
    ∃ card : ResourceCard, card.mimeType = found.mimeType ∧
      found.read uri device = (card.contents uri (found.run device).1, (found.run device).2) := by
  cases found with
  | static r =>
    refine ⟨r.card, rfl, ?_⟩
    rw [← huri r rfl]
    rfl
  | templated t bindings => exact ⟨t.card, rfl, rfl⟩

/-- One handler runs, that of what was found, and its outcome is answered. -/
theorem readResource_found {s : Server Device} {uri : String} {found : ResourceMatch Device}
    {params : Json} (named : params.stringAt? "uri" = some uri)
    (hfound : s.catalog.resolve? uri = some found)
    (huri : ∀ r, found = .static r → r.uri = uri) (device : Device) :
    s.readResource device params =
      ⟨readAnswer uri found.mimeType (found.run device).1, s, (found.run device).2, []⟩ := by
  obtain ⟨card, hmime, hread⟩ := ResourceMatch.read_eq huri device
  unfold Server.readResource
  simp only [named, hfound, hread]
  cases (found.run device).1 with
  | returned text =>
    simp only [ResourceCard.contents, Server.unchanged, readAnswer, canonical_contents, hmime]
  | failed e => rfl
  | crashed => rfl

theorem readResource_missing {s : Server Device} {uri : String} {params : Json}
    (named : params.stringAt? "uri" = some uri) (hnone : s.catalog.resolve? uri = none)
    (device : Device) :
    s.readResource device params =
      ⟨.error (.invalidParams ("Resource not found: " ++ uri)), s, device, []⟩ := by
  unfold Server.readResource
  simp only [named, hnone]
  rfl

/-- A read that is admitted runs the handler registered last for exactly the URI, or else that of the
first template that matches, with its bindings: templates stand in the order of the times since which
they are registered, each with what was registered last under it. The outcome of this handler, a
failure or a crash too, is the answer, and no other handler runs. Where the URI leads to nothing, none
runs. -/
theorem reads_resolved (options : ServerOptions) (now : Instant) (device : Device)
    (actions : List (Action Device)) (readings : Readings) {v : Json} {id : RequestId}
    {params : Option Json} {uri : String}
    (request : Message.ofJson v = .ok (.request id "resources/read" params))
    (named : (params.getD .null).stringAt? "uri" = some uri) :
    let last := (Server.ofOptions options now).run device actions
    let served := last.server.receive last.device readings v
    (last.server.limiter.acquire readings.admission).1 = true →
      ∃ found, Leads actions uri found ∧ (∀ other, Leads actions uri other → other = found) ∧
        match found with
        | none => served.device = last.device ∧
            served.value = some (.refusal id (.invalidParams ("Resource not found: " ++ uri)))
        | some found => served.device = (found.run last.device).2 ∧
            served.value = some ⟨id, readAnswer uri found.mimeType (found.run last.device).1⟩ := by
  intro last served admitted
  have holds : Holds last.server.catalog actions := holds_run options now device actions
  let limited : Server Device :=
    { last.server with limiter := (last.server.limiter.acquire readings.admission).2 }
  have hserved : served =
      (limited.readResource last.device (params.getD .null)).map fun answer => some ⟨id, answer⟩ := by
    have hreceive := last.server.receive_request last.device readings (m := .readResource) request
    simp only [admitted, if_true] at hreceive
    exact hreceive
  refine ⟨last.server.catalog.resolve? uri, holds.leads, fun _ => holds.eq_of_leads, ?_⟩
  cases hfound : last.server.catalog.resolve? uri with
  | none =>
    have hmissing := readResource_missing (s := limited) named hfound last.device
    rw [hserved, hmissing]
    exact ⟨rfl, rfl⟩
  | some found =>
    have huri : ∀ r, found = .static r → r.uri = uri := by
      rintro r rfl
      have hleads : Leads actions uri (last.server.catalog.resolve? uri) := holds.leads
      rw [hfound] at hleads
      cases hleads with
      | static newest => exact uri_of_registered newest
    have hran := readResource_found (s := limited) named hfound huri last.device
    rw [hserved, hran]
    exact ⟨rfl, rfl⟩

def deviceTemplate (text : String) (outcome : Outcome String) : TemplatedResource Unit :=
  ⟨⟨text⟩, { name := text, description := "", mimeType := "text/plain" },
    fun _ device => (outcome, device)⟩

/-- Two templates for one URI, of which the first is registered anew, and a resource that comes and
goes. -/
def overlappingTemplates : List (Action Unit) :=
  [.call (.addTemplate (deviceTemplate "dev://{a}" (.returned "old"))),
    .call (.addTemplate (deviceTemplate "dev:{b}" (.returned "other"))),
    .call (.addResource ⟨"dev://x", { name := "x", description := "", mimeType := "text/plain" },
      fun device => (.returned "own", device)⟩),
    .call (.addTemplate (deviceTemplate "dev://{a}" .crashed)),
    .call (.removeResource "dev://x")]

def readOfX : Json :=
  .object [("id", .int 1), ("jsonrpc", .string "2.0"), ("method", .string "resources/read"),
    ("params", .object [("uri", .string "dev://x")])]

theorem leads_overlapping : Leads overlappingTemplates "dev://x"
    (some (.templated (deviceTemplate "dev://{a}" .crashed) [("a", "x")])) := by
  have hfirst : registeredSince overlappingTemplates
      (deviceTemplate "dev://{a}" .crashed).template.text = 0 := by rfl
  refine .templated (by rfl) (by rfl) (by decide) fun text other _ hlt => ?_
  rw [hfirst] at hlt
  exact absurd hlt (Nat.not_lt_zero _)

/-- The handler that was registered last for the first template crashes, and no other one runs. -/
theorem overlappingTemplates_resolved :
    let last := (Server.ofOptions {} 0).run () overlappingTemplates
    let served := last.server.receive () ⟨0, 0, 0, 0, ""⟩ readOfX
    (last.server.limiter.acquire 0).1 = true ∧
      Message.ofJson readOfX = .ok (.request (.number (.whole 1)) "resources/read"
        (some (.object [("uri", .string "dev://x")]))) ∧
      served.value = some (.refusal (.number (.whole 1))
        (.internalError ("Resource read failed: " ++ "resource handler panicked"))) := by
  intro last served
  have request : Message.ofJson readOfX = .ok (.request (.number (.whole 1)) "resources/read"
      (some (.object [("uri", .string "dev://x")]))) := by rfl
  have named : Json.stringAt? (.object [("uri", .string "dev://x")]) "uri" = some "dev://x" := by rfl
  obtain ⟨found, -, honly, hanswer⟩ := reads_resolved {} 0 () overlappingTemplates ⟨0, 0, 0, 0, ""⟩
    request named rfl
  obtain rfl := honly _ leads_overlapping
  exact ⟨rfl, request, hanswer.2⟩

end ContextServer
