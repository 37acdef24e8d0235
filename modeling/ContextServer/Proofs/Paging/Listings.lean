import ContextServer.Proofs.Json.Canonical
import ContextServer.Proofs.Paging.Cursors
import ContextServer.Proofs.Server.Admission

/-!
Listings in pages. A page is a part of the listing that is given without a page size, and a client
that passes every cursor on gets all of it, in as many requests as there are pages. Other messages may
come in on the way, as long as the host changes nothing.
-/

namespace ContextServer

variable {Device : Type}

/-! ### What is listed -/

/-- The member of a listing that has the entries. -/
def Method.listKey : Method → String
  | .listTools => "tools"
  | .listResources => "resources"
  | .listTemplates => "resourceTemplates"
  | .listPrompts => "prompts"
  | .listRoots => "roots"
  | _ => ""

/-- The entries that a method lists. -/
def Server.offers (s : Server Device) : Method → List Json
  | .listTools => s.visibleTools.map Tool.toJson
  | .listResources => s.catalog.resources.values.map Resource.toJson
  | .listTemplates => s.catalog.templates.values.map TemplatedResource.toJson
  | .listPrompts => s.catalog.prompts.values.map Prompt.toJson
  | .listRoots => s.catalog.roots.values.map Root.toJson
  | _ => []

/-- A message is a request for a listing, with a cursor if it has one that is a string. -/
def Method.Asks (m : Method) (v : Json) (id : RequestId) (cursor : Option String) : Prop :=
  ∃ params, Message.ofJson v = .ok (.request id m.name params) ∧
    (params.getD .null).stringAt? "cursor" = cursor

/-- The page that a reply gives, with the entries under a key. -/
def Reply.page? (r : Reply) (key : String) : Option (Page Json) :=
  match r.outcome with
  | .ok result => ((result.member? key).bind Json.items?).map fun items =>
      ⟨items, result.stringAt? "nextCursor"⟩
  | .error _ => none

/-- The listing methods differ in their entries and in the key of these. -/
theorem serve_listing (s : Server Device) (device : Device) (readings : Readings) (id : RequestId)
    (params : Option Json) {m : Method} (lists : m.lists = true) :
    s.serve device readings id params m =
      s.unchanged device (s.listPage (params.getD .null) m.listKey (s.offers m)) := by
  cases m with
  | listTools | listResources | listTemplates | listPrompts | listRoots => rfl
  | _ => cases lists

theorem Method.listKey_ne_nextCursor (m : Method) : m.listKey ≠ "nextCursor" := by
  cases m <;> decide

theorem Kept.offers {s t : Server Device} (h : Kept s t) (m : Method) : t.offers m = s.offers m := by
  cases m with
  | listTools | listResources | listTemplates | listPrompts | listRoots =>
    simp only [Server.offers, Server.visibleTools, h.catalog, h.groups]
  | _ => rfl

theorem kept_run_inbounds (s : Server Device) (device : Device)
    (texts : List ((Nat → Readings) × String)) :
    Kept s (s.run device (Action.inbounds texts)).server := by
  induction texts generalizing s device with
  | nil => exact Kept.refl s
  | cons inbound rest ih =>
    have hfirst := s.kept_process device inbound.1 inbound.2
    have hrest := ih (s.process device inbound.1 inbound.2).server
      (s.process device inbound.1 inbound.2).device
    exact hfirst.trans hrest

/-! ### One answer -/

/-- A page as a result, its entries under a key. -/
def Page.toJson (page : Page Json) (key : String) : Json :=
  Json.canonical (.object ((key, .array page.items)
    :: optionalMember "nextCursor" (page.next.map .string)))

theorem Page.page?_toJson (page : Page Json) {key : String} (hkey : key ≠ "nextCursor")
    (id : RequestId) :
    Reply.page? ⟨id, .ok (page.toJson key)⟩ key =
      some ⟨page.items.map Json.canonical, page.next⟩ := by
  obtain ⟨items, next⟩ := page
  have hitems : (Page.toJson ⟨items, next⟩ key).member? key =
      some (.array (items.map Json.canonical)) := by
    rw [Page.toJson, Json.member?_canonical_object]
    cases next <;> simp [optionalMember, Json.lookup_cons_ite, hkey, Json.canonical,
      Json.canonicalItems_eq_map]
  have hnext : (Page.toJson ⟨items, next⟩ key).member? "nextCursor" = next.map .string := by
    rw [Page.toJson, Json.member?_canonical_object]
    cases next <;> simp [optionalMember, Json.lookup_cons_ite, hkey.symm, Json.canonical]
  simp only [Reply.page?, hitems, Json.stringAt?, Json.field, hnext]
  cases next <;> rfl

/-- A request for a listing that is admitted gets a page, or its cursor is refused. -/
theorem receive_listing {s : Server Device} {m : Method} (lists : m.lists = true) {v : Json}
    {id : RequestId} {cursor : Option String} (asks : m.Asks v id cursor) {readings : Readings}
    (admitted : (s.limiter.acquire readings.admission).1 = true) (device : Device) :
    (s.receive device readings v).value = some ⟨id,
      match Page.ofList (s.offers m) s.pageSize cursor with
      | .error e => .error (.invalidParams e.message)
      | .ok page => .ok (page.toJson m.listKey)⟩ := by
  obtain ⟨params, request, rfl⟩ := asks
  have hreceive := s.receive_request device readings request
  simp only [admitted, if_true, serve_listing _ _ _ _ _ lists] at hreceive
  rw [hreceive]
  rfl

/-- The page at a cursor is a part of what there is. -/
theorem receive_page {s t : Server Device} (kept : Kept s t) {m : Method} (lists : m.lists = true)
    (paged : 0 < s.pageSize) {v : Json} {id : RequestId} {cursor : Option String}
    (asks : m.Asks v id cursor) {o : Nat} (decodes : Page.Decodes cursor o) {readings : Readings}
    (admitted : (t.limiter.acquire readings.admission).1 = true) (device : Device) :
    ∃ reply, (t.receive device readings v).value = some reply ∧ reply.page? m.listKey =
      some (Page.slice ((s.offers m).map Json.canonical) s.pageSize o) := by
  have hvalue := receive_listing lists asks admitted device
  rw [kept.offers m, kept.pageSize, Page.ofList_of_decodes paged decodes] at hvalue
  refine ⟨_, hvalue, ?_⟩
  rw [Page.slice_map]
  exact Page.page?_toJson _ m.listKey_ne_nextCursor id

/-- Without a page size a request for a listing gets all of it, whatever its cursor. -/
theorem receive_whole {s : Server Device} {m : Method} (lists : m.lists = true)
    (unpaged : s.pageSize = 0) {v : Json} {id : RequestId} {cursor : Option String}
    (asks : m.Asks v id cursor) {readings : Readings}
    (admitted : (s.limiter.acquire readings.admission).1 = true) (device : Device) :
    ∃ reply, (s.receive device readings v).value = some reply ∧
      reply.page? m.listKey = some ⟨(s.offers m).map Json.canonical, none⟩ := by
  have hvalue := receive_listing lists asks admitted device
  rw [unpaged, Page.ofList, if_pos rfl] at hvalue
  exact ⟨_, hvalue, Page.page?_toJson _ m.listKey_ne_nextCursor id⟩

theorem receive_limited {s : Server Device} {m : Method} {v : Json} {id : RequestId}
    {cursor : Option String} (asks : m.Asks v id cursor) {readings : Readings}
    (refused : (s.limiter.acquire readings.admission).1 = false) (device : Device) :
    (s.receive device readings v).value = some (.refusal id .rateLimited) := by
  obtain ⟨params, request, -⟩ := asks
  have hreceive := s.receive_request device readings request
  simp only [refused, Bool.false_eq_true, if_false] at hreceive
  rw [hreceive]

/-! ### Walks -/

/-- One request of a walk: the texts that come in before it, its readings, and the message that asks
for a cursor. -/
structure Visit where
  before : List ((Nat → Readings) × String)
  readings : Readings
  request : Option String → Json

def Visit.made (visit : Visit) (s : Server Device) (device : Device) (cursor : Option String) :
    Step Device (Option Reply) :=
  let met := s.run device (Action.inbounds visit.before)
  met.server.receive met.device visit.readings (visit.request cursor)

/-- The replies to a walk through a listing. Every request passes on the cursor of the reply before
it, and a reply without one ends the walk. -/
def Server.walk (s : Server Device) (device : Device) (key : String) :
    List Visit → Option String → List Reply
  | [], _ => []
  | visit :: rest, cursor =>
    let made := visit.made s device cursor
    match made.value with
    | none => []
    | some reply =>
      reply :: match (reply.page? key).bind Page.next with
        | none => []
        | some next => made.server.walk made.device key rest (some next)

theorem kept_made (visit : Visit) (s : Server Device) (device : Device) (cursor : Option String) :
    Kept s (visit.made s device cursor).server :=
  (kept_run_inbounds s device visit.before).trans (Server.kept_receive _ _ visit.readings _)

/-- What a walk from an offset gives: as many pages as are needed, which hold all that is behind the
offset, and of which the last one names no other. -/
def Walked (replies : List Reply) (key : String) (whole : List Json) (size o : Nat) : Prop :=
  ∃ pages : List (Page Json), replies.map (fun reply => reply.page? key) = pages.map some ∧
    pages.length = Page.number (whole.length - o) size ∧ pages.flatMap Page.items = whole.drop o ∧
    pages.getLast?.bind Page.next = none

section

variable {reply : Reply} {replies : List Reply} {key : String} {whole : List Json} {size o : Nat}
  (paged : 0 < size)

include paged

theorem Walked.last (behind : whole.length ≤ o + size)
    (hpage : reply.page? key = some ⟨(whole.drop o).take size, none⟩) :
    Walked [reply] key whole size o := by
  refine ⟨[⟨(whole.drop o).take size, none⟩], ?_, ?_, ?_, rfl⟩
  · rw [List.map_singleton, hpage, List.map_singleton]
  · rw [Page.number_of_le paged (by omega), List.length_singleton]
  · rw [List.flatMap_singleton, List.take_of_length_le]
    rw [List.length_drop]
    omega

theorem Walked.more {next : Option String} (ahead : o + size < whole.length)
    (hpage : reply.page? key = some ⟨(whole.drop o).take size, next⟩)
    (rest : Walked replies key whole size (o + size)) :
    Walked (reply :: replies) key whole size o := by
  obtain ⟨pages, hreplies, hlength, hitems, hlast⟩ := rest
  have hsome : pages ≠ [] := by
    rintro rfl
    have hpositive := Page.number_pos (whole.length - (o + size)) size
    rw [← hlength] at hpositive
    exact absurd hpositive (Nat.lt_irrefl 0)
  refine ⟨⟨(whole.drop o).take size, next⟩ :: pages, ?_, ?_, ?_, ?_⟩
  · rw [List.map_cons, List.map_cons, hpage, hreplies]
  · have hahead : size < whole.length - o := by omega
    rw [List.length_cons, hlength, Page.number_of_lt paged hahead, Nat.sub_sub]
  · rw [List.flatMap_cons, hitems, ← List.drop_drop, List.take_append_drop]
  · rw [List.getLast?_cons_of_ne_nil hsome, hlast]

end

/-- A visit finds the page at its cursor, unless it is refused. -/
theorem made_page {s t : Server Device} (kept : Kept s t) {m : Method} (lists : m.lists = true)
    (paged : 0 < s.pageSize) {visit : Visit} {id : RequestId} {cursor : Option String}
    (asks : m.Asks (visit.request cursor) id cursor) {o : Nat} (decodes : Page.Decodes cursor o)
    (device : Device) :
    ∃ reply, (visit.made t device cursor).value = some reply ∧ (reply.isLimited = false →
      reply.page? m.listKey = some (Page.slice ((s.offers m).map Json.canonical) s.pageSize o)) := by
  let met := t.run device (Action.inbounds visit.before)
  have hmet : Kept s met.server := kept.trans (kept_run_inbounds t device visit.before)
  cases hadmitted : (met.server.limiter.acquire visit.readings.admission).1 with
  | false =>
    refine ⟨_, receive_limited asks hadmitted met.device, ?_⟩
    intro hserved
    cases hserved
  | true =>
    obtain ⟨reply, hvalue, hpage⟩ := receive_page hmet lists paged asks decodes hadmitted met.device
    exact ⟨reply, hvalue, fun _ => hpage⟩

/-- A walk that is let through gives what is behind the offset that it starts at. -/
theorem walked {s t : Server Device} (kept : Kept s t) {m : Method} (lists : m.lists = true)
    (paged : 0 < s.pageSize) (fits : (s.offers m).length ≤ Range64.maxUnsigned) (device : Device)
    {visits : List Visit}
    (asks : ∀ visit ∈ visits, ∀ cursor, ∃ id, m.Asks (visit.request cursor) id cursor)
    {cursor : Option String} {o : Nat} (decodes : Page.Decodes cursor o)
    (enough : Page.number ((s.offers m).length - o) s.pageSize ≤ visits.length)
    (admitted : ∀ reply ∈ t.walk device m.listKey visits cursor, reply.isLimited = false) :
    Walked (t.walk device m.listKey visits cursor) m.listKey ((s.offers m).map Json.canonical)
      s.pageSize o := by
  have hlength : ((s.offers m).map Json.canonical).length = (s.offers m).length := List.length_map _
  generalize hwhole : (s.offers m).map Json.canonical = whole at *
  rw [← hlength] at fits enough
  -- every request but the last moves the offset on by a page, and `enough` counts the pages left
  induction visits generalizing t device cursor o with
  | nil =>
    have hpositive := Page.number_pos (whole.length - o) s.pageSize
    exact absurd (Nat.lt_of_lt_of_le hpositive enough) (Nat.lt_irrefl 0)
  | cons visit rest ih =>
    obtain ⟨id, hasks⟩ := asks visit List.mem_cons_self cursor
    obtain ⟨reply, hvalue, hpage⟩ := made_page kept lists paged hasks decodes device
    rw [Server.walk] at admitted ⊢
    simp only [hvalue] at admitted ⊢
    have hslice := hpage (admitted reply List.mem_cons_self)
    rw [hwhole, Page.slice_eq fits] at hslice
    by_cases hmore : o + s.pageSize < whole.length
    · rw [if_pos hmore] at hslice
      simp only [hslice, Option.bind_some] at admitted ⊢
      have hcursor : Page.Decodes (some (toString (o + s.pageSize))) (o + s.pageSize) :=
        .numeral (Page.numeral_toString (by omega))
      have hnumber : Page.number (whole.length - o) s.pageSize =
          Page.number (whole.length - (o + s.pageSize)) s.pageSize + 1 := by
        rw [Page.number_of_lt paged (by omega), Nat.sub_sub]
      refine Walked.more paged hmore hslice ?_
      refine ih (kept.trans (kept_made visit t device cursor)) _
        (fun v hv => asks v (List.mem_cons_of_mem _ hv)) hcursor
        (fun r hr => admitted r (List.mem_cons_of_mem _ hr)) ?_
      rw [hnumber, List.length_cons] at enough
      exact Nat.le_of_succ_le_succ enough
    · rw [if_neg hmore] at hslice
      simp only [hslice, Option.bind_some]
      exact Walked.last paged (by omega) hslice

/-- The pages of a listing make up what is listed without a page size. From no cursor or the empty
one, a walk takes as many requests as there are pages, and gives every entry once and in order. A
numeral leads to the part of the list behind its offset, with a cursor that leads on as long as entries
remain, and any other text is an error. A list in memory is never longer than 64 bits can count. -/
theorem listings_paged {s : Server Device} {m : Method} (lists : m.lists = true)
    (paged : 0 < s.pageSize) (fits : (s.offers m).length ≤ Range64.maxUnsigned) (device : Device) :
    let n := (s.offers m).length
    let answer (readings : Readings) (v : Json) := (s.receive device readings v).value
    let unpaged : Server Device := { s with pageSize := 0 }
    ∃ whole : List Json, whole.length = n ∧
      (∀ v id cursor readings, m.Asks v id cursor →
        (s.limiter.acquire readings.admission).1 = true →
          ∃ reply, (unpaged.receive device readings v).value = some reply ∧
            reply.page? m.listKey = some ⟨whole, none⟩) ∧
      (∀ visits start, (start = none ∨ start = some "") →
        (∀ visit ∈ visits, ∀ cursor, ∃ id, m.Asks (visit.request cursor) id cursor) →
        max 1 ((n + s.pageSize - 1) / s.pageSize) ≤ visits.length →
        (∀ reply ∈ s.walk device m.listKey visits start, reply.isLimited = false) →
          ∃ pages : List (Page Json),
            (s.walk device m.listKey visits start).map (fun reply => reply.page? m.listKey) =
              pages.map some ∧
            pages.length = max 1 ((n + s.pageSize - 1) / s.pageSize) ∧
            pages.flatMap Page.items = whole ∧ pages.getLast?.bind Page.next = none) ∧
      (∀ v id cursor o readings, m.Asks v id cursor → Page.Decodes cursor o →
        (s.limiter.acquire readings.admission).1 = true →
          ∃ reply next, answer readings v = some reply ∧
            reply.page? m.listKey = some ⟨(whole.drop o).take s.pageSize, next⟩ ∧
            (next.isSome = true ↔ o + s.pageSize < n) ∧
            ∀ text, next = some text → ∃ o', o < o' ∧ Page.Numeral text o') ∧
      ∀ v id text readings, m.Asks v id (some text) → (∀ o, ¬Page.Decodes (some text) o) →
        (s.limiter.acquire readings.admission).1 = true →
          answer readings v =
            some (.refusal id (.invalidParams ("Invalid cursor: " ++ text))) := by
  intro n answer unpaged
  refine ⟨(s.offers m).map Json.canonical, List.length_map _, ?whole, ?walks, ?parts, ?errors⟩
  case whole =>
    intro v id cursor readings asks admitted
    exact receive_whole (s := unpaged) lists rfl asks admitted device
  case walks =>
    intro visits start hstart asks enough admitted
    have decodes : Page.Decodes start 0 := by
      rcases hstart with rfl | rfl
      · exact .none
      · exact .empty
    obtain ⟨pages, hreplies, hlength, hitems, hlast⟩ :=
      walked (Kept.refl s) lists paged fits device asks decodes enough admitted
    rw [List.length_map] at hlength
    exact ⟨pages, hreplies, hlength, hitems, hlast⟩
  case parts =>
    intro v id cursor o readings asks decodes admitted
    have hlength : ((s.offers m).map Json.canonical).length = n := List.length_map _
    have hfits : ((s.offers m).map Json.canonical).length ≤ Range64.maxUnsigned := hlength ▸ fits
    rw [← hlength]
    obtain ⟨reply, hvalue, hpage⟩ :=
      receive_page (Kept.refl s) lists paged asks decodes admitted device
    exact ⟨reply, _, hvalue, hpage, Page.isSome_next_slice hfits _ o,
      fun text => Page.numeral_next_slice hfits paged⟩
  case errors =>
    intro v id text readings asks undecodable admitted
    have hvalue := receive_listing lists asks admitted device
    rw [Page.ofList_of_not_decodes paged undecodable] at hvalue
    exact hvalue

def listOfRootsAt (cursor : Option String) : Json :=
  .object [("id", .int 1), ("jsonrpc", .string "2.0"), ("method", .string "roots/list"),
    ("params", .object (optionalMember "cursor" (cursor.map .string)))]

theorem asks_listOfRootsAt (cursor : Option String) :
    Method.listRoots.Asks (listOfRootsAt cursor) (.number (.whole 1)) cursor := by
  cases cursor <;> exact ⟨_, rfl, rfl⟩

def threeRoots : Server Unit :=
  .ofOptions
    { pageSize := 2, roots := [⟨"file:///a", "a"⟩, ⟨"file:///b", "b"⟩, ⟨"file:///c", "c"⟩] } 0

def twoVisits : List Visit :=
  [⟨[], ⟨0, 0, 0, 0, ""⟩, listOfRootsAt⟩, ⟨[], ⟨1, 1, 1, 1, ""⟩, listOfRootsAt⟩]

/-- Three entries on pages of two take two requests, and a plus sign is no obstacle. -/
theorem threeRoots_paged :
    ∃ whole : List Json, whole.length = 3 ∧
      (∃ pages : List (Page Json), pages.length = 2 ∧ pages.flatMap Page.items = whole ∧
        (threeRoots.walk () "roots" twoVisits none).map (fun reply => reply.page? "roots") =
          pages.map some) ∧
      ∃ reply, reply.page? "roots" = some ⟨whole.drop 2, none⟩ ∧
        (threeRoots.receive () ⟨0, 0, 0, 0, ""⟩ (listOfRootsAt (some "+2"))).value = some reply := by
  have asks : ∀ visit ∈ twoVisits, ∀ cursor,
      ∃ id, Method.listRoots.Asks (visit.request cursor) id cursor := by
    intro visit hvisit cursor
    simp only [twoVisits, List.mem_cons, List.not_mem_nil, or_false] at hvisit
    rcases hvisit with rfl | rfl <;> exact ⟨_, asks_listOfRootsAt cursor⟩
  have admitted : ∀ reply ∈ threeRoots.walk () "roots" twoVisits none, reply.isLimited = false := by
    have hall : (threeRoots.walk () "roots" twoVisits none).all (fun reply => !reply.isLimited) =
        true := by rfl
    simpa using hall
  have decodes : Page.Decodes (some "+2") 2 :=
    .numeral ⟨⟨['2'], .inr rfl, by decide, List.forall_mem_singleton.mpr rfl, rfl⟩, by decide⟩
  obtain ⟨whole, hlength, -, hwalks, hparts, -⟩ :=
    listings_paged (s := threeRoots) (m := .listRoots) rfl (by decide) (by decide) ()
  obtain ⟨pages, hreplies, hnumber, hitems, -⟩ :=
    hwalks twoVisits none (.inl rfl) asks (by decide) admitted
  obtain ⟨reply, next, hreply, hpage, hnext, -⟩ := hparts _ _ _ _ ⟨0, 0, 0, 0, ""⟩
    (asks_listOfRootsAt (some "+2")) decodes rfl
  have hthree : whole.length = 3 := hlength
  have hrest : (whole.drop 2).take threeRoots.pageSize = whole.drop 2 :=
    List.take_of_length_le (by rw [List.length_drop, hthree]; decide)
  obtain rfl : next = none := by
    cases next with
    | none => rfl
    | some text => exact absurd (hnext.mp rfl) (by decide)
  rw [hrest] at hpage
  exact ⟨whole, hthree, ⟨pages, hnumber, hitems, hreplies⟩, reply, hpage, hreply⟩

end ContextServer
