import ContextServer.Proofs.Json.Canonical
import ContextServer.Proofs.Json.Extension
import ContextServer.Proofs.Server.Replies

/-!
A batch is its messages in a row. A text that joins the texts of objects to an array is handled as
these are one after the other: it leaves the same server and device and tells the same outside, and
what is sent for it joins what is sent for them.
-/

namespace ContextServer

variable {Device : Type}

/-! ### The text of an array -/

namespace Json

theorem writeItems_eq_joined (items : List Json) :
    writeItems items [] = joinedMore (items.map fun v => v.text.toList) := by
  induction items with
  | nil => rfl
  | cons item rest ih =>
    rw [writeItems, ih, write_eq_text_append]
    rfl

/-- The text of an array joins the texts of its items. -/
theorem text_array (items : List Json) :
    (array items).text = "[" ++ ",".intercalate (items.map text) ++ "]" := by
  apply String.toList_inj.mp
  rw [text, String.toList_ofList, String.toList_append, String.toList_append,
    String.toList_intercalate, List.map_map]
  cases items with
  | nil => rfl
  | cons item rest =>
    rw [write, writeItems_eq_joined, write_eq_text_append, List.map_cons, List.append_assoc]
    have hjoined := intercalate_comma item.text.toList (rest.map (String.toList ∘ text))
    have hcomma : ",".toList = [','] := rfl
    have hclose : "]".toList = [']'] := rfl
    rw [hcomma, hclose]
    exact congrArg ('[' :: ·) hjoined.symm

end Json

/-! ### Texts in a row -/

/-- Handles texts one after the other; the `k`-th comes with the `k`-th readings. -/
def Server.processEach (s : Server Device) (device : Device) (readings : Nat → Readings) :
    Nat → List String → Step Device (List String)
  | _, [] => ⟨[], s, device, []⟩
  | k, text :: rest =>
    let first := s.process device (fun _ => readings k) text
    let more := first.server.processEach first.device readings (k + 1) rest
    ⟨first.value.text :: more.value, more.server, more.device, first.events ++ more.events⟩

/-- Joins what is sent for several texts: an array of what is not empty, or nothing if all is empty. -/
def joinSent (sent : List String) : String :=
  let said := sent.filter fun text => !text.isEmpty
  if said.isEmpty then "" else "[" ++ ",".intercalate said ++ "]"

theorem Output.text_ofBatch_joined (replies : List Reply) :
    (Output.ofBatch replies).text =
      if (replies.map Reply.text).isEmpty then ""
      else "[" ++ ",".intercalate (replies.map Reply.text) ++ "]" := by
  rw [Output.text_ofBatch, Json.text_array, List.map_map]
  cases replies <;> rfl

theorem filter_text_ofMessage (reply : Option Reply) :
    [(Output.ofMessage reply).text].filter (fun text => !text.isEmpty) =
      reply.toList.map Reply.text := by
  cases reply with
  | none => rfl
  | some r =>
    have hsaid : r.text.isEmpty = false := by simpa using r.text_ne_empty
    simp [Output.ofMessage, Output.text, hsaid]

/-- One after the other, texts of objects are handled as their messages are in a row. -/
theorem processEach_eq_receiveAll (s : Server Device) (device : Device) (readings : Nat → Readings)
    (k : Nat) {texts : List String} {objects : List (List (String × Json))}
    (h : List.Forall₂ (fun text members => Json.ofWritten? text = some (.object members)) texts
      objects) :
    (s.processEach device readings k texts).map (List.filter fun text => !text.isEmpty) =
      (s.receiveAll device readings k (objects.map fun members => (Json.object members).canonical)).map
        (List.map Reply.text) := by
  induction h generalizing s device k with
  | nil => rfl
  | @cons text members texts objects hread _ ih =>
    have hfirst := process_object s device (fun _ => readings k) hread
    have hrest := ih (s.receive device (readings k) (Json.object members).canonical).server
      (s.receive device (readings k) (Json.object members).canonical).device (k + 1)
    simp only [Step.map, Step.mk.injEq] at hrest
    obtain ⟨hvalue, hserver, hdevice, hevents⟩ := hrest
    rw [List.map_cons, Server.processEach, Server.receiveAll, hfirst]
    simp only [Step.map, Step.mk.injEq, hserver, hdevice, hevents, and_self, and_true]
    rw [← List.singleton_append, List.filter_append, filter_text_ofMessage, hvalue, List.map_append]

theorem process_joined (s : Server Device) (device : Device) (readings : Nat → Readings)
    {texts : List String} {objects : List (List (String × Json))}
    (h : List.Forall₂ (fun text members => Json.ofWritten? text = some (.object members) ∧
      (Json.object members).nesting ≤ 126) texts objects) :
    s.process device readings ("[" ++ ",".intercalate texts ++ "]") =
      (s.receiveAll device readings 0 (objects.map fun members => (Json.object members).canonical)).map
        Output.ofBatch := by
  have hwritten : Json.ofWritten? ("[" ++ ",".intercalate texts ++ "]") =
      some (.array (objects.map Json.object)) := by
    refine Json.ofWritten?_joined ?_
    rw [List.forall₂_map_right_iff]
    exact h.imp fun text members hmembers => ⟨hmembers.1, Nat.lt_succ_of_le hmembers.2⟩
  have hpayload : Payload.ofText? ("[" ++ ",".intercalate texts ++ "]") =
      some (.batch (objects.map fun members => (Json.object members).canonical)) := by
    unfold Payload.ofText? Json.ofText?
    rw [hwritten, Option.map_some, Json.canonical, Json.canonicalItems_eq_map, List.map_map]
    rfl
  rw [Server.process, hpayload]
  rfl

/-- A batch of objects is handled as its objects are one after the other, and what is sent for it
joins what is sent for them. The bound on nesting is one below the reader's, and a member that a later
one of its key replaces counts. -/
theorem process_batch_eq_processEach (s : Server Device) (device : Device)
    (readings : Nat → Readings) {texts : List String}
    (objects : ∀ text ∈ texts, ∃ members, Json.ofWritten? text = some (.object members) ∧
      (Json.object members).nesting ≤ 126) :
    (s.process device readings ("[" ++ ",".intercalate texts ++ "]")).map Output.text =
      (s.processEach device readings 0 texts).map joinSent := by
  obtain ⟨members, h⟩ : ∃ members, List.Forall₂ (fun text members =>
      Json.ofWritten? text = some (.object members) ∧ (Json.object members).nesting ≤ 126)
        texts members := by
    induction texts with
    | nil => exact ⟨[], .nil⟩
    | cons text rest ih =>
      obtain ⟨first, hfirst⟩ := objects text List.mem_cons_self
      obtain ⟨more, hmore⟩ := ih fun t ht => objects t (List.mem_cons_of_mem text ht)
      exact ⟨first :: more, .cons hfirst hmore⟩
  have heach := processEach_eq_receiveAll s device readings 0 (h.imp fun _ _ hread => hread.1)
  simp only [Step.map, Step.mk.injEq] at heach
  obtain ⟨hvalue, hserver, hdevice, hevents⟩ := heach
  rw [process_joined s device readings h]
  simp only [Step.map, Step.mk.injEq, hserver, hdevice, hevents, and_self, and_true]
  rw [Output.text_ofBatch_joined, joinSent, hvalue]

/-- A handshake, its confirmation among blanks, and a request that names itself twice. -/
def greeting : List String :=
  ["\x7b\"jsonrpc\":\"2.0\",\"id\":1,\"method\":\"initialize\"\x7d",
    " \x7b\"jsonrpc\" : \"2.0\",\"method\":\"notifications/initialized\"\x7d\n",
    "\x7b\"jsonrpc\":\"2.0\",\"id\":2,\"id\":\"two\",\"method\":\"ping\"\x7d"]

theorem greeting_batch_eq_processEach :
    (∀ text ∈ greeting, ∃ members, Json.ofWritten? text = some (.object members) ∧
      (Json.object members).nesting ≤ 126) ∧
    ((Server.ofOptions {} 0 : Server Unit).process () (fun k => ⟨0, 0, 0, k, "s"⟩)
        ("[" ++ ",".intercalate greeting ++ "]")).map Output.text =
      ((Server.ofOptions {} 0 : Server Unit).processEach () (fun k => ⟨0, 0, 0, k, "s"⟩) 0
        greeting).map joinSent := by
  have objects : ∀ text ∈ greeting, ∃ members, Json.ofWritten? text = some (.object members) ∧
      (Json.object members).nesting ≤ 126 := by
    simp only [greeting, List.forall_mem_cons]
    exact ⟨⟨[("jsonrpc", .string "2.0"), ("id", .number (.whole 1)), ("method", .string "initialize")],
        rfl, by decide⟩,
      ⟨[("jsonrpc", .string "2.0"), ("method", .string "notifications/initialized")], rfl, by decide⟩,
      ⟨[("jsonrpc", .string "2.0"), ("id", .number (.whole 2)), ("id", .string "two"),
        ("method", .string "ping")], rfl, by decide⟩, by simp⟩
  exact ⟨objects, process_batch_eq_processEach _ () (fun k => ⟨0, 0, 0, k, "s"⟩) objects⟩

end ContextServer
