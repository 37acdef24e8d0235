import ContextServer.Proofs.Decimal.Writing
import ContextServer.Proofs.Server.Unanswered

/-!
Messages whose method is none. A method member that is no string is routed by its own text, and one
that is a string by its characters; what is served is the name of a method and nothing else. No text
of a value other than a string is such a name: values are written with a sign, a digit or a bracket
in front, and the three words that they are written as name nothing.
-/

namespace ContextServer

/-- The texts that the server acts on when they name a method. -/
def Message.actedOn : List String :=
  Method.all.map Method.name ++ ["notifications/initialized", "notifications/cancelled"]

/-- The values that are written as words. -/
def Json.words : List String := ["null", "true", "false"]

/-! ### Texts of values -/

namespace Json

/-- What a value that is no string and no word starts with. -/
def Opening (c : Char) : Prop := c = '-' ∨ c.isDigit = true ∨ c = '[' ∨ c = '{'

instance (c : Char) : Decidable (Opening c) :=
  inferInstanceAs (Decidable (c = '-' ∨ c.isDigit = true ∨ c = '[' ∨ c = '{'))

theorem opening_of_write_number {n : Number} {c : Char} {cs : List Char}
    (head : n.write = c :: cs) : Opening c := by
  obtain ⟨numeral, hreads, -⟩ := numeralText_write n
  have hread := hreads [] Closed.nil
  rw [head, List.append_nil] at hread
  have hhead := readNumeral_head hread c
  by_contra hother
  simp only [Opening, not_or, Bool.not_eq_true] at hother
  exact hhead hother.1 hother.2.1 rfl

/-- A value other than a string is written as a word, or with a sign, a digit or a bracket in front. -/
theorem mem_words_or_opening {v : Json} (notString : v.string? = none) {c : Char} {cs : List Char}
    (head : v.text.toList = c :: cs) : v.text ∈ words ∨ Opening c := by
  rw [text, String.toList_ofList] at head
  cases v with
  | null => exact .inl (by decide)
  | bool b => cases b <;> exact .inl (by decide)
  | string s => cases notString
  | number n =>
    rw [write, List.append_nil] at head
    exact .inr (opening_of_write_number head)
  | array items =>
    rw [write_array] at head
    obtain ⟨rfl, -⟩ := List.cons.inj head
    exact .inr (by decide)
  | object members =>
    rw [write_object] at head
    obtain ⟨rfl, -⟩ := List.cons.inj head
    exact .inr (by decide)

/-- No value other than a string is written as a name that the server acts on. -/
theorem text_not_mem_actedOn {v : Json} (notString : v.string? = none) :
    v.text ∉ Message.actedOn := by
  have hnames : ∀ name ∈ Message.actedOn, name ∉ words ∧
      (name.toList.head?.any fun c => !decide (Opening c)) = true := by decide
  intro hmem
  obtain ⟨hword, hhead⟩ := hnames _ hmem
  obtain ⟨c, hc, hopening⟩ := (Option.any_eq_true _ _).mp hhead
  obtain ⟨cs, hcs⟩ := List.head?_eq_some_iff.mp hc
  rcases mem_words_or_opening notString hcs with h | h
  · exact hword h
  · simp [h] at hopening

end Json

/-- A method member whose text is acted on is the string of that text. -/
theorem eq_string_of_methodText_mem {method : Json} (h : methodText method ∈ Message.actedOn) :
    method = .string (methodText method) := by
  cases method with
  | string name => rfl
  | _ => exact absurd h (Json.text_not_mem_actedOn rfl)

/-! ### Foreign methods -/

/-- A message whose method member is not the name of a method. -/
structure Json.ForeignCall (v method : Json) : Prop where
  tagged : v.member? "jsonrpc" = some (.string protocolTag)
  named : v.member? "method" = some method
  foreign : ∀ m : Method, method ≠ .string m.name

namespace Json.ForeignCall

variable {v method : Json}

theorem ofName?_eq_none (h : v.ForeignCall method) : Method.ofName? (methodText method) = none := by
  cases hfound : Method.ofName? (methodText method) with
  | none => rfl
  | some m =>
    have hname : m.name = methodText method := Method.name_of_ofName? hfound
    have hmem : methodText method ∈ Message.actedOn := by
      rw [← hname]
      exact List.mem_append_left _ (List.mem_map_of_mem m.mem_all)
    have hstring := eq_string_of_methodText_mem hmem
    rw [← hname] at hstring
    exact absurd hstring (h.foreign m)

theorem request (h : v.ForeignCall method) {raw : Json} {id : RequestId}
    (given : v.member? "id" = some raw) (usable : RequestId.ofJson? raw = some id) :
    Message.ofJson v = .ok (.request id (methodText method) (v.member? "params")) := by
  have hid : Message.readId v = .ok (some id) := by simp only [Message.readId, given, usable]
  simp [Message.ofJson, members?_isNone_of_member? h.tagged, hid, h.tagged, Json.string?, h.named]

theorem notification (h : v.ForeignCall method) (nameless : v.member? "id" = none) :
    Message.ofJson v = .ok (.notification (methodText method) (v.member? "params")) := by
  simp [Message.ofJson, members?_isNone_of_member? h.tagged, Message.readId_none nameless, h.tagged,
    Json.string?, h.named]

end Json.ForeignCall

variable {Device : Type}

theorem Server.receiveRequest_foreign (s : Server Device) (device : Device) (readings : Readings)
    (id : RequestId) {method : String} (foreign : Method.ofName? method = none)
    (params : Option Json) :
    s.receiveRequest device readings id method params =
      ⟨⟨id, .error (if (s.limiter.acquire readings.admission).1 then .methodNotFound method
        else .rateLimited)⟩,
        { s with limiter := (s.limiter.acquire readings.admission).2 }, device, []⟩ := by
  simp only [Server.receiveRequest, Server.serveNamed, foreign]
  split <;> rfl

/-- A message with a method member that is not the name of a method, be it a string or any other
value, comes to no method. As a request it is told that there is no such method, or that the limit is
reached, and costs a token at the most; as a notification, the two of their own apart, it does
nothing. -/
theorem foreign_method_unserved (s : Server Device) (device : Device) (readings : Readings)
    {v method : Json} (call : v.ForeignCall method) :
    Method.ofName? (methodText method) = none ∧
    (∀ raw id, v.member? "id" = some raw → RequestId.ofJson? raw = some id →
      s.receive device readings v =
        ⟨some ⟨id, .error (if (s.limiter.acquire readings.admission).1 then
            .methodNotFound (methodText method) else .rateLimited)⟩,
          { s with limiter := (s.limiter.acquire readings.admission).2 }, device, []⟩) ∧
    (v.member? "id" = none → method ≠ .string "notifications/initialized" →
      method ≠ .string "notifications/cancelled" →
      s.receive device readings v = ⟨none, s, device, []⟩) := by
  have hforeign := call.ofName?_eq_none
  refine ⟨hforeign, fun raw id given usable => ?request, fun nameless ready cancel => ?notification⟩
  case request =>
    simp only [Server.receive, call.request given usable,
      s.receiveRequest_foreign device readings id hforeign]
    rfl
  case notification =>
    have hother {name : String} (hname : name ∈ Message.actedOn) (h : method ≠ .string name) :
        methodText method ≠ name := by
      rintro rfl
      exact h (eq_string_of_methodText_mem hname)
    have hready := hother (by decide) ready
    have hcancel := hother (by decide) cancel
    simp only [Server.receive, call.notification nameless, Server.receiveNotification,
      if_neg hready, if_neg hcancel, hforeign]
    rfl

/-- A message whose method is no string, with an identifier or without. -/
def oddMessage (id : List (String × Json)) (method : Json) : Json :=
  .object (id ++ [("jsonrpc", .string "2.0"), ("method", method)])

/-- A method inside an array is not found, and a notification of `null` is passed over. -/
theorem oddMessages_unserved :
    let s : Server Unit := .ofOptions {} 0
    let readings : Readings := ⟨0, 0, 0, 0, ""⟩
    let request := oddMessage [("id", .int 1)] (.array [.string "ping"])
    let notice := oddMessage [] .null
    request.ForeignCall (.array [.string "ping"]) ∧ notice.ForeignCall .null ∧
      s.receive () readings request =
        ⟨some ⟨.number (.whole 1), .error (.methodNotFound "[\"ping\"]")⟩, s, (), []⟩ ∧
      s.receive () readings notice = ⟨none, s, (), []⟩ := by
  intro s readings request notice
  have hrequest : request.ForeignCall (.array [.string "ping"]) := ⟨rfl, rfl, nofun⟩
  have hnotice : notice.ForeignCall .null := ⟨rfl, rfl, nofun⟩
  obtain ⟨-, hanswered, -⟩ := foreign_method_unserved s () readings hrequest
  obtain ⟨-, -, hpassed⟩ := foreign_method_unserved s () readings hnotice
  exact ⟨hrequest, hnotice, hanswered (.int 1) (.number (.whole 1)) rfl rfl,
    hpassed rfl nofun nofun⟩

end ContextServer
