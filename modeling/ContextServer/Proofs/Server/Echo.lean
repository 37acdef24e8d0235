import ContextServer.Proofs.Decimal.Reading
import ContextServer.Proofs.Decimal.Shortest
import ContextServer.Proofs.Envelope.RoundTrip
import ContextServer.Proofs.Json.Spelling
import ContextServer.Proofs.Server.Replies

/-!
The identifier of a reply against that of its request, both as their texts spell them. A string,
`null` and a whole number that 64 bits hold come back as the scalar they are. Any other number is taken
for a float, and what comes back is a number of seventeen digits that rounds to that float.
-/

namespace ContextServer

variable {Device : Type}

open Json Binary64

/-- The scalar that an identifier comes back as. -/
inductive Echo : Literal → Scalar → Prop where
  | null : Echo .null .null
  | text (s : String) : Echo (.text s) (.text s)
  | whole {n : Numeral} (fits : n.Fits) : Echo (.number n) (.number n.value)
  | rounded {n : Numeral} {x : Float} {q : ℚ} (fails : ¬n.Fits) (taken : n.TakenFor x)
    (rounds : RoundsTo q (if n.negative then -x else x)) (digits : Decimal.HasDigits 17 q) :
    Echo (.number n) (.number q)

/-- The scalar that the text of an identifier denotes. -/
def RequestId.printed : RequestId → Scalar
  | .number n => .number n.printed
  | .text s => .text s
  | .null => .null

theorem literalText_writeString (s : String) : LiteralText (.text s) (writeString s []) := by
  intro rest _
  rw [← writeString_append, List.nil_append, writeString, readLiteral, readChars_string]
  rfl

theorem RequestId.ofText?_text (id : RequestId) :
    ∃ l, Literal.ofText? id.toJson.text = some l ∧ l.scalar = id.printed := by
  cases id with
  | null => exact ⟨.null, LiteralText.null.ofText?, rfl⟩
  | text s => exact ⟨.text s, (literalText_writeString s).ofText?, rfl⟩
  | number number =>
    obtain ⟨n, htext, hvalue⟩ := numeralText_write number
    refine ⟨.number n, ?_, congrArg Scalar.number hvalue⟩
    have hread := htext.literal.ofText?
    rw [← List.append_nil number.write] at hread
    exact hread

/-- What the reader keeps for a literal is written as the literal's echo. -/
theorem echo_printed {l : Literal} {id : RequestId} (h : l.value? = some id.toJson) :
    Echo l id.printed := by
  cases l with
  | null =>
    cases id <;> cases h
    exact .null
  | text s =>
    cases id <;> cases h
    exact .text s
  | number n =>
    obtain ⟨number, hnumber, hid⟩ := Option.map_eq_some_iff.mp h
    cases id <;> cases hid
    by_cases hfits : n.Fits
    · obtain ⟨i, hwhole, hvalue⟩ := n.number?_of_fits hfits
      obtain rfl := Option.some.inj (hnumber.symm.trans hwhole)
      rw [RequestId.printed, Number.printed, hvalue]
      exact .whole hfits
    · obtain ⟨x, htaken, rfl⟩ := n.takenFor_of_number? hfits hnumber
      have hfinite : (if n.negative then -x else x).isFinite = true := by
        split
        · exact isFinite_neg htaken.isFinite
        · exact htaken.isFinite
      obtain ⟨hrounds, hdigits⟩ := Number.printed_real hfinite
      exact .rounded hfits htaken hrounds hdigits

/-! ### Requests -/

theorem readId_of_request {v : Json} {id : RequestId} {method : String} {params : Option Json}
    (h : Message.ofJson v = .ok (.request id method params)) :
    Message.readId v = .ok (some id) := by
  unfold Message.ofJson at h
  split at h
  · cases h
  · split at h
    · cases h
    · rename_i found hid
      dsimp only at h
      split at h
      · cases h
      · split at h
        · split at h <;> cases h
        · split at h
          · cases h
            exact hid
          · cases h

theorem member?_of_readId {v : Json} {id : RequestId} (h : Message.readId v = .ok (some id)) :
    v.member? "id" = some id.toJson := by
  unfold Message.readId at h
  split at h
  · cases h
  · rename_i raw hraw
    split at h
    · rename_i hfound
      cases h
      rw [hraw, RequestId.toJson_of_ofJson? hfound]
    · cases h

theorem eq_toJson_of_canonical {v : Json} {id : RequestId} (h : v.canonical = id.toJson) :
    v = id.toJson := by
  cases v <;> cases id <;> simp_all [canonical, RequestId.toJson]

theorem ofText_of_ofWritten? {text : String} {members : List (String × Json)}
    (h : ofWritten? text = some (.object members)) :
    Message.ofText text = Message.ofJson (Json.object members).canonical := by
  unfold Message.ofText Payload.ofText? ofText?
  rw [h, Option.map_some, canonical]

/-- A text that is taken as a request is that of an object with the identifier as a member. -/
theorem object_of_request {text : String} {id : RequestId} {method : String} {params : Option Json}
    (h : Message.ofText text = .ok (.request id method params)) :
    ∃ members, ofWritten? text = some (.object members) ∧
      members.reverse.lookup "id" = some id.toJson ∧
      Message.ofJson (Json.object members).canonical = .ok (.request id method params) := by
  obtain ⟨members, hwritten⟩ : ∃ members, ofWritten? text = some (.object members) := by
    unfold Message.ofText Payload.ofText? ofText? at h
    cases hwritten : ofWritten? text with
    | none =>
      rw [hwritten] at h
      cases h
    | some v =>
      rw [hwritten, Option.map_some] at h
      cases v with
      | object members => exact ⟨members, rfl⟩
      | array items =>
        rw [canonical] at h
        cases h
      | _ => cases h
  rw [ofText_of_ofWritten? hwritten] at h
  have hid := member?_of_readId (readId_of_request h)
  rw [member?_canonical_object] at hid
  obtain ⟨v, hv, hcanonical⟩ := Option.map_eq_some_iff.mp hid
  exact ⟨members, hwritten, by rw [hv, eq_toJson_of_canonical hcanonical], h⟩

/-- The identifier of a reply, as its text spells it, is the echo of the request's. -/
theorem process_echoes_id (s : Server Device) (device : Device) (readings : Nat → Readings)
    {text : String} {id : RequestId} {method : String} {params : Option Json}
    (request : Message.ofText text = .ok (.request id method params)) :
    ∃ spelling literal echo answer outcome,
      spelling? text "id" = some spelling ∧ Literal.ofText? spelling = some literal ∧
      (s.process device readings text).value.text =
        (Json.object [("jsonrpc", .string protocolTag), ("id", echo), outcome]).text ∧
      outcome.1 ≠ "id" ∧ Literal.ofText? echo.text = some answer ∧ Echo literal answer.scalar := by
  obtain ⟨members, hwritten, hlookup, hmessage⟩ := object_of_request request
  have hcontainer : id.toJson.isContainer = false := by cases id <;> rfl
  have hbool (b : Bool) : id.toJson ≠ .bool b := by cases id <;> simp [RequestId.toJson]
  obtain ⟨spelling, literal, hspelling, hliteral, hvalue⟩ :=
    spelling?_of_lookup hwritten hlookup hcontainer hbool
  obtain ⟨answer, hanswer, hscalar⟩ := id.ofText?_text
  have hreply := process_object s device readings hwritten
  rw [Server.receive, hmessage] at hreply
  have hid := receiveRequest_id s device (readings 0) id method params
  refine ⟨spelling, literal, id.toJson, answer,
    (s.receiveRequest device (readings 0) id method params).value.outcomeMember, hspelling, hliteral,
    ?_, ?_, hanswer, ?_⟩
  · rw [hreply]
    simp only [Step.map, Output.ofMessage, Output.text]
    rw [Reply.text, Reply.toJson, hid]
  · unfold Reply.outcomeMember
    split <;> simp
  · rw [hscalar]
    exact echo_printed hvalue

/-- A ping under the identifier `2^64 + 1`. -/
def widePing : String :=
  "\x7b\"jsonrpc\":\"2.0\",\"id\":18446744073709551617,\"method\":\"ping\"\x7d"

def wideId : RequestId :=
  .number (.real (Float.ofNat 1844674407370955161 * Float.ofScientific 1 false 1))

theorem widePing_echoed :
    Message.ofText widePing = .ok (.request wideId "ping" none) ∧
    ∃ spelling literal echo answer outcome,
      spelling? widePing "id" = some spelling ∧ Literal.ofText? spelling = some literal ∧
      ((Server.ofOptions {} 0 : Server Unit).process () (fun _ => ⟨0, 0, 0, 0, ""⟩)
          widePing).value.text =
        (Json.object [("jsonrpc", .string protocolTag), ("id", echo), outcome]).text ∧
      outcome.1 ≠ "id" ∧ Literal.ofText? echo.text = some answer ∧ Echo literal answer.scalar := by
  have hwritten : ofWritten? widePing = some (.object
      [("jsonrpc", .string "2.0"), ("id", wideId.toJson), ("method", .string "ping")]) := by rfl
  have request : Message.ofText widePing = .ok (.request wideId "ping" none) := by
    rw [ofText_of_ofWritten? hwritten]
    apply Message.ofJson_request
    · rfl
    all_goals
      rw [member?_canonical_object]
      rfl
  exact ⟨request, process_echoes_id _ () (fun _ => ⟨0, 0, 0, 0, ""⟩) request⟩

/-- What comes back is the float `2^64`, in seventeen digits: another number. -/
example : ((Server.ofOptions {} 0 : Server Unit).process () (fun _ => ⟨0, 0, 0, 0, ""⟩)
    widePing).value.text =
      "\x7b\"jsonrpc\":\"2.0\",\"id\":1.8446744073709552e+19,\"result\":\x7b\x7d\x7d" := by
  decide +kernel

end ContextServer
