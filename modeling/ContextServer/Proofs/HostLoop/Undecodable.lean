import ContextServer.Proofs.HostLoop.Conversation
import ContextServer.Proofs.Server.Replies

/-!
Input of any octets. The lines before the first that is not UTF-8 are those of a text, and the loop goes
on through them: a line that is no payload is answered by a parse error, and the next one is heard. At
the first line that is not UTF-8 the loop stops without an answer, and no later line is heard.
-/

namespace ContextServer

variable {Device : Type}

namespace HostLoop

/-! ### Lines of octets, cut between two -/

theorem splitLines_cons (b : UInt8) (bytes : List UInt8) :
    splitLines (b :: bytes) =
      if b = 10 then [b] :: splitLines bytes
      else match splitLines bytes with
        | [] => [[b]]
        | line :: more => (b :: line) :: more := rfl

/-- Lines in a row that are cut between two of them are still lines. -/
theorem splitLines_cut {bytes : List UInt8} {before after : List (List UInt8)}
    (h : splitLines bytes = before ++ after) :
    splitLines before.flatten = before ∧ splitLines after.flatten = after := by
  induction bytes generalizing before after with
  | nil =>
    obtain ⟨rfl, rfl⟩ := List.append_eq_nil_iff.mp h.symm
    exact ⟨rfl, rfl⟩
  | cons b rest ih =>
    cases before with
    | nil => exact ⟨rfl, by rw [← show _ = after from h, flatten_splitLines]⟩
    | cons first before =>
      rw [splitLines_cons] at h
      split at h
      · rename_i hb
        obtain ⟨rfl, hmore⟩ := List.cons.inj h
        obtain ⟨hbefore, hafter⟩ := ih hmore
        refine ⟨?_, hafter⟩
        rw [List.flatten_cons, List.singleton_append, splitLines_cons, if_pos hb, hbefore]
      · rename_i hb
        cases hlines : splitLines rest with
        | nil =>
          rw [hlines] at h
          obtain ⟨rfl, hmore⟩ := List.cons.inj h
          obtain ⟨rfl, rfl⟩ := List.append_eq_nil_iff.mp hmore.symm
          simp [splitLines, hb]
        | cons line more =>
          -- the first line is the one that `b` lengthens
          rw [hlines] at h
          obtain ⟨rfl, hmore⟩ := List.cons.inj h
          have hcut : splitLines rest = (line :: before) ++ after :=
            hlines.trans (congrArg (line :: ·) hmore)
          obtain ⟨hbefore, hafter⟩ := ih hcut
          refine ⟨?_, hafter⟩
          rw [List.flatten_cons] at hbefore ⊢
          rw [List.cons_append, splitLines_cons, if_neg hb, hbefore]

/-! ### The lines that are text -/

def isText (line : List UInt8) : Bool := (Utf8.decode line).isOk

theorem isText_iff {line : List UInt8} : isText line ↔ ∃ text, line = Utf8.encode text := by
  unfold isText
  cases h : Utf8.decode line with
  | ok text => simp [Except.isOk, Except.toBool, Utf8.decode_eq_ok_iff.mp h]
  | error fault =>
    simp only [Except.isOk, Except.toBool, Bool.false_eq_true, false_iff, not_exists]
    intro text htext
    cases h.symm.trans (Utf8.decode_eq_ok_iff.mpr htext)

theorem flatten_isText {lines : List (List UInt8)} (h : ∀ line ∈ lines, isText line) :
    ∃ text, lines.flatten = Utf8.encode text := by
  induction lines with
  | nil => exact ⟨"", rfl⟩
  | cons line rest ih =>
    obtain ⟨first, hfirst⟩ := isText_iff.mp (h line List.mem_cons_self)
    obtain ⟨more, hmore⟩ := ih fun l hl => h l (List.mem_cons_of_mem _ hl)
    exact ⟨first ++ more, by rw [List.flatten_cons, hfirst, hmore, Utf8.encode_append]⟩

/-- The lines from the first that is no text on. -/
def unread (input : List UInt8) : List (List UInt8) := (splitLines input).dropWhile isText

/-- The text that is read: that of the lines before the first that is no text. -/
def readText (input : List UInt8) : String :=
  match Utf8.decode ((splitLines input).takeWhile isText).flatten with
  | .ok text => text
  | .error _ => ""

theorem encode_readText (input : List UInt8) :
    Utf8.encode (readText input) = ((splitLines input).takeWhile isText).flatten := by
  have hread : ∀ line ∈ (splitLines input).takeWhile isText, isText line := fun _ hline =>
    List.mem_takeWhile_imp hline
  obtain ⟨text, htext⟩ := flatten_isText hread
  rw [readText, htext, Utf8.decode_eq_ok_iff.mpr rfl]

/-- The lines of any octets are those of the text that is read, and then what is left unread. -/
theorem splitLines_eq_read (input : List UInt8) :
    splitLines input = splitLines (Utf8.encode (readText input)) ++ unread input := by
  have hwhole : splitLines input = (splitLines input).takeWhile isText ++ unread input :=
    List.takeWhile_append_dropWhile.symm
  rw [encode_readText, (splitLines_cut hwhole).1, ← hwhole]

theorem not_isText_of_unread {input line : List UInt8} {more : List (List UInt8)}
    (h : unread input = line :: more) : isText line = false := by
  have hfirst := List.head?_dropWhile_not isText (splitLines input)
  rw [← unread, h, List.head?_cons] at hfirst
  simpa using hfirst

/-! ### The loop over any octets -/

theorem handleLines_append (h : HostLoop Device) (readings : Nat → Nat → Readings) (k : Nat)
    (before after : List (List UInt8)) :
    h.handleLines readings k (before ++ after) =
      (h.handleLines readings k before).handleLines readings (k + before.length) after := by
  induction before generalizing h k with
  | nil => rfl
  | cons line rest ih =>
    have hlength : k + 1 + rest.length = k + (line :: rest).length := by
      rw [List.length_cons]
      omega
    rw [List.cons_append, handleLines, ih, hlength, handleLines]

theorem handleLines_of_stopped {h : HostLoop Device} (hs : h.stopped.isSome)
    (readings : Nat → Nat → Readings) (k : Nat) (lines : List (List UInt8)) :
    h.handleLines readings k lines = h := by
  induction lines generalizing k with
  | nil => rfl
  | cons line rest ih => rw [handleLines, handleLine, if_pos hs, ih]

/-- How a loop ends over lines of which the first is no text: it stops there, unless there is none. -/
inductive Ending : List (List UInt8) → Option LoopError → Prop
  | input : Ending [] none
  | undecodable {line : List UInt8} {more : List (List UInt8)} {fault : Utf8.Fault}
    (decode : Utf8.decode line = .error fault) : Ending (line :: more) (some (.notText fault))

/-- Whatever line is no text stops the loop where it stands. -/
theorem Running.handleLines_undecodable {h : HostLoop Device} (hr : h.Running)
    (readings : Nat → Nat → Readings) (k : Nat) {line : List UInt8} {fault : Utf8.Fault}
    (hline : Utf8.decode line = .error fault) (rest : List (List UInt8)) :
    h.handleLines readings k (line :: rest) = { h with stopped := some (.notText fault) } := by
  have hstop : h.handleLine (readings k) line = { h with stopped := some (.notText fault) } := by
    rw [HostLoop.handleLine, hr.stopped, hline]
    rfl
  rw [HostLoop.handleLines, hstop]
  exact handleLines_of_stopped rfl readings (k + 1) rest

/-- From its start the loop holds the talk over the text that is read, and then it ends. -/
theorem serve_text (s : Server Device) (device : Device) (readings : Nat → Nat → Readings)
    (input : List UInt8) {talk : Step Device (List String)}
    (htalk : s.inOrder (Server.converse readings) device
      (Line.spoken 0 (Line.ofText (readText input))) = talk) :
    let ended := ({ server := s, device } : HostLoop Device).serve readings input
    Ending (unread input) ended.stopped ∧
      ended.sink.bytes = talk.value.flatMap (fun message => Utf8.encode (message ++ "\n")) ∧
      ended.server = talk.server ∧ ended.device = talk.device ∧ ended.events = talk.events := by
  let host : HostLoop Device := { server := s, device }
  have hrunning : host.Running := ⟨rfl, rfl⟩
  have hwhole : ∀ l ∈ Line.ofText (readText input), '\n' ∉ l.content := fun _ hl =>
    Line.newline_not_mem hl
  have hread : host.handleLines readings 0 (splitLines (Utf8.encode (readText input))) =
      host.after talk := by
    rw [splitLines_encode, ← htalk]
    exact hrunning.handleLines readings 0 hwhole
  have hbytes := host.sink.bytes_foldl_put talk.value
  intro ended
  have hended : ended = (host.after talk).handleLines readings
      (0 + (splitLines (Utf8.encode (readText input))).length) (unread input) := by
    rw [← hread, ← handleLines_append, ← splitLines_eq_read]
    rfl
  rw [hended]
  cases hunread : unread input with
  | nil => exact ⟨.input, hbytes, rfl, rfl, rfl⟩
  | cons line more =>
    have hnot := not_isText_of_unread hunread
    cases hdecode : Utf8.decode line with
    | ok text =>
      rw [isText, hdecode] at hnot
      cases hnot
    | error fault =>
      rw [(hrunning.after talk).handleLines_undecodable readings _ hdecode more]
      exact ⟨.undecodable hdecode, hbytes, rfl, rfl, rfl⟩

end HostLoop

/-! ### Lines that are no payload -/

theorem Server.converse_unparseable (readings : Nat → Nat → Readings) (s : Server Device)
    (device : Device) {line : String × Nat} (h : Payload.ofText? line.1 = none) :
    s.converse readings device line =
      let told := s.drainNotifications
      let asked := told.2.drainRequests
      ⟨Reply.parseError.text :: (told.1 ++ asked.1), asked.2, device, []⟩ := by
  have hanswer : Reply.parseError.text ≠ "" := Reply.text_ne_empty _
  simp only [Server.converse, Server.process, h, Output.text, if_neg hanswer, List.cons_append,
    List.nil_append]

/-- A talk goes on after a line that is no payload, as if the server had only been drained. -/
theorem Server.inOrder_unparseable (readings : Nat → Nat → Readings) (s : Server Device)
    (device : Device) (before after : List (String × Nat)) {line : String × Nat}
    (h : Payload.ofText? line.1 = none) :
    s.inOrder (Server.converse readings) device (before ++ line :: after) =
      let heard := s.inOrder (Server.converse readings) device before
      let told := heard.server.drainNotifications
      let asked := told.2.drainRequests
      let more := asked.2.inOrder (Server.converse readings) heard.device after
      ⟨heard.value ++ Reply.parseError.text :: (told.1 ++ asked.1) ++ more.value, more.server,
        more.device, heard.events ++ more.events⟩ := by
  simp only [Server.inOrder_append, Server.inOrder, Server.converse_unparseable readings _ _ h,
    List.append_assoc, List.nil_append, List.cons_append]

/-- Over any octets the loop holds the talk over the lines before the first that is no text, and stops
at that line, if there is one, with its fault. In the talk every line that is no payload is answered by
a parse error and changes nothing, and the lines after it are heard. -/
theorem serve_stops_at_undecodable (s : Server Device) (device : Device)
    (readings : Nat → Nat → Readings) (input : List UInt8) :
    let host : HostLoop Device := { server := s, device }
    let ended := host.serve readings input
    let text := HostLoop.readText input
    let unread := HostLoop.unread input
    let lines := Line.spoken 0 (Line.ofText text)
    let talk := s.inOrder (Server.converse readings) device lines
    HostLoop.splitLines input = HostLoop.splitLines (Utf8.encode text) ++ unread ∧
    HostLoop.Ending unread ended.stopped ∧
    ended.sink.bytes = talk.value.flatMap (fun message => Utf8.encode (message ++ "\n")) ∧
    ended.server = talk.server ∧ ended.device = talk.device ∧ ended.events = talk.events ∧
    ∀ before line after, lines = before ++ line :: after → Payload.ofText? line.1 = none →
      let heard := s.inOrder (Server.converse readings) device before
      let told := heard.server.drainNotifications
      let asked := told.2.drainRequests
      let more := asked.2.inOrder (Server.converse readings) heard.device after
      talk = ⟨heard.value ++ Reply.parseError.text :: (told.1 ++ asked.1) ++ more.value,
        more.server, more.device, heard.events ++ more.events⟩ := by
  intro host ended text unread lines talk
  obtain ⟨ending, bytes, server, device', events⟩ :=
    HostLoop.serve_text s device readings input rfl
  refine ⟨HostLoop.splitLines_eq_read input, ending, bytes, server, device', events, ?_⟩
  intro before line after hcut hline
  have htalk := s.inOrder_unparseable readings device before after hline
  rw [← hcut] at htalk
  exact htalk

/-- A line that is no payload, one that is no text, and one that would be a ping. -/
def brokenInput : List UInt8 :=
  Utf8.encode "x\n" ++ [0xFF, 10] ++
    Utf8.encode "\x7b\"jsonrpc\":\"2.0\",\"id\":1,\"method\":\"ping\"\x7d\n"

theorem brokenInput_stops :
    let host : HostLoop Unit := { server := .ofOptions {} 0, device := () }
    let ended := host.serve (fun _ _ => ⟨0, 0, 0, 0, "s"⟩) brokenInput
    Line.spoken 0 (Line.ofText (HostLoop.readText brokenInput)) = [] ++ ("x", 0) :: [] ∧
      Payload.ofText? "x" = none ∧
      ended.stopped = some (.notText (.illFormed 0 1)) ∧
      ended.sink.bytes = Utf8.encode (Reply.parseError.text ++ "\n") := by
  intro host ended
  have hlines : Line.spoken 0 (Line.ofText (HostLoop.readText brokenInput)) =
      [] ++ ("x", 0) :: [] := by
    have hread : HostLoop.readText brokenInput = "x\n" := by decide +kernel
    rw [hread]
    decide +kernel
  have hparse : Payload.ofText? "x" = none := by rfl
  obtain ⟨-, ending, hbytes, -, -, -, answered⟩ := serve_stops_at_undecodable (.ofOptions {} 0) ()
    (fun _ _ => ⟨0, 0, 0, 0, "s"⟩) brokenInput
  have htalk := answered [] ("x", 0) [] hlines hparse
  refine ⟨hlines, hparse, ?_, ?_⟩
  · have hunread : HostLoop.unread brokenInput = [[0xFF, 10],
        Utf8.encode "\x7b\"jsonrpc\":\"2.0\",\"id\":1,\"method\":\"ping\"\x7d\n"] := by decide +kernel
    have hfault : Utf8.decode [0xFF, 10] = .error (.illFormed 0 1) := by rfl
    rw [hunread] at ending
    generalize ended.stopped = stopped at ending ⊢
    cases ending with
    | undecodable hdecode =>
      cases hfault.symm.trans hdecode
      rfl
  · rw [htalk] at hbytes
    exact hbytes

end ContextServer
