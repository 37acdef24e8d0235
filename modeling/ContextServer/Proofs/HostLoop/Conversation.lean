import ContextServer.Proofs.HostLoop.Lines
import ContextServer.Proofs.Server.Run

/-!
The host loop as a conversation. Said without octets, output or stops: each line that is not blank is
answered, and what is queued then is said after the answer. Over an output that takes everything, the
loop does just that with the octets of any text, and at its end it has not stopped.
-/

namespace ContextServer

variable {Device : Type}

/-! ### What is said -/

/-- The lines that are not blank, each with its number among all lines, counted from `k`. -/
def Line.spoken (k : Nat) (lines : List Line) : List (String × Nat) :=
  ((lines.map message).zipIdx k).filter fun line => trimmed line.1.toList ≠ []

/-- What is said to a line: the answer, if there is one, the notifications that are queued then, and
the requests that are. -/
def Server.converse (readings : Nat → Nat → Readings) (s : Server Device) (device : Device)
    (line : String × Nat) : Step Device (List String) :=
  let answered := s.process device (readings line.2) line.1
  let told := answered.server.drainNotifications
  let asked := told.2.drainRequests
  let answer := answered.value.text
  ⟨(if answer = "" then [] else [answer]) ++ told.1 ++ asked.1, asked.2, answered.device,
    answered.events⟩

/-- Nothing waits to be sent. -/
structure Server.Drained (s : Server Device) : Prop where
  notifications : s.notifier.queue = []
  samplings : s.sampling.outgoing = []
  elicitations : s.elicitation.outgoing = []

theorem Server.drained_converse (readings : Nat → Nat → Readings) (s : Server Device)
    (device : Device) (line : String × Nat) : (s.converse readings device line).server.Drained :=
  ⟨rfl, rfl, rfl⟩

/-! ### Output without end -/

def Sink.put (k : Sink) (message : String) : Sink :=
  { k with chunks := (Utf8.encode message ++ [10]) :: k.chunks }

theorem Sink.room_foldl_put (k : Sink) (messages : List String) :
    (messages.foldl put k).room = k.room := by
  induction messages generalizing k with
  | nil => rfl
  | cons message rest ih => exact ih (k.put message)

theorem Sink.bytes_foldl_put (k : Sink) (messages : List String) :
    (messages.foldl put k).bytes =
      k.bytes ++ messages.flatMap fun message => Utf8.encode (message ++ "\n") := by
  induction messages generalizing k with
  | nil => simp
  | cons message rest ih =>
    have hput : (k.put message).bytes = k.bytes ++ Utf8.encode (message ++ "\n") := by
      have hend : Utf8.encode "\n" = [10] := by decide
      simp only [put, bytes, Utf8.encode_append, hend, List.reverse_cons, List.flatten_append,
        List.flatten_singleton]
    rw [List.foldl_cons, ih, hput, List.flatMap_cons, List.append_assoc]

namespace HostLoop

/-- The loop goes on, and its output takes everything. -/
structure Running (h : HostLoop Device) : Prop where
  stopped : h.stopped = none
  room : h.sink.room = none

/-- The loop when a talk is over: the messages of the talk are written. -/
def after (h : HostLoop Device) (talk : Step Device (List String)) : HostLoop Device :=
  { h with
    server := talk.server
    device := talk.device
    events := h.events ++ talk.events
    sink := talk.value.foldl Sink.put h.sink }

theorem Running.after {h : HostLoop Device} (hr : h.Running) (talk : Step Device (List String)) :
    (h.after talk).Running :=
  ⟨hr.stopped, (h.sink.room_foldl_put talk.value).trans hr.room⟩

theorem Running.writeLine {h : HostLoop Device} (hr : h.Running) (message : String) :
    h.writeLine message = { h with sink := h.sink.put message } := by
  obtain ⟨server, device, ⟨chunks, room⟩, events, stopped⟩ := h
  obtain ⟨rfl, rfl⟩ : stopped = none ∧ room = none := ⟨hr.stopped, hr.room⟩
  rfl

theorem Running.writeLines {h : HostLoop Device} (hr : h.Running) (messages : List String) :
    h.writeLines messages = { h with sink := messages.foldl Sink.put h.sink } := by
  induction messages generalizing h with
  | nil => rfl
  | cons message rest ih =>
    have hput : ({ h with sink := h.sink.put message } : HostLoop Device).Running :=
      ⟨hr.stopped, hr.room⟩
    have hrest := ih hput
    rw [HostLoop.writeLines, List.foldl_cons, hr.writeLine]
    exact hrest

theorem Running.flush {h : HostLoop Device} (hr : h.Running) :
    h.flush =
      let told := h.server.drainNotifications
      let asked := told.2.drainRequests
      { h with server := asked.2, sink := (told.1 ++ asked.1).foldl Sink.put h.sink } := by
  obtain ⟨server, device, sink, events, stopped⟩ := h
  obtain ⟨rfl, hroom⟩ : stopped = none ∧ sink.room = none := ⟨hr.stopped, hr.room⟩
  have htelling : HostLoop.Running ⟨server.drainNotifications.2, device, sink, events, none⟩ :=
    ⟨rfl, hroom⟩
  have hasking : HostLoop.Running ⟨server.drainNotifications.2.drainRequests.2, device,
      server.drainNotifications.1.foldl Sink.put sink, events, none⟩ :=
    ⟨rfl, (sink.room_foldl_put _).trans hroom⟩
  simp only [HostLoop.flush, Option.isSome_none, Bool.false_eq_true, if_false, htelling.writeLines,
    hasking.writeLines, List.foldl_append]

theorem Running.handleText {h : HostLoop Device} (hr : h.Running) (readings : Nat → Nat → Readings)
    {text : String} (hsome : trimmed text.toList ≠ []) (k : Nat) :
    h.handleText (readings k) text = h.after (h.server.converse readings h.device (text, k)) := by
  have hblank : isBlankText text = false := by
    rw [isBlankText_eq, decide_eq_false hsome]
  simp only [HostLoop.handleText, hblank, Bool.false_eq_true, if_false]
  let step := h.server.process h.device (readings k) text
  have hanswered : ({ h with
      server := step.server, device := step.device, events := h.events ++ step.events } :
        HostLoop Device).Running := ⟨hr.stopped, hr.room⟩
  have hput : ({ h with
      server := step.server, device := step.device, events := h.events ++ step.events
      sink := h.sink.put step.value.text } : HostLoop Device).Running := ⟨hr.stopped, hr.room⟩
  -- the answer goes out before the queues are looked at, and only if there is one
  by_cases hsilent : step.value.text = ""
  · have hempty : step.value.text.isEmpty = true := by rw [hsilent]; rfl
    rw [hempty, if_pos rfl, hanswered.flush]
    simp only [HostLoop.after, Server.converse, step, hsilent, if_true, List.nil_append]
  · have hsaid : step.value.text.isEmpty = false := by simpa using hsilent
    rw [hsaid, if_neg (by decide), hanswered.writeLine, hput.flush]
    simp only [HostLoop.after, Server.converse, step, hsilent, if_false, List.cons_append,
      List.nil_append, List.foldl_cons]

/-! ### Lines in a row -/

theorem Running.handleLine {h : HostLoop Device} (hr : h.Running) (readings : Nat → Readings)
    {l : Line} (hl : '\n' ∉ l.content) :
    h.handleLine readings (Utf8.encode (String.ofList l.written)) = h.handleText readings l.message := by
  rw [HostLoop.handleLine, hr.stopped, Utf8.decode_eq_ok_iff.mpr rfl]
  simp only [Option.isSome_none, Bool.false_eq_true, if_false, Line.withoutEnd_written hl]

theorem Line.spoken_cons (k : Nat) (l : Line) (lines : List Line) :
    Line.spoken k (l :: lines) =
      if trimmed l.message.toList = [] then Line.spoken (k + 1) lines
      else (l.message, k) :: Line.spoken (k + 1) lines := by
  by_cases hblank : trimmed l.message.toList = [] <;> simp [Line.spoken, hblank]

/-- The loop over the octets of lines is the talk over the lines that are not blank. Induction on the
lines, from any loop that runs. -/
theorem Running.handleLines {h : HostLoop Device} (hr : h.Running) (readings : Nat → Nat → Readings)
    (k : Nat) {lines : List Line} (hlines : ∀ l ∈ lines, '\n' ∉ l.content) :
    h.handleLines readings k (lines.map fun l => Utf8.encode (String.ofList l.written)) =
      h.after (h.server.inOrder (Server.converse readings) h.device (Line.spoken k lines)) := by
  induction lines generalizing h k with
  | nil => simp [HostLoop.handleLines, Line.spoken, Server.inOrder, HostLoop.after]
  | cons l rest ih =>
    have hfirst := hr.handleLine (readings k) (hlines l List.mem_cons_self)
    have hrest := fun m hm => hlines m (List.mem_cons_of_mem _ hm)
    rw [List.map_cons, HostLoop.handleLines, hfirst, Line.spoken_cons]
    by_cases hblank : trimmed l.message.toList = []
    · have hskip : h.handleText (readings k) l.message = h := by
        rw [HostLoop.handleText, isBlankText_eq, decide_eq_true hblank, if_pos rfl]
      rw [hskip, if_pos hblank, ih hr (k + 1) hrest]
    · rw [if_neg hblank, hr.handleText readings hblank k, ih (hr.after _) (k + 1) hrest]
      simp only [HostLoop.after, Server.inOrder, List.append_assoc, List.foldl_append]

end HostLoop

/-! ### Whole inputs -/

/-- Over the octets of any text the loop runs to the end and has written what the talk over its lines
says, each message on a line of its own; and whenever a line that is not blank has been handled, nothing
waits to be sent. -/
theorem serve_converses (s : Server Device) (device : Device) (readings : Nat → Nat → Readings)
    (text : String) :
    let host : HostLoop Device := { server := s, device }
    let ended := host.serve readings (Utf8.encode text)
    let talk := s.inOrder (Server.converse readings) device (Line.spoken 0 (Line.ofText text))
    ended.stopped = none ∧
    ended.sink.bytes = talk.value.flatMap (fun message => Utf8.encode (message ++ "\n")) ∧
    ended.server = talk.server ∧ ended.device = talk.device ∧ ended.events = talk.events ∧
    ∀ n line, (Line.ofText text)[n]? = some line → trimmed line.message.toList ≠ [] →
      (host.handleLines readings 0
        ((HostLoop.splitLines (Utf8.encode text)).take (n + 1))).server.Drained := by
  intro host ended talk
  have hrunning : host.Running := ⟨rfl, rfl⟩
  have hwhole (n : Nat) : ∀ l ∈ (Line.ofText text).take n, '\n' ∉ l.content :=
    fun l hl => Line.newline_not_mem (List.mem_of_mem_take hl)
  have hprefix (n : Nat) := hrunning.handleLines readings 0 (hwhole n)
  have hended : ended = host.after talk := by
    have hall := hprefix (Line.ofText text).length
    rw [List.take_length, ← HostLoop.splitLines_encode] at hall
    exact hall
  rw [hended]
  refine ⟨rfl, host.sink.bytes_foldl_put talk.value, rfl, rfl, rfl, ?_⟩
  intro n line hline hsome
  -- the talk over the first lines ends with the talk over this one
  have hlast : Line.spoken 0 ((Line.ofText text).take (n + 1)) =
      Line.spoken 0 ((Line.ofText text).take n) ++ [(line.message, n)] := by
    have hn : n < (Line.ofText text).length := (List.getElem?_eq_some_iff.mp hline).1
    simp [Line.spoken, List.take_add_one, hline, List.zipIdx_append, hsome, Nat.le_of_lt hn]
  rw [HostLoop.splitLines_encode, ← List.map_take, hprefix (n + 1), hlast, Server.inOrder_append]
  exact Server.drained_converse readings _ _ (line.message, n)

/-- News waits from the start, two lines are blank, and the last is not ended. -/
theorem blankThenUnended_drained :
    let host : HostLoop Unit := { server := (Server.ofOptions {} 0).listChanged .tools, device := () }
    (Line.ofText "\r\n\n\tx")[2]? = some ⟨['\t', 'x'], false⟩ ∧
      trimmed (Line.message ⟨['\t', 'x'], false⟩).toList ≠ [] ∧
      (host.handleLines (fun _ _ => ⟨0, 0, 0, 0, "s"⟩) 0
        ((HostLoop.splitLines (Utf8.encode "\r\n\n\tx")).take 3)).server.Drained := by
  have hline : (Line.ofText "\r\n\n\tx")[2]? = some ⟨['\t', 'x'], false⟩ := by rfl
  have hsome : trimmed (Line.message ⟨['\t', 'x'], false⟩).toList ≠ [] := by decide
  obtain ⟨-, -, -, -, -, drained⟩ := serve_converses ((Server.ofOptions {} 0).listChanged .tools) ()
    (fun _ _ => ⟨0, 0, 0, 0, "s"⟩) "\r\n\n\tx"
  exact ⟨hline, hsome, drained 2 _ hline hsome⟩

end ContextServer
