import ContextServer.Proofs.Json.OneLine
import ContextServer.Proofs.Server.Kept

/-!
What a server sends, it sends as lines. Answers and notifications are printed when they are sent;
requests to the client are printed when they are asked and wait in their queues, so that the queues
hold lines is an invariant of the runs.
-/

namespace ContextServer

variable {Device : Type}

/-! ### Printed messages -/

theorem Output.oneLine_text (o : Output) : o.text = "" ∨ OneLine o.text := by
  cases o with
  | silence => exact .inl rfl
  | single reply => exact .inr (Json.oneLine_text rfl)
  | batch first rest => exact .inr (Json.oneLine_text rfl)

theorem Notification.oneLine_text (n : Notification) : OneLine n.text := Json.oneLine_text rfl

theorem Outbound.oneLine_requestText (id : Int) (request : ClientRequest) :
    OneLine (Outbound.requestText id request) := Json.oneLine_text rfl

/-! ### Queued requests -/

def Outbound.QueuesLines (o : Outbound) : Prop := ∀ line ∈ o.outgoing, OneLine line

theorem Outbound.QueuesLines.queueWithId {o : Outbound} (h : o.QueuesLines) (id : Int)
    (request : ClientRequest) (label : String) (now : Instant) :
    (o.queueWithId id request label now).QueuesLines := by
  intro line hline
  rcases List.mem_append.mp hline with hold | hnew
  · exact h line hold
  · rw [List.mem_singleton.mp hnew]
    exact Outbound.oneLine_requestText id request

/-- The requests that are still to be sent are lines. -/
def Server.QueuesLines (s : Server Device) : Prop := ∀ kind, (s.outbound kind).QueuesLines

theorem Server.queuesLines_ofOptions (options : ServerOptions) (now : Instant) :
    (Server.ofOptions options now : Server Device).QueuesLines := by
  intro kind line hline
  cases kind <;> cases hline

theorem Server.QueuesLines.same {s t : Server Device} (h : s.QueuesLines)
    (same : ∀ kind, (t.outbound kind).outgoing = (s.outbound kind).outgoing) : t.QueuesLines := by
  intro kind line hline
  rw [same kind] at hline
  exact h kind line hline

theorem Server.QueuesLines.sameRequests {s t : Server Device} (h : s.QueuesLines)
    (same : SameRequests s t) : t.QueuesLines :=
  h.same fun kind => congrArg Outbound.outgoing (same.outbound kind)

theorem Server.QueuesLines.receive {s : Server Device} (h : s.QueuesLines) (device : Device)
    (readings : Readings) (v : Json) : (s.receive device readings v).server.QueuesLines := by
  have kept := s.kept_receive device readings v
  apply h.same
  intro kind
  cases kind with
  | sampling => exact kept.sampling.outgoing
  | elicitation => exact kept.elicitation.outgoing

theorem Server.QueuesLines.perform {s : Server Device} (h : s.QueuesLines) (device : Device)
    (c : HostCall Device) : (s.perform device c).server.QueuesLines := by
  cases c with
  | requestSampling request label now =>
    intro kind
    cases kind with
    | sampling => exact (h .sampling).queueWithId _ _ _ _
    | elicitation => exact h .elicitation
  | requestElicitation request label now =>
    intro kind
    cases kind with
    | sampling => exact h .sampling
    | elicitation => exact (h .elicitation).queueWithId _ _ _ _
  | pruneRequests now timeout => exact h.same fun kind => by cases kind <;> rfl
  | drainRequests =>
    intro kind line hline
    cases kind <;> cases hline
  -- no other call touches the queues
  | _ =>
    exact h.sameRequests (perform_sameRequests s device _ (fun id => rfl) rfl (by simp))

theorem Server.QueuesLines.move {s : Server Device} (h : s.QueuesLines) (device : Device)
    (m : Move Device) : (s.move device m).server.QueuesLines := by
  cases m with
  | call c => exact h.perform device c
  | message readings v => exact h.receive device readings v

theorem Server.QueuesLines.play {s : Server Device} (h : s.QueuesLines) (device : Device)
    (history : List (Move Device)) : (s.play device history).server.QueuesLines := by
  induction history generalizing s device with
  | nil => exact h
  | cons m rest ih => exact ih (h.move device m) _

/-! ### Runs -/

/-- Whatever has happened to a server, each text that it gives to be sent is one line: the answer to a
text if it says anything, the notifications, and the requests to the client. -/
theorem emissions_are_lines (options : ServerOptions) (now : Instant) (device : Device)
    (actions : List (Action Device)) :
    let last := (Server.ofOptions options now).run device actions
    (∀ readings text, let answer := (last.server.process last.device readings text).value.text
      answer = "" ∨ OneLine answer) ∧
    (∀ line ∈ last.server.drainNotifications.1, OneLine line) ∧
    (∀ line ∈ last.server.drainRequests.1, OneLine line) := by
  dsimp only
  refine ⟨fun readings text => Output.oneLine_text _, ?_, ?_⟩
  · intro line hline
    obtain ⟨notification, -, rfl⟩ := List.mem_map.mp hline
    exact notification.oneLine_text
  · have hqueued := (Server.queuesLines_ofOptions options now).play device (Action.history actions)
    rw [← Server.run_eq_play] at hqueued
    intro line hline
    rcases List.mem_append.mp hline with hsampling | helicitation
    · exact hqueued .sampling line hsampling
    · exact hqueued .elicitation line helicitation

/-- A log entry, a question to the model and one to the person, each with line feeds in what it says. -/
def brokenTexts : List (Action Unit) :=
  [.call (.log .error "a\nb" (.object [("c\nd", .string "e\r\nf")])),
    .call (.requestSampling { messages := [(.user, "g\nh")] } "ask" 0),
    .call (.requestElicitation { message := "i\nj" } "form" 1)]

theorem brokenTexts_sent_as_lines :
    let last := (Server.ofOptions {} 0).run () brokenTexts
    OneLine (last.server.process last.device (fun _ => ⟨0, 0, 0, 0, "s"⟩) "\n").value.text ∧
      (∃ line ∈ last.server.drainNotifications.1, OneLine line) ∧
      ∃ line ∈ last.server.drainRequests.1, OneLine line := by
  obtain ⟨answers, notifications, requests⟩ := emissions_are_lines {} 0 () brokenTexts
  have hrejected : Payload.ofText? "\n" = none := by rfl
  refine ⟨(answers (fun _ => ⟨0, 0, 0, 0, "s"⟩) "\n").resolve_left ?_,
    ⟨_, .head _, notifications _ (.head _)⟩, ⟨_, .head _, requests _ (.head _)⟩⟩
  rw [Server.process, hrejected]
  exact Json.text_ne_empty_of_isContainer rfl

end ContextServer
