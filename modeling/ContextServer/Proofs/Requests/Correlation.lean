import ContextServer.Proofs.Json.Printing
import ContextServer.Proofs.Requests.Tables

/-!
Answers find their requests. What the host sees of a run, the identifiers that it gets, the answers
that it is told of and the texts that it takes for sending, is what the account of the history says;
and nothing is seen twice.
-/

namespace ContextServer

variable {Device : Type}

/-! ### What a run shows -/

def Returned.issued? : Returned → Option Int
  | .issued id => some id
  | _ => none

def Returned.requests? : Returned → Option (List String)
  | .requests lines => some lines
  | _ => none

/-- The host sees of its requests what their account says. -/
structure Correlated (run : Step Device (List Returned)) (history : List (Move Device)) : Prop where
  issued : run.value.filterMap Returned.issued? = (asks history).map fun ask => ask.1.id
  distinct : (run.value.filterMap Returned.issued?).Nodup
  callbacks : run.events.filter Event.isCallback = collect callbacksAt [] history
  answeredOnce : (run.events.filterMap Event.requestId?).Nodup
  drained : run.value.filterMap Returned.requests? = collect drainedAt [] history
  sentOnce : (run.value.filterMap Returned.requests?).flatten.Nodup

/-! ### Step by step -/

/-- A step that gives what the account of its move says. -/
structure Agrees (history : List (Move Device)) (m : Move Device) (r : Step Device (List Returned)) :
    Prop where
  tracks : Tracks (history ++ [m]) r.server
  issued : r.value.filterMap Returned.issued? = issuedAt history m
  callbacks : r.events.filter Event.isCallback = callbacksAt history m
  drained : r.value.filterMap Returned.requests? = drainedAt history m

theorem perform_events (s : Server Device) (device : Device) (c : HostCall Device) :
    (s.perform device c).events = [] := by
  cases c <;> rfl

/-- A call that neither asks nor drains gives no identifier and no texts back. -/
theorem perform_value (s : Server Device) (device : Device) (c : HostCall Device)
    (hask : ∀ id, (Move.call c).asked? id = none) (hdrain : (Move.call c).drains = false) :
    (s.perform device c).value.issued? = none ∧ (s.perform device c).value.requests? = none := by
  cases c with
  | requestSampling request label now => exact absurd (hask 0) (by simp [Move.asked?])
  | requestElicitation request label now => exact absurd (hask 0) (by simp [Move.asked?])
  | drainRequests => exact absurd hdrain (by simp [Move.drains])
  | _ => exact ⟨rfl, rfl⟩

theorem Agrees.idle {history : List (Move Device)} {s : Server Device} {c : HostCall Device}
    (device : Device) (hask : ∀ id, (Move.call c).asked? id = none)
    (hdrain : (Move.call c).drains = false)
    (tracks : Tracks (history ++ [.call c]) (s.perform device c).server) :
    Agrees history (.call c) (s.move device (.call c)) := by
  obtain ⟨hissued, hrequests⟩ := perform_value s device c hask hdrain
  refine ⟨tracks, ?_, ?_, ?_⟩
  · simp [Server.move, Step.map, hissued, issuedAt, hask]
  · simp [Server.move, Step.map, perform_events, callbacksAt, Move.reply?]
  · simp [Server.move, Step.map, hrequests, drainedAt, hdrain]

theorem call_agrees {history : List (Move Device)} {s : Server Device} (h : Tracks history s)
    (device : Device) (c : HostCall Device) :
    Agrees history (.call c) (s.move device (.call c)) := by
  cases c with
  | requestSampling request label now =>
    have hask : (Move.call (.requestSampling request label now) : Move Device).asked?
        s.nextRequestId = some ⟨.sampling, s.nextRequestId, request.toClient, label, now⟩ := rfl
    refine ⟨h.asked hask (fun a => rfl) rfl rfl (fun kind hkind => ?_) rfl, ?_, rfl, rfl⟩
    · cases kind with
      | sampling => exact absurd rfl hkind
      | elicitation => rfl
    · rw [issuedAt, ← h.next, hask]
      rfl
  | requestElicitation request label now =>
    have hask : (Move.call (.requestElicitation request label now) : Move Device).asked?
        s.nextRequestId = some ⟨.elicitation, s.nextRequestId, request.toClient, label, now⟩ := rfl
    refine ⟨h.asked hask (fun a => rfl) rfl rfl (fun kind hkind => ?_) rfl, ?_, rfl, rfl⟩
    · cases kind with
      | sampling => rfl
      | elicitation => exact absurd rfl hkind
    · rw [issuedAt, ← h.next, hask]
      rfl
  | pruneRequests now timeout =>
    exact .idle device (fun id => rfl) rfl (h.pruned now timeout)
  | drainRequests =>
    refine ⟨h.drained, rfl, rfl, ?_⟩
    have hlines : s.drainRequests.1 =
        (s.outbound .sampling).outgoing ++ (s.outbound .elicitation).outgoing := rfl
    simp only [Server.move, Step.map, Server.perform, List.filterMap_cons, Returned.requests?,
      List.filterMap_nil, drainedAt, Move.drains, if_true, takenAt, List.map_append, hlines,
      h.outgoing]
  | _ =>
    refine .idle device (fun id => rfl) rfl ?_
    exact h.quiet (perform_sameRequests s device _ (fun id => rfl) rfl (by simp)) (fun id => rfl)
      (fun a => rfl) rfl

theorem message_agrees {history : List (Move Device)} {s : Server Device} (h : Tracks history s)
    (few : nextAsk history ≤ Range64.maxSigned + 1) (device : Device) (readings : Readings) (v : Json) :
    Agrees history (.message readings v) (s.move device (.message readings v)) := by
  cases hreply : (Move.message readings v : Move Device).reply? with
  | none =>
    obtain ⟨same, hevents⟩ := receive_sameRequests s device readings v hreply
    refine ⟨h.quiet same (fun id => rfl) (fun a => ?_) rfl, rfl, ?_, rfl⟩
    · simp [Asked.endedBy, hreply]
    · simpa [Server.move, Step.map, callbacksAt, hreply, List.filter_eq_nil_iff] using hevents
  | some reply =>
    have hmessage : Message.ofJson v = .ok (.answer reply) := by
      simp only [Move.reply?] at hreply
      split at hreply
      · rename_i hv
        rw [hv, Option.some.inj hreply]
      · cases hreply
    have hreceive : s.receive device readings v =
        (s.receiveAnswer device reply).map fun _ => none := by
      simp only [Server.receive, hmessage]
    obtain ⟨tracks, hevents⟩ := h.answered few hreply device
    have hall : ∀ e ∈ callbacksAt history (.message readings v), e.isCallback = true := by
      intro e he
      simp only [callbacksAt, hreply] at he
      obtain ⟨a, -, rfl⟩ := List.mem_map.mp he
      cases hk : a.kind <;> simp [Asked.answered, hk, Event.isCallback, Event.requestId?]
    refine ⟨?_, ?_, ?_, rfl⟩
    · simpa only [Server.move, hreceive, Step.map] using tracks
    · simp [Server.move, Step.map, issuedAt, Move.asked?]
    · simp only [Server.move, hreceive, Step.map, hevents]
      exact List.filter_eq_self.mpr hall

/-- One move keeps the tables and the account in agreement. -/
theorem move_agrees {history : List (Move Device)} {s : Server Device} (h : Tracks history s)
    (few : nextAsk history ≤ Range64.maxSigned + 1) (device : Device) (m : Move Device) :
    Agrees history m (s.move device m) := by
  cases m with
  | call c => exact call_agrees h device c
  | message readings v => exact message_agrees h few device readings v

theorem play_agrees {past : List (Move Device)} {s : Server Device} (h : Tracks past s)
    (device : Device) (history : List (Move Device))
    (few : nextAsk (past ++ history) ≤ Range64.maxSigned + 1) :
    (s.play device history).value.filterMap Returned.issued? =
        collect issuedAt past history ∧
      (s.play device history).events.filter Event.isCallback = collect callbacksAt past history ∧
      (s.play device history).value.filterMap Returned.requests? = collect drainedAt past history := by
  induction history generalizing past s device with
  | nil => exact ⟨rfl, rfl, rfl⟩
  | cons m rest ih =>
    -- the identifiers stay in range up to the end of the history, and so before every move of it
    have hsplit : past ++ m :: rest = past ++ [m] ++ rest := by simp
    rw [hsplit] at few
    have hbefore : nextAsk past ≤ nextAsk (past ++ [m] ++ rest) :=
      (nextAsk_le past [m]).trans (nextAsk_le _ rest)
    have step := move_agrees h (hbefore.trans few) device m
    obtain ⟨hissued, hcallbacks, hdrained⟩ := ih step.tracks (s.move device m).device few
    simp only [Server.play_cons, List.filterMap_append, List.filter_append, collect, hissued,
      hcallbacks, hdrained, step.issued, step.callbacks, step.drained, and_self]

/-! ### Whole runs -/

theorem tracks_ofOptions (options : ServerOptions) (now : Instant) :
    Tracks ([] : List (Move Device)) (Server.ofOptions options now) where
  next := rfl
  pending kind := by cases kind <;> rfl
  outgoing kind := by cases kind <;> rfl

theorem requestIds_eq (past history : List (Move Device)) :
    (collect callbacksAt past history).filterMap Event.requestId? =
      (collect answeredAt past history).map Asked.id := by
  induction history generalizing past with
  | nil => rfl
  | cons m rest ih =>
    have hone : (callbacksAt past m).filterMap Event.requestId? =
        (answeredAt past m).map Asked.id := by
      unfold callbacksAt
      cases hreply : m.reply? with
      | none => simp [answeredAt, hreply]
      | some reply =>
        have hid (a : Asked) : (a.answered reply.outcome).requestId? = some a.id := by
          cases hk : a.kind <;> simp [Asked.answered, hk, Event.requestId?]
        simp only [List.filterMap_map, Function.comp_def, hid]
        exact congrFun List.filterMap_eq_map _
    simp only [collect, List.filterMap_append, List.map_append, hone, ih]

theorem drained_flatten (past history : List (Move Device)) :
    (collect drainedAt past history).flatten = (collect takenAt past history).map Asked.text := by
  induction history generalizing past with
  | nil => rfl
  | cons m rest ih =>
    have hone : (drainedAt past m).flatten = (takenAt past m).map Asked.text := by
      unfold drainedAt takenAt
      split <;> simp
    simp only [collect, List.flatten_append, List.map_append, hone, ih]

/-- Different requests have different texts. -/
theorem text_nodup {as : List Asked} (h : (as.map Asked.id).Nodup) : (as.map Asked.text).Nodup := by
  rw [List.Nodup, List.pairwise_map] at h ⊢
  exact h.imp fun hne htext => hne (Outbound.id_of_requestText htext)

/-- Every request is numbered, answered and sent as the account of the run says, and nothing of it
happens twice. -/
theorem requests_correlated (options : ServerOptions) (now : Instant) (device : Device)
    (actions : List (Action Device))
    (few : (asks (Action.history actions)).length < 9223372036854775808 - 8000) :
    Correlated ((Server.ofOptions options now).run device actions) (Action.history actions) := by
  have hfew : nextAsk ([] ++ Action.history actions) ≤ Range64.maxSigned + 1 := by
    unfold Range64.maxSigned nextAsk
    rw [List.nil_append]
    omega
  obtain ⟨hissued, hcallbacks, hdrained⟩ :=
    play_agrees (tracks_ofOptions options now) device (Action.history actions) hfew
  have hids : collect issuedAt [] (Action.history actions) =
      (asks (Action.history actions)).map fun ask => ask.1.id :=
    (collect_issuedAt [] (Action.history actions)).symm
  have hevents (events : List Event) : (events.filter Event.isCallback).filterMap Event.requestId? =
      events.filterMap Event.requestId? := by
    rw [List.filterMap_filter]
    congr 1
    funext e
    cases e <;> rfl
  rw [Server.run_eq_play]
  refine ⟨hissued.trans hids, ?_, hcallbacks, ?_, hdrained, ?_⟩
  · rw [hissued, hids, List.Nodup, List.pairwise_map]
    exact (asksFrom_ascending 8000 _).imp fun hlt => by omega
  · rw [← hevents, hcallbacks, requestIds_eq]
    exact answered_nodup [] _
  · rw [hdrained, drained_flatten]
    exact text_nodup (taken_nodup [] _)

/-- A request of each kind, both sent, the second answered, and what is late given up. -/
def exchange : List (Action Unit) :=
  [.call (.requestSampling { messages := [(.user, "hi")] } "ask" 0),
    .call (.requestElicitation { message := "name?" } "form" 1),
    .call .drainRequests,
    .inbound (fun _ => ⟨2, 2, 2, 0, "s"⟩) "\x7b\"jsonrpc\":\"2.0\",\"id\":8001,\"result\":\x7b\x7d\x7d",
    .call (.pruneRequests 9 5)]

theorem exchange_correlated :
    (asks (Action.history exchange)).length < 9223372036854775808 - 8000 ∧
      Correlated ((Server.ofOptions {} 0).run () exchange) (Action.history exchange) :=
  have few : (asks (Action.history exchange)).length < 9223372036854775808 - 8000 := by decide +kernel
  ⟨few, requests_correlated {} 0 () exchange few⟩

end ContextServer
