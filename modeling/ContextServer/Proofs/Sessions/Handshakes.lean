import ContextServer.Proofs.Notifications.Issued
import Mathlib.Data.List.DropRight

/-!
Handshakes and the session that they open. As long as the host leaves the sessions alone there is
one session at the most, the one that the last handshake opened, and so there is always room for the
next: a handshake ends its predecessor's session before it opens its own. What a server says of its
client is told from the moments of the run.
-/

namespace ContextServer

variable {Device : Type}

/-! ### What a moment says of the client -/

namespace Moment

/-- The client's name, if a moment has a handshake carried out. -/
def opens? (moment : Moment Device) : Option String :=
  match moment.move with
  | .call _ => none
  | .message readings v =>
    match moment.server.carriesOut? readings v with
    | some (_, params, .handshake) => some (Handshake.clientName params)
    | _ => none

/-- Whether a moment brings the client's notice that it is ready. -/
def confirms (moment : Moment Device) : Bool :=
  match moment.move with
  | .call _ => false
  | .message _ v =>
    match Message.ofJson v with
    | .ok (.notification method _) => method == "notifications/initialized"
    | _ => false

end Moment

/-- The moments after the last handshake. -/
def sinceHandshake (past : List (Moment Device)) : List (Moment Device) :=
  past.rtakeWhile fun moment => moment.opens?.isNone

theorem sinceHandshake_opens {past : List (Moment Device)} {moment : Moment Device} {name : String}
    (h : moment.opens? = some name) : sinceHandshake (past ++ [moment]) = [] :=
  List.rtakeWhile_concat_neg _ _ _ (by simp [h])

theorem sinceHandshake_keeps {past : List (Moment Device)} {moment : Moment Device}
    (h : moment.opens? = none) :
    sinceHandshake (past ++ [moment]) = sinceHandshake past ++ [moment] :=
  List.rtakeWhile_concat_pos _ _ _ (by simp [h])

/-- What a server says of its client is what the past tells. -/
structure Attended (past : List (Moment Device)) (s : Server Device) : Prop where
  single : s.sessions.count ≤ 1
  opened : s.sessionId.isSome ↔ ∃ moment ∈ past, moment.opens?.isSome
  awaiting : s.phase ≠ .awaitingHandshake ↔ ∃ moment ∈ past, moment.opens?.isSome
  client : ∀ id, s.sessionId = some id →
    latest? Moment.opens? past = some s.clientName ∧
      ∃ session, s.sessions.table.find? id = some session ∧ session.clientName = s.clientName
  running : s.phase = .running ↔
    (∃ moment ∈ past, moment.opens?.isSome) ∧ ∃ moment ∈ sinceHandshake past, moment.confirms

/-! ### Opening a session -/

theorem Sessions.create_of_empty {s : Sessions} (h : s.table.entries = []) (id name : String)
    (now : Timestamp) :
    s.create id name now = (.ok (), { s with table := ⟨[(id, ⟨name, now, now⟩)]⟩ }) := by
  obtain ⟨⟨entries⟩, maxSessions, idleTimeout⟩ := s
  have hentries : entries = [] := h
  subst hentries
  have hswept : Sessions.sweep ⟨⟨[]⟩, maxSessions, idleTimeout⟩ now =
      ⟨⟨[]⟩, maxSessions, idleTimeout⟩ := by
    unfold Sessions.sweep
    split <;> rfl
  have hroom : Sessions.isFull ⟨⟨[]⟩, maxSessions, idleTimeout⟩ = false := by
    cases maxSessions <;> rfl
  unfold Sessions.create
  rw [hswept]
  simp only [hroom, Bool.false_eq_true, if_false]
  rfl

/-- The session of a server is the only one there is, and is the client's. -/
def Server.HasOwnSession (s : Server Device) : Prop :=
  match s.sessionId with
  | none => s.sessions.table.entries = []
  | some id => ∃ session, s.sessions.table.entries = [(id, session)] ∧
      session.clientName = s.clientName

/-- A handshake opens the only session, in place of the last. -/
theorem handshake_opens {s : Server Device} (own : s.HasOwnSession) (device : Device)
    (readings : Readings) (params : Option Json) :
    (∃ result, (s.handshake device readings params).value = .ok result) ∧
      ∃ sessions, (s.handshake device readings params).server = { s with
          sessions
          sessionId := some readings.sessionId
          clientName := Handshake.clientName params
          phase := .handshaking } ∧
        sessions.table.entries = [(readings.sessionId,
          ⟨Handshake.clientName params, readings.opening, readings.opening⟩)] := by
  unfold Server.HasOwnSession at own
  unfold Server.handshake
  cases hid : s.sessionId with
  | none =>
    rw [hid] at own
    have hcreate := Sessions.create_of_empty own readings.sessionId (Handshake.clientName params)
      readings.opening
    simp only [hcreate]
    exact ⟨⟨_, rfl⟩, _, rfl, rfl⟩
  | some previous =>
    rw [hid] at own
    obtain ⟨session, hentries, -⟩ := own
    -- the last session is the only one, so nothing is left once it is ended
    have hfreed : (s.sessions.remove previous).2.table.entries = [] := by
      simp [Sessions.remove, Roster.erase, hentries]
    have hcreate := Sessions.create_of_empty hfreed readings.sessionId
      (Handshake.clientName params) readings.opening
    simp only [hcreate]
    exact ⟨⟨_, rfl⟩, _, rfl, rfl⟩

/-! ### What is kept along a run -/

/-- The state of the handshake, told from the past. -/
structure Seated (past : List (Moment Device)) (s : Server Device) : Prop where
  own : s.HasOwnSession
  client : latest? Moment.opens? past = s.sessionId.map fun _ => s.clientName
  phase : s.phase =
    if s.sessionId.isNone then .awaitingHandshake
    else if (sinceHandshake past).any Moment.confirms then .running else .handshaking

section Seated

variable {past : List (Moment Device)} {s t : Server Device} {moment : Moment Device}

/-- Where neither a handshake nor a confirmation comes, nothing changes. -/
theorem Seated.quiet (h : Seated past s) (opens : moment.opens? = none)
    (confirms : moment.confirms = false) (sessions : t.sessions = s.sessions)
    (sessionId : t.sessionId = s.sessionId) (clientName : t.clientName = s.clientName)
    (phase : t.phase = s.phase) : Seated (past ++ [moment]) t where
  own := by
    have hown := h.own
    unfold Server.HasOwnSession at hown ⊢
    rw [sessionId, sessions, clientName]
    exact hown
  client := by
    rw [latest?_append, opens, sessionId, clientName]
    exact h.client
  phase := by
    rw [phase, sessionId, sinceHandshake_keeps opens, List.any_append, h.phase]
    simp [confirms]

/-- A notice that the client is ready counts once a handshake was made. -/
theorem Seated.confirmed (h : Seated past s) (opens : moment.opens? = none)
    (confirms : moment.confirms = true) :
    Seated (past ++ [moment]) { s with phase := s.confirmHandshake.phase } where
  own := h.own
  client := by
    rw [latest?_append, opens]
    exact h.client
  phase := by
    have hphase := h.phase
    have hany : (sinceHandshake (past ++ [moment])).any Moment.confirms = true := by
      rw [sinceHandshake_keeps opens, List.any_append]
      simp [confirms]
    simp only [hany, if_true]
    unfold Server.confirmHandshake
    cases hid : s.sessionId with
    | none =>
      rw [hid] at hphase
      simp [hphase]
    | some id =>
      rw [hid] at hphase
      simp only [Option.isNone_some, Bool.false_eq_true, if_false] at hphase ⊢
      cases hready : (sinceHandshake past).any Moment.confirms <;> simp [hphase, hready]

theorem Seated.handshake (h : Seated past s) {params : Option Json}
    (opens : moment.opens? = some (Handshake.clientName params)) (limiter : TokenBucket Float)
    (device : Device) (readings : Readings) :
    Seated (past ++ [moment])
      (({ s with limiter } : Server Device).handshake device readings params).server := by
  have own : ({ s with limiter } : Server Device).HasOwnSession := h.own
  obtain ⟨-, sessions, hserver, htable⟩ := handshake_opens own device readings params
  rw [hserver]
  refine ⟨⟨_, htable, rfl⟩, ?_, ?_⟩
  · rw [latest?_append, opens]
    rfl
  · rw [sinceHandshake_opens opens]
    rfl

end Seated

theorem Method.Frame.attendance {s t : Server Device} {m : Method} (h : m.Frame s t)
    (hm : m ≠ .handshake) : t.sessions = s.sessions ∧ t.sessionId = s.sessionId ∧
      t.clientName = s.clientName ∧ t.phase = s.phase := by
  cases m with
  | handshake => exact absurd rfl hm
  | _ => simp only [Method.Frame] at h; rw [h]; exact ⟨rfl, rfl, rfl, rfl⟩

/-- A notice that the client is ready carries nothing out. -/
theorem carriesOut?_of_confirms {s : Server Device} {device : Device} {readings : Readings}
    {v : Json} (h : (Moment.mk s device (.message readings v)).confirms = true) :
    s.carriesOut? readings v = none := by
  simp only [Moment.confirms] at h
  split at h
  · rename_i method params hv
    have hmethod : method = "notifications/initialized" := eq_of_beq h
    have hnone : Method.ofName? "notifications/initialized" = none := by decide
    simp [Server.carriesOut?, hv, hmethod, hnone]
  · exact absurd h (by decide)

/-- A message that has nothing carried out moves the phase only if it is the client's notice. -/
theorem receive_phase {s : Server Device} (device : Device) {readings : Readings} {v : Json}
    (carried : s.carriesOut? readings v = none) :
    (s.receive device readings v).server.phase =
      if (Moment.mk s device (.message readings v)).confirms then s.confirmHandshake.phase
      else s.phase := by
  cases hv : Message.ofJson v with
  | error rejection =>
    simp only [Server.receive, Moment.confirms, hv, Bool.false_eq_true, if_false]
  | ok message =>
    cases message with
    | answer reply =>
      have frame := s.receiveAnswer_frame device reply
      simp only [Server.receive, Moment.confirms, hv, Step.map, Bool.false_eq_true, if_false]
      rw [frame]
    | request id method params =>
      simp only [Server.carriesOut?, hv] at carried
      simp only [Server.receive, Moment.confirms, hv, Step.map, Server.receiveRequest,
        Bool.false_eq_true, if_false]
      split
      · rename_i admitted
        rw [if_pos admitted] at carried
        have hnone : Method.ofName? method = none := by simpa using carried
        simp only [Server.serveNamed, hnone]
        rfl
      · rfl
    | notification method params =>
      simp only [Server.carriesOut?, hv] at carried
      have hnone : Method.ofName? method = none := by simpa using carried
      simp only [Server.receive, Moment.confirms, hv, Step.map, Server.receiveNotification, hnone,
        beq_iff_eq]
      split
      · rfl
      · split
        · rw [s.cancelRequest_frame params]
        · rfl

theorem receive_seated {past : List (Moment Device)} {s : Server Device} (h : Seated past s)
    (device : Device) (readings : Readings) (v : Json) :
    Seated (past ++ [⟨s, device, .message readings v⟩]) (s.receive device readings v).server := by
  cases s.receive_handled device readings v with
  | served id params m limiter carried step =>
    obtain ⟨f, hf⟩ := step
    have hserver : (s.receive device readings v).server =
        (({ s with limiter } : Server Device).serve device readings id params m).server := by
      rw [hf]
      rfl
    rw [hserver]
    by_cases hm : m = .handshake
    · subst hm
      exact h.handshake (by simp only [Moment.opens?, carried]) limiter device readings
    · have frame := ({ s with limiter } : Server Device).serve_frame device readings id params m
      obtain ⟨hsessions, hid, hname, hphase⟩ := frame.attendance hm
      have opens : (Moment.mk s device (.message readings v)).opens? = none := by
        simp only [Moment.opens?, carried]
        cases m with
        | handshake => exact absurd rfl hm
        | _ => rfl
      have confirms : (Moment.mk s device (.message readings v)).confirms = false := by
        cases hc : (Moment.mk s device (.message readings v)).confirms with
        | false => rfl
        | true =>
          rw [carriesOut?_of_confirms hc] at carried
          cases carried
      exact h.quiet opens confirms hsessions hid hname hphase
  | answered reply carried message step =>
    have frame := s.receiveAnswer_frame device reply
    have opens : (Moment.mk s device (.message readings v)).opens? = none := by
      simp only [Moment.opens?, carried]
    have confirms : (Moment.mk s device (.message readings v)).confirms = false := by
      simp only [Moment.confirms, message]
    simp only [step, Step.map]
    rw [frame]
    exact h.quiet opens confirms rfl rfl rfl rfl
  | idle limiter phase inFlight carried message server device' events =>
    have opens : (Moment.mk s device (.message readings v)).opens? = none := by
      simp only [Moment.opens?, carried]
    have hphase := receive_phase device carried
    rw [server] at hphase ⊢
    cases confirms : (Moment.mk s device (.message readings v)).confirms with
    | false =>
      rw [confirms] at hphase
      exact h.quiet opens confirms rfl rfl rfl hphase
    | true =>
      rw [confirms] at hphase
      have hnow := h.confirmed opens confirms
      have hphase' : phase = s.confirmHandshake.phase := hphase
      rw [hphase']
      exact ⟨hnow.own, hnow.client, hnow.phase⟩

theorem perform_seated {past : List (Moment Device)} {s : Server Device} (h : Seated past s)
    (device : Device) {c : HostCall Device} (hc : ∀ change, c ≠ .changeSessions change) :
    Seated (past ++ [⟨s, device, .call c⟩]) (s.perform device c).server := by
  have same : (s.perform device c).server.sessions = s.sessions ∧
      (s.perform device c).server.sessionId = s.sessionId ∧
      (s.perform device c).server.clientName = s.clientName ∧
      (s.perform device c).server.phase = s.phase := by
    cases c with
    | changeSessions change => exact absurd rfl (hc change)
    | log level logger data =>
      simp only [Server.perform, Server.flagged, Server.log]
      split <;> exact ⟨rfl, rfl, rfl, rfl⟩
    | _ => exact ⟨rfl, rfl, rfl, rfl⟩
  obtain ⟨hsessions, hid, hname, hphase⟩ := same
  exact h.quiet rfl rfl hsessions hid hname hphase

/-- A move that leaves the sessions to the server. -/
def Move.leavesSessions : Move Device → Prop
  | .call (.changeSessions _) => False
  | _ => True

theorem move_seated {past : List (Moment Device)} {s : Server Device} (h : Seated past s)
    (device : Device) {m : Move Device} (hm : m.leavesSessions) :
    Seated (past ++ [⟨s, device, m⟩]) (s.move device m).server := by
  cases m with
  | message readings v => exact receive_seated h device readings v
  | call c =>
    refine perform_seated h device fun change hc => ?_
    rw [hc] at hm
    exact hm

/-- Along a history the server is seated, at every moment and at its end. -/
theorem play_seated {past : List (Moment Device)} {s : Server Device} (h : Seated past s)
    (device : Device) {history : List (Move Device)} (hall : ∀ m ∈ history, m.leavesSessions) :
    (∀ moment ∈ s.moments device history, moment.server.HasOwnSession) ∧
      Seated (past ++ s.moments device history) (s.play device history).server := by
  induction history generalizing past s device with
  | nil => simpa [Server.moments, Server.play, Server.inOrder] using h
  | cons m rest ih =>
    have step := move_seated h device (hall m List.mem_cons_self)
    obtain ⟨hbetween, hlast⟩ :=
      ih step (s.move device m).device fun m' hm' => hall m' (List.mem_cons_of_mem _ hm')
    refine ⟨?_, ?_⟩
    · intro moment hmoment
      rcases List.mem_cons.mp hmoment with rfl | hrest
      · exact h.own
      · exact hbetween moment hrest
    · rw [Server.moments, Server.play_cons, ← List.singleton_append, ← List.append_assoc]
      exact hlast

/-! ### What follows -/

theorem Seated.attended {past : List (Moment Device)} {s : Server Device} (h : Seated past s) :
    Attended past s := by
  have hopened : (latest? Moment.opens? past).isSome ↔ ∃ moment ∈ past, moment.opens?.isSome := by
    unfold latest?
    rw [List.findSome?_isSome_iff]
    simp only [List.mem_reverse]
  have own := h.own
  have hphase := h.phase
  rw [h.client, Option.isSome_map] at hopened
  unfold Server.HasOwnSession at own
  cases hid : s.sessionId with
  | none =>
    rw [hid] at own hopened hphase
    have hnever : ¬∃ moment ∈ past, moment.opens?.isSome := fun hsome =>
      absurd (hopened.mpr hsome) (by decide)
    refine ⟨?_, ?_, ?_, ?_, ?_⟩
    · simp [Sessions.count, Roster.size, own]
    · rw [hid]
      exact hopened
    · simpa [hphase] using hnever
    · simp [hid]
    · simpa [hphase] using fun moment hmoment hopens => absurd ⟨moment, hmoment, hopens⟩ hnever
  | some id =>
    rw [hid] at own hopened hphase
    obtain ⟨session, hentries, hname⟩ := own
    have honce : ∃ moment ∈ past, moment.opens?.isSome := hopened.mp rfl
    simp only [Option.isNone_some, Bool.false_eq_true, if_false] at hphase
    refine ⟨?_, ?_, ?_, ?_, ?_⟩
    · simp [Sessions.count, Roster.size, hentries]
    · rw [hid]
      exact hopened
    · refine iff_of_true ?_ honce
      rw [hphase]
      split <;> simp
    · intro id' hid'
      rw [hid] at hid'
      obtain rfl := Option.some.inj hid'
      refine ⟨by rw [h.client, hid]; rfl, session, ?_, hname⟩
      simp [Roster.find?, hentries]
    · rw [hphase]
      cases hready : (sinceHandshake past).any Moment.confirms with
      | false =>
        have hnone : ¬∃ moment ∈ sinceHandshake past, moment.confirms = true := by
          simpa [List.any_eq_false] using hready
        simp [hnone]
      | true =>
        have hsome := List.any_eq_true.mp hready
        simp only [if_true, true_iff]
        exact ⟨honce, hsome⟩

theorem Move.leavesSessions_of_mem_ofMessages {readings : Nat → Readings} {k : Nat}
    {values : List Json} {m : Move Device} (h : m ∈ Move.ofMessages readings k values) :
    m.leavesSessions := by
  induction values generalizing k with
  | nil => cases h
  | cons v rest ih =>
    rcases List.mem_cons.mp h with rfl | hrest
    · trivial
    · exact ih hrest

/-- Without a change of the sessions by the host every move leaves them to the server. -/
theorem leavesSessions_of_mem_history {actions : List (Action Device)}
    (left : ∀ change, Action.call (.changeSessions change) ∉ actions) {m : Move Device}
    (hm : m ∈ Action.history actions) : m.leavesSessions := by
  obtain ⟨a, ha, hma⟩ := List.mem_flatMap.mp hm
  cases a with
  | call c =>
    have heq : m = .call c := List.mem_singleton.mp hma
    subst heq
    cases c with
    | changeSessions change => exact absurd ha (left change)
    | _ => trivial
  | inbound readings text =>
    simp only [Action.moves] at hma
    cases hp : Payload.ofText? text with
    | none => simp [hp] at hma
    | some p =>
      rw [hp] at hma
      exact Move.leavesSessions_of_mem_ofMessages hma

/-- A server with no session but its own answers a handshake, unless the rate limit refuses it. -/
theorem handshake_answered {s : Server Device} (own : s.HasOwnSession) (device : Device)
    (readings : Readings) {v : Json} {id : RequestId} {params : Option Json}
    (hv : Message.ofJson v = .ok (.request id "initialize" params)) :
    (∃ result, (s.receive device readings v).value = some ⟨id, .ok result⟩) ∨
      (s.receive device readings v).value = some (.refusal id .rateLimited) := by
  have hreceive := s.receive_request device readings (m := .handshake) hv
  rw [hreceive]
  dsimp only
  split
  · have hown : ({ s with limiter := (s.limiter.acquire readings.admission).2 } :
        Server Device).HasOwnSession := own
    obtain ⟨⟨result, hresult⟩, -⟩ := handshake_opens hown device readings params
    refine .inl ⟨result, ?_⟩
    simp only [Step.map, Server.serve, hresult]
  · exact .inr rfl

/-- As long as the host leaves the sessions alone, no handshake is refused for want of room, and what
a server says of its client is what the run tells. -/
theorem handshakes_attended (options : ServerOptions) (now : Instant) (device : Device)
    (actions : List (Action Device))
    (left : ∀ change, Action.call (.changeSessions change) ∉ actions) :
    let server : Server Device := .ofOptions options now
    let moments := server.moments device (Action.history actions)
    Attended moments (server.run device actions).server ∧
      ∀ moment ∈ moments, ∀ readings v id params, moment.move = .message readings v →
        Message.ofJson v = .ok (.request id "initialize" params) →
          ∃ outcome, (moment.server.receive moment.device readings v).value = some ⟨id, outcome⟩ ∧
            ∀ fault, outcome = .error fault →
              fault = .rateLimited ∧ fault.kind ≠ .sessionLimit := by
  intro server moments
  have start : Seated ([] : List (Moment Device)) server := ⟨rfl, rfl, rfl⟩
  obtain ⟨hbetween, hlast⟩ :=
    play_seated start device fun m hm => leavesSessions_of_mem_history left hm
  rw [← Server.run_eq_play] at hlast
  refine ⟨hlast.attended, ?_⟩
  intro moment hmoment readings v id params _ hv
  rcases handshake_answered (hbetween moment hmoment) moment.device readings hv with
    ⟨result, hvalue⟩ | hvalue
  · exact ⟨.ok result, hvalue, nofun⟩
  · refine ⟨.error .rateLimited, hvalue, ?_⟩
    intro fault hfault
    obtain rfl := Except.error.inj hfault
    exact ⟨rfl, by decide⟩

/-- The handshake of a named client, a notification if it has no identifier. -/
def handshakeOf (id : List (String × Json)) (name : String) : Json :=
  .object (id ++ [("jsonrpc", .string "2.0"), ("method", .string "initialize"),
    ("params", .object [("clientInfo", .object [("name", .string name)])])])

def readyNotice : Json :=
  .object [("jsonrpc", .string "2.0"), ("method", .string "notifications/initialized")]

/-- Two clients one after the other on a server with room for one session. The second one opens its
session by a notification, in one batch with the notice of the first. -/
def succession : List (Action Unit) :=
  [.inbound (fun _ => ⟨0, 0, 0, 0, "s"⟩) (handshakeOf [("id", .int 1)] "a").text,
    .inbound (fun _ => ⟨1, 1, 1, 1, "t"⟩) (Json.array [readyNotice, handshakeOf [] "b"]).text]

theorem succession_attended :
    let server : Server Unit := .ofOptions { maxSessions := some 1 } 0
    (∀ change, Action.call (.changeSessions change) ∉ succession) ∧
      Attended (server.moments () (Action.history succession)) (server.run () succession).server ∧
      (server.run () succession).server.sessionId = some "t" :=
  have left : ∀ change, Action.call (.changeSessions change) ∉ succession := by simp [succession]
  ⟨left, (handshakes_attended { maxSessions := some 1 } 0 () succession left).1, by decide +kernel⟩

end ContextServer
