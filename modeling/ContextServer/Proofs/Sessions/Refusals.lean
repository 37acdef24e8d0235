import ContextServer.Proofs.Sessions.Handshakes

/-!
Handshakes that are refused. The limiter refuses one before anything is done. Want of room is found
only after the server's own session has been ended, and that session does not come back: the server
is left without one, and the other live sessions stay as they are.
-/

namespace ContextServer

variable {Device : Type}

/-! ### Live sessions -/

/-- A session is within a timeout: there is none, or the time since the session was last used is no
longer. If the clock has gone back since then, that is no time at all. -/
def Session.Within (session : Session) (timeout : Span) (now : Timestamp) : Prop :=
  timeout = 0 ∨ max 0 (now - session.lastActivity) ≤ (timeout : Int)

instance (session : Session) (timeout : Span) (now : Timestamp) :
    Decidable (session.Within timeout now) :=
  inferInstanceAs (Decidable (timeout = 0 ∨ max 0 (now - session.lastActivity) ≤ (timeout : Int)))

theorem Session.within_iff (session : Session) (timeout : Span) (now : Timestamp) :
    session.Within timeout now ↔ timeout = 0 ∨ session.idle now ≤ timeout := by
  unfold Within idle Timestamp.since
  rw [Int.toNat_le, Int.max_le]
  exact or_congr_right ⟨And.right, fun h => ⟨Int.natCast_nonneg timeout, h⟩⟩

/-- The sessions that are within the timeout. -/
def Sessions.live (s : Sessions) (now : Timestamp) : List (String × Session) :=
  s.table.entries.filter fun entry => entry.2.Within s.idleTimeout now

theorem Sessions.sweep_eq (s : Sessions) (now : Timestamp) :
    s.sweep now = { s with table := ⟨s.live now⟩ } := by
  obtain ⟨⟨entries⟩, maxSessions, idleTimeout⟩ := s
  unfold Sessions.sweep Sessions.live
  simp only [Session.within_iff]
  split
  · rename_i hnever
    simp [hnever]
  · rename_i hsome
    simp [hsome, Roster.filter]

theorem Sessions.live_sweep (s : Sessions) (now : Timestamp) : (s.sweep now).live now = s.live now := by
  rw [Sessions.sweep_eq]
  unfold Sessions.live
  rw [List.filter_filter]
  simp only [Bool.and_self]

/-- A session is refused where the live ones fill the table, and the sweep is all that happens. -/
theorem Sessions.create_error {s : Sessions} {id name : String} {now : Timestamp}
    {full : CapacityReached} (h : (s.create id name now).1 = .error full) :
    full.max = s.maxSessions ∧ (s.create id name now).2 = s.sweep now ∧
      0 < s.maxSessions ∧ s.maxSessions ≤ (s.live now).length := by
  have hswept := s.sweep_eq now
  unfold Sessions.create at h ⊢
  dsimp only at h ⊢
  split at h
  · rename_i hfull
    rw [if_pos hfull]
    have hmax : (s.sweep now).maxSessions = s.maxSessions := by rw [hswept]
    have hcount : (s.sweep now).count = (s.live now).length := by
      rw [hswept]
      rfl
    simp only [Sessions.isFull, Bool.and_eq_true, decide_eq_true_eq, hmax, hcount] at hfull
    obtain rfl := Except.error.inj h
    exact ⟨hmax, rfl, hfull⟩
  · cases h

/-! ### The server's own session -/

/-- The live sessions that are not the server's own. -/
def Server.others (s : Server Device) (now : Timestamp) : List (String × Session) :=
  (s.sessions.live now).filter fun entry => s.sessionId ≠ some entry.1

/-- The sessions once the server's own is ended. -/
def Server.freed (s : Server Device) : Sessions :=
  match s.sessionId with
  | some previous => (s.sessions.remove previous).2
  | none => s.sessions

theorem Server.live_freed (s : Server Device) (now : Timestamp) :
    s.freed.live now = s.others now ∧ s.freed.maxSessions = s.sessions.maxSessions := by
  unfold Server.freed Server.others
  cases s.sessionId with
  | none => exact ⟨by simp, rfl⟩
  | some previous =>
    refine ⟨?_, rfl⟩
    unfold Sessions.live Sessions.remove Roster.erase
    dsimp only
    rw [List.filter_filter, List.filter_filter]
    apply List.filter_congr
    intro entry _
    by_cases hown : entry.1 = previous
    · simp [hown]
    · have hown' : previous ≠ entry.1 := fun h => hown h.symm
      simp [hown, hown']

/-- A handshake fails for want of room alone, once the server's own session is ended. -/
theorem handshake_error {s : Server Device} {device : Device} {readings : Readings}
    {params : Option Json} {fault : Fault}
    (h : (s.handshake device readings params).value = .error fault) :
    fault = ⟨.sessionLimit, CapacityReached.message ⟨s.sessions.maxSessions⟩, none⟩ ∧
      (s.handshake device readings params).server =
        { s with sessions := s.freed.sweep readings.opening, sessionId := none } ∧
      0 < s.sessions.maxSessions ∧ s.sessions.maxSessions ≤ (s.others readings.opening).length := by
  obtain ⟨hlive, hmax⟩ := s.live_freed readings.opening
  unfold Server.handshake at h ⊢
  dsimp only at h ⊢
  split at h
  · rename_i full sessions hcreate
    have hfreed : s.freed.create readings.sessionId (Handshake.clientName params)
        readings.opening = (.error full, sessions) := hcreate
    obtain ⟨hbound, hswept, hfull⟩ := Sessions.create_error (congrArg Prod.fst hfreed)
    rw [hfreed] at hswept
    rw [hmax, hlive] at hfull
    obtain rfl := Except.error.inj h
    obtain ⟨max⟩ := full
    dsimp only at hbound hswept
    rw [hbound, hmax, hswept]
    exact ⟨rfl, rfl, hfull⟩
  · cases h

theorem sessionLimit_ne_rateLimited (message : String) :
    (⟨.sessionLimit, message, none⟩ : Fault) ≠ .rateLimited := by
  intro h
  have hkind : FaultKind.sessionLimit = .rateLimited := congrArg Fault.kind h
  exact absurd hkind (by decide)

/-! ### Requests -/

/-- A handshake that is refused keeps the client's name, the phase and the live sessions of others.
The server's own session is kept where the limiter refused; where there was no room it is ended. -/
theorem refused_handshake_ends_own_session (s : Server Device) (device : Device)
    (readings : Readings) {v : Json} {id : RequestId} {params : Option Json} {fault : Fault}
    (request : Message.ofJson v = .ok (.request id "initialize" params))
    (refused : (s.receive device readings v).value = some ⟨id, .error fault⟩) :
    let after := (s.receive device readings v).server
    let live (t : Server Device) := t.sessions.live readings.opening
    after.clientName = s.clientName ∧ after.phase = s.phase ∧
      (fault = .rateLimited ∧ after.sessionId = s.sessionId ∧ live after = live s ∨
        fault = ⟨.sessionLimit, CapacityReached.message ⟨s.sessions.maxSessions⟩, none⟩ ∧
          after.sessionId = none ∧ live after = s.others readings.opening ∧
          0 < s.sessions.maxSessions ∧ s.sessions.maxSessions ≤ (live after).length) ∧
      (after.sessionId = s.sessionId ∧ live after = live s ↔
        fault = .rateLimited ∨ s.sessionId = none) := by
  intro after live
  have hreceive := s.receive_request device readings (m := .handshake) request
  dsimp only at hreceive
  split at hreceive
  · rw [hreceive] at refused
    have hfault : (({ s with limiter := (s.limiter.acquire readings.admission).2 } :
        Server Device).handshake device readings params).value = .error fault := by
      simpa [Step.map, Server.serve] using refused
    obtain ⟨hwhy, hserver, hroom, hfull⟩ := handshake_error hfault
    have hafter : after = { s with
        limiter := (s.limiter.acquire readings.admission).2
        sessions := s.freed.sweep readings.opening
        sessionId := none } := by
      simp only [after, hreceive]
      exact hserver
    have hlive : live after = s.others readings.opening := by
      simp only [live, hafter, Sessions.live_sweep]
      exact (s.live_freed readings.opening).1
    have hid : after.sessionId = none := by rw [hafter]
    have hlimit : fault ≠ .rateLimited := by
      rw [hwhy]
      exact sessionLimit_ne_rateLimited _
    refine ⟨by rw [hafter], by rw [hafter], .inr ⟨hwhy, hid, hlive, hroom, hlive ▸ hfull⟩, ?_⟩
    rw [hid, hlive]
    constructor
    · rintro ⟨hnone, -⟩
      exact .inr hnone.symm
    · rintro (hrate | hnone)
      · exact absurd hrate hlimit
      · exact ⟨hnone.symm, by simp [live, Server.others, hnone]⟩
  · have hafter : after = { s with limiter := (s.limiter.acquire readings.admission).2 } := by
      simp only [after, hreceive]
    rw [hreceive] at refused
    have hfault : fault = .rateLimited := by
      simpa [Reply.refusal] using refused.symm
    have hsame : after.sessionId = s.sessionId ∧ live after = live s := by
      simp only [live, hafter, and_self]
    exact ⟨by rw [hafter], by rw [hafter], .inl ⟨hfault, hsame⟩, iff_of_true hsame (.inl hfault)⟩

/-- A server with its own session and one of the host's, after the host has lowered the cap to one. -/
def crowded : Server Unit :=
  ((Server.ofOptions {} 0).play () [
    .message ⟨0, 0, 0, 0, "own"⟩ (handshakeOf [("id", .int 1)] "a"),
    .call (.changeSessions fun c => { (c.create "host" "h" 0).2 with maxSessions := 1 })]).server

/-- A second handshake is refused, and the session of the first is gone. -/
theorem crowded_ends_own_session :
    let refused := crowded.receive () ⟨1, 1, 1, 1, "new"⟩ (handshakeOf [("id", .int 2)] "b")
    crowded.sessionId = some "own" ∧ "own" ∈ crowded.sessions.table.keys ∧
      refused.value = some ⟨.number (.whole 2),
        .error ⟨.sessionLimit, CapacityReached.message ⟨1⟩, none⟩⟩ ∧
      refused.server.sessionId = none ∧
      refused.server.sessions.live 1 = [("host", ⟨"h", 0, 0⟩)] ∧
      refused.server.clientName = "a" ∧ refused.server.phase = .handshaking := by
  intro refused
  have request : Message.ofJson (handshakeOf [("id", .int 2)] "b") =
      .ok (.request (.number (.whole 2)) "initialize"
        (some (.object [("clientInfo", .object [("name", .string "b")])]))) := by rfl
  have hvalue : refused.value = some ⟨.number (.whole 2),
      .error ⟨.sessionLimit, CapacityReached.message ⟨1⟩, none⟩⟩ := by rfl
  obtain ⟨hname, hphase, hcause, -⟩ := refused_handshake_ends_own_session crowded ()
    ⟨1, 1, 1, 1, "new"⟩ request hvalue
  obtain ⟨hrate, -⟩ | ⟨-, hid, hlive, -⟩ := hcause
  · exact absurd hrate (sessionLimit_ne_rateLimited _)
  · exact ⟨rfl, by decide, hvalue, hid, hlive, hname, hphase⟩

end ContextServer
