import ContextServer.Proofs.Json.Agreement
import ContextServer.Proofs.Rosters
import ContextServer.Proofs.Server.Run
import ContextServer.Proofs.Server.Serving

/-!
Requests in flight as they come about: by taking requests up, noting cancellations and letting requests
go, from nothing. Only what is in flight is ever noted as cancelled, so a request that is taken up and
let go again leaves the rest as it was.
-/

namespace ContextServer

namespace InFlight

/-- What can come of tracking requests, from none on. -/
inductive Reachable : InFlight → Prop
  | none : Reachable {}
  | track {s : InFlight} (h : Reachable s) (id : RequestId) (token : Option String) :
    Reachable (s.track id token)
  | cancel {s : InFlight} (h : Reachable s) (id : RequestId) : Reachable (s.cancel id).2
  | complete {s : InFlight} (h : Reachable s) (id : RequestId) : Reachable (s.complete id).2

/-- Only what is in flight is noted as cancelled. Letting a request go takes out every entry that agrees
with it, and with it every note that does: that is where agreement has to be transitive. -/
theorem Reachable.contains_of_cancelled {s : InFlight} (h : s.Reachable) :
    ∀ id ∈ s.cancelled, s.requests.contains id = true := by
  induction h with
  | none => exact nofun
  | track h key token ih =>
    intro id hid
    exact Roster.contains_insert (ih id (List.mem_filter.mp hid).1) key token
  | @cancel s h key ih =>
    unfold InFlight.cancel
    split
    · rename_i hkey
      intro id hid
      dsimp only at hid
      split at hid
      · exact ih id hid
      · rcases List.mem_append.mp hid with hold | hnew
        · exact ih id hold
        · rw [List.mem_singleton.mp hnew]
          exact hkey
    · exact ih
  | @complete s h key ih =>
    intro id hid
    obtain ⟨hmem, hapart⟩ := List.mem_filter.mp hid
    obtain ⟨entry, hentry, hsame⟩ := (Roster.contains_iff _ _).mp (ih id hmem)
    refine (Roster.contains_iff _ _).mpr ⟨entry, List.mem_filter.mpr ⟨hentry, ?_⟩, hsame⟩
    cases hgone : entry.1 == key with
    | false => rfl
    | true =>
      have hkey : (id == key) = true := PartialEquivBEq.trans (PartialEquivBEq.symm hsame) hgone
      rw [hkey] at hapart
      cases hapart

/-- A request that was not in flight comes and goes without a trace. -/
theorem complete_track {s : InFlight} (h : s.Reachable) {id : RequestId} (hid : (id == id) = true)
    (hnew : s.requests.contains id = false) (token : Option String) :
    ((s.track id token).complete id).2 = s := by
  have hentries : ∀ entry ∈ s.requests.entries, (entry.1 == id) = false := by
    intro entry hentry
    cases hsame : entry.1 == id with
    | false => rfl
    | true =>
      rw [(Roster.contains_iff _ _).mpr ⟨entry, hentry, hsame⟩] at hnew
      cases hnew
  have hnotes : ∀ other ∈ s.cancelled, (!(other == id)) = true := by
    intro other hother
    obtain ⟨entry, hentry, hsame⟩ :=
      (Roster.contains_iff _ _).mp (h.contains_of_cancelled other hother)
    cases hnoted : other == id with
    | false => rfl
    | true =>
      have hgone := hentries entry hentry
      rw [PartialEquivBEq.trans hsame hnoted] at hgone
      cases hgone
  have hrequests : (s.requests.insert id token).erase id = s.requests := by
    unfold Roster.insert Roster.erase
    rw [Roster.put_of_new hentries, List.filter_append, List.filter_eq_self.mpr]
    · simp [hid]
    · intro entry hentry
      rw [hentries entry hentry]
      rfl
  unfold InFlight.track InFlight.complete
  dsimp only
  rw [hrequests, List.filter_eq_self.mpr hnotes, List.filter_eq_self.mpr hnotes]

end InFlight

/-! ### Servers -/

variable {Device : Type} {s : Server Device}

theorem callTool_reachable (h : s.inFlight.Reachable) (device : Device) (readings : Readings)
    (id : RequestId) (params : Json) :
    (s.callTool device readings id params).server.inFlight.Reachable := by
  unfold Server.callTool
  split
  · exact h
  · split
    · exact h
    · dsimp only
      split
      · exact h
      · simp only [Step.map, Server.runTool]
        cases Server.progressToken? params with
        | none => exact h
        | some token => exact (h.track id (some token)).complete id

theorem serve_reachable (h : s.inFlight.Reachable) (device : Device) (readings : Readings)
    (id : RequestId) (params : Option Json) (m : Method) :
    (s.serve device readings id params m).server.inFlight.Reachable := by
  by_cases hm : m = .callTool
  · subst hm
    exact callTool_reachable h device readings id _
  · rw [(s.serve_frame device readings id params m).inFlight hm]
    exact h

theorem receive_reachable (h : s.inFlight.Reachable) (device : Device) (readings : Readings)
    (v : Json) : (s.receive device readings v).server.inFlight.Reachable := by
  unfold Server.receive
  split
  · exact h
  · rename_i id method params _
    have hlimited : ({ s with limiter := (s.limiter.acquire readings.admission).2 } :
        Server Device).inFlight.Reachable := h
    simp only [Step.map, Server.receiveRequest]
    split
    · simp only [Server.serveNamed]
      split
      · exact serve_reachable hlimited device readings id params _
      · exact h
    · exact h
  · rename_i method params _
    simp only [Step.map, Server.receiveNotification]
    split
    · rw [s.confirmHandshake_frame]
      exact h
    · split
      · unfold Server.cancelRequest
        split
        · exact h.cancel _
        · exact h
      · split
        · exact serve_reachable h device readings .null params _
        · exact h
  · rename_i reply _
    have frame := s.receiveAnswer_frame device reply
    simp only [Step.map]
    rw [frame]
    exact h

/-- Where the host changes the requests in flight, it leaves what can come of tracking. -/
def Move.tracks : Move Device → Prop
  | .call (.changeInFlight change) => ∀ t : InFlight, t.Reachable → (change t).Reachable
  | _ => True

theorem move_reachable (h : s.inFlight.Reachable) (device : Device) {m : Move Device}
    (tracks : m.tracks) : (s.move device m).server.inFlight.Reachable := by
  cases m with
  | message readings v => exact receive_reachable h device readings v
  | call c =>
    cases c with
    | changeInFlight change => exact tracks s.inFlight h
    | log level logger data =>
      simp only [Server.move, Step.map, Server.perform, Server.flagged, Server.log]
      split <;> exact h
    | _ => exact h

/-- At every time of a run the requests in flight are what can come of tracking. -/
theorem play_reachable (h : s.inFlight.Reachable) (device : Device) {history : List (Move Device)}
    (tracks : ∀ m ∈ history, m.tracks) : (s.play device history).server.inFlight.Reachable := by
  induction history generalizing s device with
  | nil => exact h
  | cons m rest ih =>
    have hfirst := move_reachable h device (tracks m List.mem_cons_self)
    rw [Server.play_cons]
    exact ih hfirst _ fun m' hm' => tracks m' (List.mem_cons_of_mem m hm')

end ContextServer
