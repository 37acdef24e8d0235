import ContextServer.Proofs.Server.Serving
import ContextServer.Proofs.Tools.Replacement

/-!
A request that is refused changes nothing. A method finds out what is wrong before it changes the
server, so that an error leaves the server as the limiter passed it on; the handshake alone acts
first. What the limiter itself may change is told by `Server.SameButTokens`.
-/

namespace ContextServer

variable {Device : Type}

/-- The two servers are the same but for the bucket's level, its last refill and its counts. -/
def Server.SameButTokens (s t : Server Device) : Prop :=
  t = { s with limiter := { s.limiter with
    level := t.limiter.level
    refilledAt := t.limiter.refilledAt
    allowed := t.limiter.allowed
    denied := t.limiter.denied } }

theorem TokenBucket.acquire_frame {α : Type} [LevelArithmetic α] (b : TokenBucket α)
    (now : Instant) : (b.acquire now).2 = { b with
      level := (b.acquire now).2.level
      refilledAt := (b.acquire now).2.refilledAt
      allowed := (b.acquire now).2.allowed
      denied := (b.acquire now).2.denied } := by
  unfold TokenBucket.acquire
  split
  · rfl
  · dsimp only
    split <;> rfl

theorem Server.sameButTokens_acquire (s : Server Device) (now : Instant) :
    s.SameButTokens { s with limiter := (s.limiter.acquire now).2 } := by
  unfold Server.SameButTokens
  dsimp only
  rw [← s.limiter.acquire_frame now]

namespace Server

variable (s : Server Device) (device : Device) (readings : Readings) (id : RequestId)

/-! ### Methods -/

/-- A tool call fails only before it looks into the cache. -/
theorem callTool_of_error {params : Json} {fault : Fault}
    (h : (s.callTool device readings id params).value = .error fault) :
    (s.callTool device readings id params).server = s := by
  unfold callTool at h ⊢
  split at h
  · rfl
  · split at h
    · rfl
    · dsimp only at h
      split at h <;> cases h

theorem setSubscription_of_error {subscribe : Bool} {params : Json} {fault : Fault}
    (h : (s.setSubscription device subscribe params).value = .error fault) :
    (s.setSubscription device subscribe params).server = s := by
  unfold setSubscription at h ⊢
  split at h
  · rfl
  · cases h

theorem setLevel_of_error {params : Json} {fault : Fault}
    (h : (s.setLevel device params).value = .error fault) :
    (s.setLevel device params).server = s := by
  unfold setLevel at h ⊢
  split at h
  · cases h
  · rfl

/-- Of the methods that may change the server, each fails before it does. -/
theorem serve_of_error {params : Option Json} {m : Method} {fault : Fault} (hm : m ≠ .handshake)
    (h : (s.serve device readings id params m).value = .error fault) :
    (s.serve device readings id params m).server = s := by
  have frame := s.serve_frame device readings id params m
  cases m with
  | handshake => exact absurd rfl hm
  | callTool => exact s.callTool_of_error device readings id h
  | subscribe => exact s.setSubscription_of_error device h
  | unsubscribe => exact s.setSubscription_of_error device h
  | setLevel => exact s.setLevel_of_error device h
  | _ => exact frame

/-- Only a handshake is told outside. -/
theorem serve_silent (params : Option Json) {m : Method} (hm : m ≠ .handshake) :
    (s.serve device readings id params m).events = [] := by
  cases m with
  | handshake => exact absurd rfl hm
  | callTool =>
    simp only [serve, callTool]
    split
    · rfl
    · split
      · rfl
      · split <;> rfl
  | subscribe => simp only [serve, setSubscription]; split <;> rfl
  | unsubscribe => simp only [serve, setSubscription]; split <;> rfl
  | setLevel => simp only [serve, setLevel]; split <;> rfl
  | readResource =>
    simp only [serve, readResource]
    split
    · rfl
    · split <;> rfl
  | getPrompt =>
    simp only [serve, getPrompt]
    split
    · rfl
    · split
      · rfl
      · split <;> rfl
  | complete => simp only [serve, completeArgument]; split <;> rfl
  | _ => rfl

theorem serveNamed_of_error {method : String} {params : Option Json} {fault : Fault}
    (hmethod : method ≠ "initialize")
    (h : (s.serveNamed device readings id method params).value = .error fault) :
    (s.serveNamed device readings id method params).server = s ∧
      (s.serveNamed device readings id method params).events = [] := by
  unfold serveNamed at h ⊢
  split
  · rename_i m hm
    have hother : m ≠ .handshake := by
      rintro rfl
      exact hmethod (Method.name_of_ofName? hm).symm
    rw [hm] at h
    exact ⟨s.serve_of_error device readings id hother h, s.serve_silent device readings id params hother⟩
  · exact ⟨rfl, rfl⟩

end Server

/-! ### Requests -/

/-- A request that is answered with an error, a handshake apart, costs a token at the most: all else
of the server is as it was, and nothing is told outside. -/
theorem refused_request_changes_nothing (s : Server Device) (device : Device) (readings : Readings)
    {v : Json} {id : RequestId} {method : String} {params : Option Json} {fault : Fault}
    (request : Message.ofJson v = .ok (.request id method params)) (other : method ≠ "initialize")
    (refused : (s.receive device readings v).value = some ⟨id, .error fault⟩) :
    s.SameButTokens (s.receive device readings v).server ∧
      (s.receive device readings v).events = [] := by
  have htokens := s.sameButTokens_acquire readings.admission
  have hreceive : s.receive device readings v =
      (s.receiveRequest device readings id method params).map some := by
    simp only [Server.receive, request]
  rw [hreceive] at refused ⊢
  unfold Server.receiveRequest at refused ⊢
  dsimp only at refused ⊢
  split
  · rename_i admitted
    rw [if_pos admitted] at refused
    have hfault : (({ s with limiter := (s.limiter.acquire readings.admission).2 } :
        Server Device).serveNamed device readings id method params).value = .error fault := by
      simpa [Step.map] using refused
    obtain ⟨hserver, hevents⟩ := Server.serveNamed_of_error _ device readings id other hfault
    refine ⟨?_, hevents⟩
    simp only [Step.map]
    rw [hserver]
    exact htokens
  · exact ⟨htokens, rfl⟩

/-- A server that has stored a result of `t` and followed a resource, with `t` switched off since. -/
def switchedOff : Server Unit :=
  (stocked.play () [
    .message ⟨0, 0, 0, 0, ""⟩ (.object [("jsonrpc", .string "2.0"),
      ("method", .string "resources/subscribe"), ("params", .object [("uri", .string "u")])]),
    .call (.addToGroup "g" "t"), .call (.setGroupEnabled "g" false)]).server

theorem switchedOff_refuses :
    let refused := switchedOff.receive () ⟨1, 1, 1, 1, ""⟩ (callOfT 2)
    refused.value = some ⟨.number (.whole 2), .error (.invalidParams "Tool disabled: t")⟩ ∧
      switchedOff.SameButTokens refused.server ∧ refused.events = [] := by
  intro refused
  have request : Message.ofJson (callOfT 2) = .ok (.request (.number (.whole 2)) "tools/call"
      (some (.object [("name", .string "t")]))) := by rfl
  have hvalue : refused.value =
      some ⟨.number (.whole 2), .error (.invalidParams "Tool disabled: t")⟩ := by rfl
  exact ⟨hvalue, refused_request_changes_nothing switchedOff () ⟨1, 1, 1, 1, ""⟩ request (by decide)
    hvalue⟩

end ContextServer
