import ContextServer.Proofs.Requests.InFlight
import Mathlib.Data.List.Induction

/-!
What tracking remembers. A request is in flight from the time it is taken up until it is let go, with
the token of the last time it was taken up, and it is to be cancelled if that was asked for since then.
Nothing that is done to one identifier is seen under another. Identifiers are the same where they
agree: a whole number and a real never do, and the two zeros do.
-/

namespace ContextServer

/-- One operation on the requests in flight. -/
inductive Tracking where
  | track (id : RequestId) (token : Option String)
  | cancel (id : RequestId)
  | complete (id : RequestId)

namespace Tracking

def id : Tracking → RequestId
  | track id _ | cancel id | complete id => id

def tracks (key : RequestId) : Tracking → Bool
  | track id _ => id == key
  | _ => false

def cancels (key : RequestId) : Tracking → Bool
  | cancel id => id == key
  | _ => false

def completes (key : RequestId) : Tracking → Bool
  | complete id => id == key
  | _ => false

end Tracking

namespace InFlight

variable {key : RequestId}

def perform (s : InFlight) : Tracking → InFlight
  | .track id token => s.track id token
  | .cancel id => (s.cancel id).2
  | .complete id => (s.complete id).2

/-- What a run of operations makes of none in flight. -/
def after (past : List Tracking) : InFlight := past.foldl perform {}

/-- The identifier was last taken up with a token, and these operations came since then. -/
structure LastTracked (key : RequestId) (past : List Tracking) (token : Option String)
    (later : List Tracking) : Prop where
  split : ∃ before id, past = before ++ .track id token :: later ∧ (id == key) = true
  last : later.any (Tracking.tracks key) = false

/-- The token with which an identifier was last taken up, and the operations since then. -/
def lastTrack? (key : RequestId) : List Tracking → Option (Option String × List Tracking)
  | [] => none
  | .track id token :: rest =>
    (lastTrack? key rest).or (if id == key then some (token, rest) else none)
  | _ :: rest => lastTrack? key rest

/-! ### The last time -/

theorem lastTrack?_eq_none_iff {past : List Tracking} :
    lastTrack? key past = none ↔ past.any (Tracking.tracks key) = false := by
  induction past with
  | nil => simp [lastTrack?]
  | cons step rest ih =>
    cases step with
    | track id token => cases h : id == key <;> simp [lastTrack?, Tracking.tracks, h, ih]
    | _ => simpa [lastTrack?, Tracking.tracks] using ih

theorem lastTrack?_append (past later : List Tracking) :
    lastTrack? key (past ++ later) =
      (lastTrack? key later).or ((lastTrack? key past).map fun r => (r.1, r.2 ++ later)) := by
  induction past with
  | nil => simp [lastTrack?]
  | cons first rest ih =>
    cases first with
    | track id token =>
      rw [List.cons_append, lastTrack?, ih, lastTrack?, Option.or_assoc]
      cases lastTrack? key rest with
      | some found => rfl
      | none => cases id == key <;> rfl
    | _ => exact ih

theorem lastTrack?_eq_some_iff {past later : List Tracking} {token : Option String} :
    lastTrack? key past = some (token, later) ↔ LastTracked key past token later := by
  constructor
  · intro h
    induction past with
    | nil => cases h
    | cons step rest ih =>
      have hrest (h : lastTrack? key rest = some (token, later)) :
          LastTracked key (step :: rest) token later := by
        obtain ⟨⟨before, id, hsplit, hid⟩, hlast⟩ := ih h
        exact ⟨⟨step :: before, id, congrArg (step :: ·) hsplit, hid⟩, hlast⟩
      cases step with
      | track id first =>
        rw [lastTrack?, Option.or_eq_some_iff] at h
        rcases h with h | ⟨hnone, h⟩
        · exact hrest h
        · split at h
          · rename_i hid
            cases h
            exact ⟨⟨[], id, rfl, hid⟩, lastTrack?_eq_none_iff.mp hnone⟩
          · cases h
      | _ => exact hrest h
  · rintro ⟨⟨before, id, rfl, hid⟩, hlast⟩
    rw [lastTrack?_append, lastTrack?, lastTrack?_eq_none_iff.mpr hlast, hid]
    rfl

/-! ### One more operation -/

section Perform

variable (s : InFlight) (id : RequestId) (token : Option String)

theorem find?_track :
    (s.track id token).requests.find? key = if id == key then some token else s.requests.find? key :=
  Roster.find?_insert_agreeing _ _

theorem isCancelled_track :
    (s.track id token).isCancelled key = if id == key then false else s.isCancelled key :=
  Roster.any_filter_agreeing _

theorem requests_cancel : (s.cancel id).2.requests = s.requests := by
  unfold cancel
  split <;> rfl

theorem isCancelled_agreeing (h : (id == key) = true) : s.isCancelled id = s.isCancelled key := by
  unfold isCancelled
  simp only [Roster.beq_eq_of_agreeing h]

theorem contains_agreeing (h : (id == key) = true) :
    s.requests.contains id = s.requests.contains key := by
  rw [Roster.contains, Roster.contains, Roster.find?_agreeing _ h]

theorem isCancelled_cancel :
    (s.cancel id).2.isCancelled key =
      (s.isCancelled key || (id == key && s.requests.contains key)) := by
  cases h : id == key with
  | true =>
    rw [← contains_agreeing s id h, ← isCancelled_agreeing s id h]
    unfold cancel
    cases hfound : s.requests.contains id with
    | false => simpa using (isCancelled_agreeing s id h).symm
    | true =>
      cases hnoted : s.isCancelled id with
      | true => simpa [hnoted] using (isCancelled_agreeing s id h).symm.trans hnoted
      | false => simp [isCancelled, h]
  | false =>
    unfold cancel
    split
    · cases hnoted : s.isCancelled id <;> simp [isCancelled, h]
    · simp

theorem find?_complete :
    (s.complete id).2.requests.find? key = if id == key then none else s.requests.find? key :=
  Roster.find?_erase_agreeing _

theorem isCancelled_complete :
    (s.complete id).2.isCancelled key = if id == key then false else s.isCancelled key :=
  Roster.any_filter_agreeing _

end Perform

theorem after_concat (past : List Tracking) (step : Tracking) :
    after (past ++ [step]) = (after past).perform step := by
  simp only [after, List.foldl_append, List.foldl_cons, List.foldl_nil]

theorem reachable_after (past : List Tracking) : (after past).Reachable := by
  induction past using List.reverseRecOn with
  | nil => exact .none
  | append_singleton past step ih =>
    rw [after_concat]
    cases step with
    | track id token => exact ih.track id token
    | cancel id => exact ih.cancel id
    | complete id => exact ih.complete id

/-- What is done to an identifier is not seen under one that is apart from it. -/
theorem perform_apart (s : InFlight) {step : Tracking} (h : (step.id == key) = false) :
    (s.perform step).requests.find? key = s.requests.find? key ∧
      (s.perform step).isCancelled key = s.isCancelled key := by
  cases step with
  | track id token =>
    simp only [Tracking.id] at h
    simp [perform, find?_track, isCancelled_track, h]
  | cancel id =>
    simp only [Tracking.id] at h
    simp [perform, requests_cancel, isCancelled_cancel, h]
  | complete id =>
    simp only [Tracking.id] at h
    simp [perform, find?_complete, isCancelled_complete, h]

/-! ### A run -/

theorem isCancelled_contains {s : InFlight} (h : s.Reachable) (hkey : s.isCancelled key = true) :
    s.requests.contains key = true := by
  obtain ⟨id, hid, hsame⟩ := List.any_eq_true.mp hkey
  rw [← contains_agreeing s id hsame]
  exact h.contains_of_cancelled id hid

/-- What is found is the token of the last time, if the identifier was not let go since then. -/
theorem find?_after (past : List Tracking) (key : RequestId) :
    (after past).requests.find? key = (lastTrack? key past).bind fun r =>
      if r.2.any (Tracking.completes key) then none else some r.1 := by
  induction past using List.reverseRecOn with
  | nil => rfl
  | append_singleton past step ih =>
    rw [after_concat, lastTrack?_append]
    cases step with
    | track id token =>
      rw [perform, find?_track, ih]
      cases h : id == key <;> cases lastTrack? key past <;>
        simp [lastTrack?, Tracking.completes, h]
    | cancel id =>
      rw [perform, requests_cancel, ih]
      cases lastTrack? key past <;> simp [lastTrack?, Tracking.completes]
    | complete id =>
      rw [perform, find?_complete, ih]
      cases h : id == key <;> cases lastTrack? key past <;>
        simp [lastTrack?, Tracking.completes, h]

/-- An identifier is to be cancelled if that was asked for since the last time, and it was not let go. -/
theorem isCancelled_after (past : List Tracking) (key : RequestId) :
    (after past).isCancelled key = (lastTrack? key past).any fun r =>
      r.2.any (Tracking.cancels key) && !r.2.any (Tracking.completes key) := by
  induction past using List.reverseRecOn with
  | nil => rfl
  | append_singleton past step ih =>
    rw [after_concat, lastTrack?_append]
    cases step with
    | track id token =>
      rw [perform, isCancelled_track, ih]
      cases h : id == key <;> cases lastTrack? key past <;>
        simp [lastTrack?, Tracking.cancels, Tracking.completes, h]
    | cancel id =>
      have hlast : lastTrack? key [.cancel id] = none := rfl
      rw [perform, isCancelled_cancel, Roster.contains, find?_after, ih, hlast, Option.none_or]
      cases lastTrack? key past with
      | none => simp
      | some found =>
        simp only [Option.any_some, Option.bind_some, Option.map_some, List.any_append,
          List.any_cons, List.any_nil, Tracking.cancels, Tracking.completes, Bool.or_false]
        cases found.2.any (Tracking.completes key) <;> simp
    | complete id =>
      rw [perform, isCancelled_complete, ih]
      cases h : id == key <;> cases lastTrack? key past <;>
        simp [lastTrack?, Tracking.cancels, Tracking.completes, h]

theorem find?_after_eq_some_iff {past : List Tracking} {token : Option String} :
    (after past).requests.find? key = some token ↔
      ∃ later, LastTracked key past token later ∧ later.any (Tracking.completes key) = false := by
  simp only [← lastTrack?_eq_some_iff, find?_after, Option.bind_eq_some_iff]
  constructor
  · rintro ⟨⟨last, later⟩, hlast, h⟩
    split at h
    · cases h
    · rename_i hkept
      cases h
      exact ⟨later, hlast, eq_false_of_ne_true hkept⟩
  · rintro ⟨later, hlast, hkept⟩
    exact ⟨(token, later), hlast, by rw [hkept]; rfl⟩

theorem isCancelled_after_iff {past : List Tracking} :
    (after past).isCancelled key = true ↔
      ∃ token later, LastTracked key past token later ∧
        later.any (Tracking.cancels key) = true ∧ later.any (Tracking.completes key) = false := by
  simp only [← lastTrack?_eq_some_iff, isCancelled_after, Option.any_eq_true, Bool.and_eq_true,
    Bool.not_eq_true', Prod.exists]

/-- Any time at which the identifier was taken up serves, since the last one is not before it. -/
theorem contains_after_iff {past : List Tracking} :
    (after past).requests.contains key = true ↔
      ∃ before id token later, past = before ++ .track id token :: later ∧ (id == key) = true ∧
        later.any (Tracking.completes key) = false := by
  rw [Roster.contains, Option.isSome_iff_exists]
  simp only [find?_after_eq_some_iff]
  constructor
  · rintro ⟨token, later, ⟨⟨before, id, hsplit, hid⟩, -⟩, hkept⟩
    exact ⟨before, id, token, later, hsplit, hid, hkept⟩
  · rintro ⟨before, id, token, later, rfl, hid, hkept⟩
    cases hlast : lastTrack? key later with
    | none => exact ⟨token, later, ⟨⟨before, id, rfl, hid⟩, lastTrack?_eq_none_iff.mp hlast⟩, hkept⟩
    | some found =>
      obtain ⟨⟨between, id', hlater, hid'⟩, hnone⟩ := lastTrack?_eq_some_iff.mp hlast
      refine ⟨found.1, found.2, ⟨⟨before ++ .track id token :: between, id', ?_, hid'⟩, hnone⟩, ?_⟩
      · rw [List.append_assoc, List.cons_append, ← hlater]
      · rw [hlater, List.any_append, List.any_cons] at hkept
        exact (Bool.or_eq_false_iff.mp (Bool.or_eq_false_iff.mp hkept).2).2

/-- A request is in flight exactly if it was taken up and not let go since, with the token of the last
time, and it is to be cancelled exactly if that was asked for since the last time and it was not let go
since. What is to be cancelled is in flight. A cancellation and an end tell how the request stood, and
no operation on another identifier changes that. -/
theorem cancellations_tracked (past : List Tracking) (key : RequestId) :
    let s := after past
    (s.isCancelled key = true → s.requests.contains key = true) ∧
    (s.requests.contains key = true ↔
      ∃ before id token later, past = before ++ .track id token :: later ∧ (id == key) = true ∧
        later.any (Tracking.completes key) = false) ∧
    (∀ token, s.requests.find? key = some token ↔
      ∃ later, LastTracked key past token later ∧ later.any (Tracking.completes key) = false) ∧
    (s.isCancelled key = true ↔
      ∃ token later, LastTracked key past token later ∧
        later.any (Tracking.cancels key) = true ∧ later.any (Tracking.completes key) = false) ∧
    (s.cancel key).1 = s.requests.contains key ∧
    (s.complete key).1 = s.isCancelled key ∧
    (∀ step : Tracking, (step.id == key) = false →
      (s.perform step).requests.find? key = s.requests.find? key ∧
        (s.perform step).isCancelled key = s.isCancelled key) ∧
    (∀ (i : Int) (x : Float), (RequestId.number (.whole i) == .number (.real x)) = false) ∧
    (RequestId.number (.real 0.0) == .number (.real (-0.0))) = true := by
  intro s
  refine ⟨isCancelled_contains (reachable_after past), contains_after_iff,
    fun token => find?_after_eq_some_iff, isCancelled_after_iff, ?cancel, rfl,
    fun step => perform_apart s, fun i x => rfl, ?zeros⟩
  case cancel =>
    unfold cancel
    cases h : s.requests.contains key <;> rfl
  case zeros => decide

example : (after [.track (.text "a") none, .cancel (.text "a"), .track (.text "a") none]).isCancelled
    (.text "a") = false := rfl

end InFlight

end ContextServer
