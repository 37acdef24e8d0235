import ContextServer.Proofs.Rosters
import ContextServer.Proofs.Sessions.Refusals
import Mathlib.Data.List.Induction

/-!
How long sessions last. A run of a session table is written down step by step, with whether each step
came through; the record tells when a session was opened and when it was last used. A session that is
within the timeout ends by its own removal alone, whatever the clock does, and the sessions stay
within a bound that does not change.
-/

namespace ContextServer

/-- One operation on a session table. -/
inductive SessionStep where
  | create (id clientName : String) (now : Timestamp)
  | validate (id : String) (now : Timestamp)
  | remove (id : String)
  | prune (now : Timestamp)
  | setMaxSessions (n : Nat)
  | setIdleTimeout (timeout : Span)

namespace Sessions

/-- A step, and whether it came through. -/
def perform (s : Sessions) : SessionStep → Bool × Sessions
  | .create id clientName now =>
    ((s.create id clientName now).1.isOk, (s.create id clientName now).2)
  | .validate id now => s.validate id now
  | .remove id => s.remove id
  | .prune now => (true, (s.prune now).2)
  | .setMaxSessions n => (true, { s with maxSessions := n })
  | .setIdleTimeout timeout => (true, { s with idleTimeout := timeout })

def after (s : Sessions) (steps : List SessionStep) : Sessions :=
  steps.foldl (fun s step => (s.perform step).2) s

/-- The steps of a run, with whether they came through. -/
def record (s : Sessions) : List SessionStep → List (SessionStep × Bool)
  | [] => []
  | step :: rest => (step, (s.perform step).1) :: (s.perform step).2.record rest

theorem after_concat (s : Sessions) (past : List SessionStep) (step : SessionStep) :
    s.after (past ++ [step]) = ((s.after past).perform step).2 := by
  simp only [after, List.foldl_append, List.foldl_cons, List.foldl_nil]

theorem record_concat (s : Sessions) (past : List SessionStep) (step : SessionStep) :
    s.record (past ++ [step]) = s.record past ++ [(step, ((s.after past).perform step).1)] := by
  induction past generalizing s with
  | nil => rfl
  | cons first rest ih => exact congrArg _ (ih (s.perform first).2)

/-! ### What a record tells -/

/-- The identifier under which a step opened a session. -/
def opened? : SessionStep × Bool → Option String
  | (.create id _ _, true) => some id
  | _ => none

/-- The client and the time of a step that opened a session under an identifier. -/
def opening? (id : String) : SessionStep × Bool → Option (String × Timestamp)
  | (.create other clientName now, true) => if other = id then some (clientName, now) else none
  | _ => none

/-- The time of a step that found a session under an identifier in use. -/
def touch? (id : String) : SessionStep × Bool → Option Timestamp
  | (.validate other now, true) => if other = id then some now else none
  | _ => none

/-- The time as of which a step sweeps. -/
def sweepsAt? : SessionStep → Option Timestamp
  | .create _ _ now | .prune now => some now
  | _ => none

variable {s : Sessions}

/-! ### One step -/

theorem mem_of_mem_live {now : Timestamp} {entry : String × Session} (h : entry ∈ s.live now) :
    entry ∈ s.table.entries :=
  (List.mem_filter.mp h).1

theorem create_eq (s : Sessions) (id clientName : String) (now : Timestamp) :
    s.create id clientName now =
      if 0 < s.maxSessions ∧ s.maxSessions ≤ (s.live now).length then
        (.error ⟨s.maxSessions⟩, { s with table := ⟨s.live now⟩ })
      else
        let live : Roster String Session := ⟨s.live now⟩
        (.ok (), { s with table := live.insert id ⟨clientName, now, now⟩ }) := by
  unfold create isFull
  simp only [s.sweep_eq now, count, Roster.size, Bool.and_eq_true, decide_eq_true_eq]

/-- A session under a new identifier comes last. -/
theorem create_of_new {id : String} {now : Timestamp} (new : s.table.find? id = none)
    (room : ¬(0 < s.maxSessions ∧ s.maxSessions ≤ (s.live now).length)) (clientName : String) :
    s.create id clientName now =
      (.ok (), { s with table := ⟨s.live now ++ [(id, ⟨clientName, now, now⟩)]⟩ }) := by
  have hput : Roster.put id ⟨clientName, now, now⟩ (s.live now) =
      s.live now ++ [(id, ⟨clientName, now, now⟩)] := by
    refine Roster.put_of_new (fun entry hentry => ?_) _
    have hmem := mem_of_mem_live hentry
    have hother := List.find?_eq_none.mp (Option.map_eq_none_iff.mp new) entry hmem
    simpa using hother
  rw [create_eq, if_neg room]
  simp only [Roster.insert, hput]

theorem nodup_live (once : s.table.keys.Nodup) (now : Timestamp) :
    (⟨s.live now⟩ : Roster String Session).keys.Nodup :=
  once.sublist (List.filter_sublist.map Prod.fst)

/-- A sweep keeps what is within the timeout. -/
theorem find?_live {now : Timestamp} {id : String} {session : Session} (once : s.table.keys.Nodup) :
    (⟨s.live now⟩ : Roster String Session).find? id = some session ↔
      s.table.find? id = some session ∧ session.Within s.idleTimeout now := by
  constructor
  · intro h
    obtain ⟨hmem, hlive⟩ := List.mem_filter.mp (Roster.mem_of_find? h)
    exact ⟨Roster.find?_of_mem once hmem, by simpa using hlive⟩
  · rintro ⟨hfound, hlive⟩
    refine Roster.find?_of_mem (nodup_live once now) ?_
    exact List.mem_filter.mpr ⟨Roster.mem_of_find? hfound, by simpa using hlive⟩

theorem nodup_perform (once : s.table.keys.Nodup) (step : SessionStep) :
    (s.perform step).2.table.keys.Nodup := by
  cases step with
  | create id clientName now =>
    simp only [perform, create_eq]
    split
    · exact nodup_live once now
    · exact Roster.nodup_keys_insert (nodup_live once now) _ _
  | validate id now =>
    simp only [perform, validate]
    split
    · exact once
    · exact Roster.nodup_keys_insert once _ _
  | remove id => exact Roster.nodup_keys_erase once id
  | prune now =>
    simp only [perform, prune, sweep_eq]
    exact nodup_live once now
  | setMaxSessions n => exact once
  | setIdleTimeout timeout => exact once

/-- How a session that is there after a step came to be as it is: it was opened or used by the step,
or was there before. -/
inductive Leaves (s : Sessions) (id : String) : SessionStep × Bool → Session → Prop
  | opened (clientName : String) (now : Timestamp) :
    Leaves s id (.create id clientName now, true) ⟨clientName, now, now⟩
  | used {old : Session} (now : Timestamp) (there : s.table.find? id = some old) :
    Leaves s id (.validate id now, true) { old with lastActivity := now }
  | kept {entry : SessionStep × Bool} {session : Session} (there : s.table.find? id = some session)
    (unopened : opening? id entry = none) (untouched : touch? id entry = none) :
    Leaves s id entry session

theorem leaves_perform (once : s.table.keys.Nodup) {step : SessionStep} {id : String}
    {session : Session} (h : (s.perform step).2.table.find? id = some session) :
    Leaves s id (step, (s.perform step).1) session := by
  -- a sweep adds nothing: what is found after it was there before
  cases step with
  | create other clientName now =>
    simp only [perform, create_eq] at h ⊢
    split at h
    · rename_i hfull
      rw [if_pos hfull]
      exact .kept ((find?_live once).mp h).1 rfl rfl
    · rename_i hroom
      rw [if_neg hroom]
      by_cases hid : id = other
      · subst hid
        obtain rfl : ⟨clientName, now, now⟩ = session := by simpa using h
        exact .opened clientName now
      · have hother : other ≠ id := fun heq => hid heq.symm
        simp only [Roster.find?_insert_of_ne _ _ hid] at h
        exact .kept ((find?_live once).mp h).1 (if_neg hother) rfl
  | validate other now =>
    simp only [perform, validate] at h ⊢
    cases hfound : s.table.find? other with
    | none =>
      simp only [hfound] at h ⊢
      exact .kept h rfl rfl
    | some old =>
      simp only [hfound] at h ⊢
      by_cases hid : id = other
      · subst hid
        obtain rfl : { old with lastActivity := now } = session := by simpa using h
        exact .used now hfound
      · have hother : other ≠ id := fun heq => hid heq.symm
        rw [Roster.find?_insert_of_ne _ _ hid] at h
        exact .kept h rfl (if_neg hother)
  | remove other =>
    simp only [perform, remove] at h ⊢
    by_cases hid : id = other
    · subst hid
      simp at h
    · rw [Roster.find?_erase_of_ne _ hid] at h
      exact .kept h rfl rfl
  | prune now =>
    simp only [perform, prune, sweep_eq] at h
    exact .kept ((find?_live once).mp h).1 rfl rfl
  | setMaxSessions n => exact .kept h rfl rfl
  | setIdleTimeout timeout => exact .kept h rfl rfl

/-- A step that is not the session's own removal keeps it, if it is within the timeout where the step
sweeps. -/
theorem contains_perform_of_live (once : s.table.keys.Nodup) {step : SessionStep} {id : String}
    {session : Session} (there : s.table.find? id = some session) (unremoved : step ≠ .remove id)
    (live : ∀ now, sweepsAt? step = some now → session.Within s.idleTimeout now) :
    (s.perform step).2.table.contains id = true := by
  have hcontains : s.table.contains id = true := by rw [Roster.contains, there, Option.isSome_some]
  have hlive (now : Timestamp) (hnow : sweepsAt? step = some now) :
      (⟨s.live now⟩ : Roster String Session).contains id = true := by
    rw [Roster.contains, (find?_live once).mpr ⟨there, live now hnow⟩, Option.isSome_some]
  cases step with
  | create other clientName now =>
    simp only [perform, create_eq]
    split
    · exact hlive now rfl
    · exact Roster.contains_insert (hlive now rfl) _ _
  | validate other now =>
    simp only [perform, validate]
    split
    · exact hcontains
    · exact Roster.contains_insert hcontains _ _
  | remove other =>
    have hid : id ≠ other := by
      rintro rfl
      exact unremoved rfl
    simp only [perform, remove, Roster.contains, Roster.find?_erase_of_ne _ hid, there,
      Option.isSome_some]
  | prune now =>
    simp only [perform, prune, sweep_eq]
    exact hlive now rfl
  | setMaxSessions n => exact hcontains
  | setIdleTimeout timeout => exact hcontains

/-- The sessions stay within a bound that a step does not change. -/
theorem count_perform_le (bounded : 0 < s.maxSessions) (within : s.count ≤ s.maxSessions)
    {step : SessionStep} (fixed : ∀ n, step = .setMaxSessions n → n = s.maxSessions) :
    (s.perform step).2.maxSessions = s.maxSessions ∧ (s.perform step).2.count ≤ s.maxSessions := by
  have hlive (now : Timestamp) : (s.live now).length ≤ s.maxSessions :=
    (List.length_filter_le _ _).trans within
  cases step with
  | create id clientName now =>
    simp only [perform, create_eq]
    split
    · exact ⟨rfl, hlive now⟩
    · rename_i hroom
      have hroom' : (s.live now).length < s.maxSessions := by omega
      refine ⟨rfl, ?_⟩
      simp only [count, Roster.size_insert]
      split
      · exact hlive now
      · exact hroom'
  | validate id now =>
    simp only [perform, validate]
    cases hfound : s.table.find? id with
    | none => exact ⟨rfl, within⟩
    | some session =>
      have hthere : id ∈ s.table.keys := by
        rw [← Roster.contains_iff_mem_keys, Roster.contains, hfound]
        rfl
      refine ⟨rfl, ?_⟩
      simp only [count, Roster.size_insert, if_pos hthere]
      exact within
  | remove id => exact ⟨rfl, (List.length_filter_le _ _).trans within⟩
  | prune now =>
    simp only [perform, prune, sweep_eq, count, Roster.size]
    exact ⟨trivial, hlive now⟩
  | setMaxSessions n =>
    obtain rfl := fixed n rfl
    exact ⟨rfl, within⟩
  | setIdleTimeout timeout => exact ⟨rfl, within⟩

/-! ### Runs -/

/-- A table's sessions are what a record says of them: each was opened once, and was last used when it
was last found in use, or else when it was opened. -/
structure Recorded (s : Sessions) (record : List (SessionStep × Bool)) : Prop where
  once : s.table.keys.Nodup
  opening : ∀ id session, s.table.find? id = some session →
    record.filterMap (opening? id) = [(session.clientName, session.createdAt)]
  lastUse : ∀ id session, s.table.find? id = some session →
    session.lastActivity = (record.filterMap (touch? id)).getLast?.getD session.createdAt
  /-- what was never opened was never found -/
  untouched : ∀ id, record.filterMap (opening? id) = [] → record.filterMap (touch? id) = []

theorem recorded_new (cap : Nat) (timeout : Span) :
    Recorded { maxSessions := cap, idleTimeout := timeout } [] where
  once := List.nodup_nil
  opening _ _ h := nomatch h
  lastUse _ _ h := nomatch h
  untouched _ _ := rfl

theorem opening?_eq_none {id : String} {entry : SessionStep × Bool} (h : opened? entry ≠ some id) :
    opening? id entry = none := by
  obtain ⟨step, flag⟩ := entry
  cases step with
  | create other clientName now =>
    cases flag with
    | true => exact if_neg fun heq => h (congrArg some heq)
    | false => rfl
  | _ => rfl

theorem openings_eq_nil {id : String} {record : List (SessionStep × Bool)}
    (h : id ∉ record.filterMap opened?) : record.filterMap (opening? id) = [] := by
  rw [List.filterMap_eq_nil_iff]
  intro entry hentry
  refine opening?_eq_none fun hopened => h ?_
  exact List.mem_filterMap.mpr ⟨entry, hentry, hopened⟩

/-- What a step opens was not opened before it. -/
theorem openings_before {record : List (SessionStep × Bool)} {entry : SessionStep × Bool}
    {id : String} (fresh : ((record ++ [entry]).filterMap opened?).Nodup)
    (h : opened? entry = some id) :
    record.filterMap (opening? id) = [] := by
  rw [List.filterMap_append, List.filterMap_cons_some h] at fresh
  refine openings_eq_nil fun hearlier => ?_
  exact (List.nodup_append.mp fresh).2.2 id hearlier id List.mem_cons_self rfl

theorem Recorded.find?_eq_none {record : List (SessionStep × Bool)} (h : Recorded s record)
    {id : String} (unopened : record.filterMap (opening? id) = []) : s.table.find? id = none := by
  cases hfound : s.table.find? id with
  | none => rfl
  | some session =>
    rw [h.opening id session hfound] at unopened
    cases unopened

/-- Only a session that is there is found in use. -/
theorem found_of_touch {step : SessionStep} {id : String} {now : Timestamp}
    (h : touch? id (step, (s.perform step).1) = some now) : s.table.find? id ≠ none := by
  cases step with
  | validate other later =>
    cases hfound : s.table.find? other with
    | none =>
      simp only [perform, validate, hfound] at h
      cases h
    | some session =>
      simp only [perform, validate, hfound] at h
      obtain ⟨rfl, -⟩ := Option.ite_none_right_eq_some.mp h
      rw [hfound]
      nofun
  | _ => cases h

theorem Recorded.perform {record : List (SessionStep × Bool)} (h : Recorded s record)
    {step : SessionStep}
    (fresh : ((record ++ [(step, (s.perform step).1)]).filterMap opened?).Nodup) :
    Recorded (s.perform step).2 (record ++ [(step, (s.perform step).1)]) := by
  have hfound {id : String} {now : Timestamp}
      (htouch : touch? id (step, (s.perform step).1) = some now) : s.table.find? id ≠ none :=
    found_of_touch htouch
  have leaves {id : String} {session : Session}
      (found : (s.perform step).2.table.find? id = some session) :
      Leaves s id (step, (s.perform step).1) session := leaves_perform h.once found
  generalize (step, (s.perform step).1) = entry at *
  refine ⟨nodup_perform h.once step, ?opening, ?lastUse, ?untouched⟩
  case opening =>
    intro id session found
    rw [List.filterMap_append]
    cases leaves found with
    | opened clientName now =>
      rw [openings_before fresh rfl]
      simp [opening?]
    | used now there =>
      have unopened : opening? id (.validate id now, true) = none := rfl
      simpa [unopened] using h.opening id _ there
    | kept there unopened => simpa [unopened] using h.opening id _ there
  case lastUse =>
    intro id session found
    rw [List.filterMap_append]
    cases leaves found with
    | opened clientName now =>
      rw [h.untouched id (openings_before fresh rfl)]
      simp [touch?]
    | used now there => simp [touch?]
    | kept there unopened untouched => simpa [untouched] using h.lastUse id _ there
  case untouched =>
    intro id hnone
    rw [List.filterMap_append, List.append_eq_nil_iff] at hnone ⊢
    refine ⟨h.untouched id hnone.1, ?_⟩
    cases htouch : touch? id entry with
    | none => rw [List.filterMap_cons_none htouch, List.filterMap_nil]
    -- what is found in use is in the table, and so it was opened
    | some now => exact absurd (h.find?_eq_none hnone.1) (hfound htouch)

/-- No two sessions of a run are opened under one identifier. -/
def OpensFresh (s : Sessions) (steps : List SessionStep) : Prop :=
  ((s.record steps).filterMap opened?).Nodup

theorem OpensFresh.of_concat {past : List SessionStep} {step : SessionStep}
    (h : s.OpensFresh (past ++ [step])) : s.OpensFresh past := by
  unfold OpensFresh at h
  rw [record_concat, List.filterMap_append] at h
  exact (List.nodup_append.mp h).1

theorem Recorded.after (new : Recorded s []) {past : List SessionStep} (fresh : s.OpensFresh past) :
    Recorded (s.after past) (s.record past) := by
  induction past using List.reverseRecOn with
  | nil => exact new
  | append_singleton past step ih =>
    have hpast := ih fresh.of_concat
    unfold OpensFresh at fresh
    rw [record_concat] at fresh ⊢
    rw [after_concat]
    exact hpast.perform fresh

theorem count_after_le (bounded : 0 < s.maxSessions) (within : s.count ≤ s.maxSessions)
    {steps : List SessionStep} (fixed : ∀ n, .setMaxSessions n ∈ steps → n = s.maxSessions) :
    (s.after steps).count ≤ s.maxSessions := by
  induction steps generalizing s with
  | nil => exact within
  | cons step rest ih =>
    obtain ⟨hbound, hcount⟩ := count_perform_le bounded within
      fun n hstep => fixed n (hstep ▸ List.mem_cons_self)
    rw [← hbound] at bounded hcount fixed ⊢
    exact ih bounded hcount fun n hn => fixed n (List.mem_cons_of_mem _ hn)

/-- A session is opened after a sweep, or refused where what the sweep leaves fills the table. It was
last used when it was last found in use, or else when it was opened. Nothing but its own removal ends
it within the timeout, and the sessions stay within a bound that does not change. The clock may go
back at any time. -/
theorem kept_while_live (cap : Nat) (timeout : Span) (past : List SessionStep) (step : SessionStep)
    (fresh : OpensFresh { maxSessions := cap, idleTimeout := timeout } (past ++ [step])) :
    let new : Sessions := { maxSessions := cap, idleTimeout := timeout }
    let record := new.record past
    let s := new.after past
    (∀ id clientName now, step = .create id clientName now →
      s.create id clientName now =
        if 0 < s.maxSessions ∧ s.maxSessions ≤ (s.live now).length then
          (.error ⟨s.maxSessions⟩, { s with table := ⟨s.live now⟩ })
        else
          (.ok (), { s with table := ⟨s.live now ++ [(id, ⟨clientName, now, now⟩)]⟩ })) ∧
    (∀ id session, s.table.find? id = some session →
      record.filterMap (opening? id) = [(session.clientName, session.createdAt)] ∧
        session.lastActivity =
          (record.filterMap (touch? id)).getLast?.getD session.createdAt) ∧
    (∀ id session, s.table.find? id = some session → step ≠ .remove id →
      (∀ now, sweepsAt? step = some now → session.Within s.idleTimeout now) →
      ∃ left, (s.perform step).2.table.find? id = some left ∧ (left = session ∨
        ∃ now, step = .validate id now ∧ left = { session with lastActivity := now })) ∧
    (0 < cap → (∀ n, .setMaxSessions n ∈ past → n = cap) → s.count ≤ cap) := by
  intro new record s
  have hnew : Recorded new [] := recorded_new cap timeout
  have recorded : Recorded s record := hnew.after fresh.of_concat
  have hfresh := fresh
  unfold OpensFresh at hfresh
  rw [record_concat] at hfresh
  refine ⟨?create, ?activity, ?kept, ?bound⟩
  case create =>
    rintro id clientName now rfl
    by_cases hfull : 0 < s.maxSessions ∧ s.maxSessions ≤ (s.live now).length
    · rw [create_eq, if_pos hfull, if_pos hfull]
    · have hopened : opened? (.create id clientName now,
          (s.perform (.create id clientName now)).1) = some id := by
        simp only [perform, create_eq, if_neg hfull]
        rfl
      have hnone := recorded.find?_eq_none (openings_before hfresh hopened)
      rw [create_of_new hnone hfull, if_neg hfull]
  case activity =>
    intro id session found
    exact ⟨recorded.opening id session found, recorded.lastUse id session found⟩
  case kept =>
    intro id session found unremoved live
    have hcontains := contains_perform_of_live recorded.once found unremoved live
    obtain ⟨left, hleft⟩ := Option.isSome_iff_exists.mp hcontains
    refine ⟨left, hleft, ?_⟩
    have hleaves := leaves_perform recorded.once hleft
    generalize hentry : (step, (s.perform step).1) = entry at hleaves
    cases hleaves with
    | opened clientName now =>
      have hopened : opened? (step, (s.perform step).1) = some id := hentry ▸ rfl
      have hnone := recorded.find?_eq_none (openings_before hfresh hopened)
      cases hnone.symm.trans found
    | used now there =>
      obtain rfl := Option.some.inj (there.symm.trans found)
      exact .inr ⟨now, congrArg Prod.fst hentry, rfl⟩
    | kept there => exact .inl (Option.some.inj (there.symm.trans found))
  case bound =>
    intro bounded fixed
    exact count_after_le (s := new) bounded (Nat.zero_le _) fixed

/-- A session that is used again after the clock went back. -/
def usedBackwards : List SessionStep :=
  [.create "a" "x" 100, .validate "a" 120, .validate "a" 105]

/-- The only place is taken for as long as the session there is within the timeout. -/
theorem usedBackwards_kept :
    let new : Sessions := { maxSessions := 1, idleTimeout := 10 }
    let s := new.after usedBackwards
    new.OpensFresh (usedBackwards ++ [.create "b" "y" 115]) ∧
      s.table.find? "a" = some ⟨"x", 100, 105⟩ ∧ (s.create "b" "y" 115).1 = .error ⟨1⟩ ∧
      ((s.perform (.create "b" "y" 115)).2.table.find? "a").isSome = true ∧ s.count ≤ 1 := by
  intro new s
  have fresh : new.OpensFresh (usedBackwards ++ [.create "b" "y" 115]) := by
    unfold OpensFresh
    decide
  have found : s.table.find? "a" = some ⟨"x", 100, 105⟩ := by rfl
  obtain ⟨hcreate, -, hkept, hbound⟩ :=
    kept_while_live 1 10 usedBackwards (.create "b" "y" 115) fresh
  have hrefused : (s.create "b" "y" 115).1 = .error ⟨1⟩ := by
    rw [hcreate "b" "y" 115 rfl]
    rfl
  obtain ⟨left, hleft, -⟩ := hkept "a" _ found nofun (by rintro now ⟨⟩; exact .inr (by decide))
  have unset : ∀ n, .setMaxSessions n ∈ usedBackwards → n = 1 := by simp [usedBackwards]
  exact ⟨fresh, found, hrefused, hleft ▸ rfl, hbound Nat.one_pos unset⟩

end Sessions

end ContextServer
