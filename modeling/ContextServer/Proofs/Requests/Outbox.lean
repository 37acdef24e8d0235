import ContextServer.Proofs.Requests.Tables
import Mathlib.Data.List.Induction
import Mathlib.Data.List.Nodup

/-!
One table of requests to the client, in the hands of an owner who queues requests under identifiers of
the table's or of the owner's choice, passes answers on, gives requests up and takes texts for sending,
in any order. The identifiers that the table gives out ascend until the largest is used up. A request
is sent if nothing was sent since it was queued, and its answer is awaited if it was neither answered
nor given up since: the two are kept apart, so a text may be sent whose answer nobody awaits.
-/

namespace ContextServer

/-- One operation on a table of requests. -/
inductive OutboundStep where
  | queue (request : ClientRequest) (label : String) (now : Instant)
  | queueWithId (id : Int) (request : ClientRequest) (label : String) (now : Instant)
  | resolve (id : Int)
  | prune (now : Instant) (timeout : Span)
  | drain

/-- A request as it was queued. -/
structure Queued where
  id : Int
  request : ClientRequest
  label : String
  sentAt : Instant

def Queued.text (q : Queued) : String := Outbound.requestText q.id q.request

/-- A queued request as it stands in the table. -/
def Queued.entry (q : Queued) : Int × PendingRequest := (q.id, ⟨q.label, q.sentAt⟩)

namespace OutboundStep

/-- The identifier that the owner chooses. -/
def chosenId? : OutboundStep → Option Int
  | queueWithId id _ _ _ => some id
  | _ => none

def drains : OutboundStep → Bool
  | drain => true
  | _ => false

end OutboundStep

/-- A request ceases to be awaited when it is answered, or given up after its time. -/
def Queued.endedBy (q : Queued) : OutboundStep → Bool
  | .resolve id => q.id == id
  | .prune now timeout => timeout < now.since q.sentAt
  | _ => false

namespace Outbound

def perform (o : Outbound) : OutboundStep → Outbound
  | .queue request label now => (o.queue request label now).2
  | .queueWithId id request label now => o.queueWithId id request label now
  | .resolve id => (o.resolve id).2
  | .prune now timeout => (o.prune now timeout).2
  | .drain => o.drain.2

def after (o : Outbound) (steps : List OutboundStep) : Outbound := steps.foldl perform o

/-- The request that a step queues. -/
def queued? (o : Outbound) : OutboundStep → Option Queued
  | .queue request label now => some ⟨o.nextId, request, label, now⟩
  | .queueWithId id request label now => some ⟨id, request, label, now⟩
  | _ => none

/-- The requests that a run queues, each with the steps after it. -/
def queuings (o : Outbound) : List OutboundStep → List (Queued × List OutboundStep)
  | [] => []
  | step :: rest => ((o.queued? step).map fun q => (q, rest)).toList ++ (o.perform step).queuings rest

/-- The identifiers that a run uses. -/
def usedIds (o : Outbound) (steps : List OutboundStep) : List Int :=
  (o.queuings steps).map fun queuing => queuing.1.id

/-- The requests of a run that have passed every step since they were queued. -/
def standing (o : Outbound) (passes : Queued → OutboundStep → Bool) (steps : List OutboundStep) :
    List Queued :=
  ((o.queuings steps).filter fun queuing => queuing.2.all (passes queuing.1)).map Prod.fst

/-- The requests whose texts were not taken yet. -/
def unsent (o : Outbound) (steps : List OutboundStep) : List Queued :=
  o.standing (fun _ step => !step.drains) steps

/-- The requests that were neither answered nor given up. -/
def awaited (o : Outbound) (steps : List OutboundStep) : List Queued :=
  o.standing (fun q step => !q.endedBy step) steps

variable (o : Outbound)

/-! ### One more step -/

theorem after_concat (past : List OutboundStep) (step : OutboundStep) :
    o.after (past ++ [step]) = (o.after past).perform step := by
  simp only [after, List.foldl_append, List.foldl_cons, List.foldl_nil]

theorem queuings_concat (past : List OutboundStep) (step : OutboundStep) :
    o.queuings (past ++ [step]) =
      (o.queuings past).map (fun queuing => (queuing.1, queuing.2 ++ [step])) ++
        (((o.after past).queued? step).map fun q => (q, [])).toList := by
  induction past generalizing o with
  | nil => simp [queuings, after]
  | cons first rest ih =>
    rw [List.cons_append, queuings, ih (o.perform first), queuings, List.map_append,
      List.append_assoc]
    cases o.queued? first <;> rfl

theorem usedIds_concat (past : List OutboundStep) (step : OutboundStep) :
    o.usedIds (past ++ [step]) =
      o.usedIds past ++ ((o.after past).queued? step).toList.map Queued.id := by
  unfold usedIds
  rw [queuings_concat, List.map_append, List.map_map]
  cases (o.after past).queued? step <;> rfl

/-- A step lets the standing requests that it passes stand, and may queue one more. -/
theorem standing_concat (passes : Queued → OutboundStep → Bool) (past : List OutboundStep)
    (step : OutboundStep) :
    o.standing passes (past ++ [step]) =
      (o.standing passes past).filter (fun q => passes q step) ++
        ((o.after past).queued? step).toList := by
  unfold standing
  rw [queuings_concat, List.filter_append, List.map_append, passed_concat]
  cases (o.after past).queued? step <;> rfl

variable {o}

/-- A step that queues a request does what queueing under its identifier does. -/
theorem perform_of_queued {step : OutboundStep} {q : Queued} (h : o.queued? step = some q) :
    o.perform step = o.queueWithId q.id q.request q.label q.sentAt := by
  cases step with
  | queue request label now =>
    obtain rfl := Option.some.inj h
    rfl
  | queueWithId id request label now =>
    obtain rfl := Option.some.inj h
    rfl
  | _ => cases h

/-- Any other step gives out no identifier, and what waits after it waited before. -/
theorem perform_of_not_queued {step : OutboundStep} (h : o.queued? step = none) :
    (o.perform step).nextId = o.nextId ∧
      (o.perform step).pending.entries.Sublist o.pending.entries := by
  cases step with
  | queue request label now => cases h
  | queueWithId id request label now => cases h
  | resolve id =>
    have hnext : (o.resolve id).2.nextId = o.nextId := by
      unfold resolve
      split <;> rfl
    refine ⟨hnext, ?_⟩
    simp only [perform, resolve_pending]
    exact List.filter_sublist
  | prune now timeout => exact ⟨rfl, List.filter_sublist⟩
  | drain => exact ⟨rfl, List.Sublist.refl _⟩

/-! ### Identifiers that the table gives out -/

/-- The next identifier is above those used, as far as 64 bits go, and only used ones wait. -/
structure Ascending (o : Outbound) (used : List Int) : Prop where
  signed : Range64.Signed o.nextId
  above : ∀ id ∈ used, id ≤ Range64.maxSigned ∧ min (id + 1) Range64.maxSigned ≤ o.nextId
  pending : ∀ id ∈ o.pending.keys, id ∈ used

theorem ascending_new {first : Int} (signed : Range64.Signed first) :
    ({ nextId := first } : Outbound).Ascending [] where
  signed := signed
  above _ h := nomatch h
  pending _ h := nomatch h

theorem Ascending.signed_queued {used : List Int} (h : o.Ascending used) {step : OutboundStep}
    (chosen : ∀ id ∈ step.chosenId?, Range64.Signed id) {q : Queued} (hq : o.queued? step = some q) :
    Range64.Signed q.id := by
  cases step with
  | queue request label now =>
    obtain rfl := Option.some.inj hq
    exact h.signed
  | queueWithId id request label now =>
    obtain rfl := Option.some.inj hq
    exact chosen id rfl
  | _ => cases hq

theorem Ascending.perform {used : List Int} (h : o.Ascending used) {step : OutboundStep}
    (chosen : ∀ id ∈ step.chosenId?, Range64.Signed id) :
    (o.perform step).Ascending (used ++ (o.queued? step).toList.map Queued.id) := by
  cases hq : o.queued? step with
  | none =>
    obtain ⟨hnext, hpending⟩ := perform_of_not_queued hq
    simp only [Option.toList_none, List.map_nil, List.append_nil]
    refine ⟨hnext ▸ h.signed, fun id hid => hnext ▸ h.above id hid, fun id hid => ?_⟩
    exact h.pending id ((hpending.map Prod.fst).subset hid)
  | some q =>
    have hsigned := h.signed_queued chosen hq
    have hnext := h.signed
    rw [perform_of_queued hq]
    simp only [Option.toList_some, List.map_cons, List.map_nil]
    refine ⟨?signed, ?above, ?pending⟩
    case signed =>
      simp only [queueWithId]
      omega
    case above =>
      intro id hid
      simp only [queueWithId]
      rcases List.mem_append.mp hid with hid | hid
      · have := h.above id hid
        omega
      · rw [List.mem_singleton.mp hid]
        omega
    case pending =>
      intro id hid
      simp only [queueWithId, Roster.keys_insert] at hid
      split at hid
      · exact List.mem_append_left _ (h.pending id hid)
      · rcases List.mem_append.mp hid with hid | hid
        · exact List.mem_append_left _ (h.pending id hid)
        · exact List.mem_append_right _ hid

theorem Ascending.after {used : List Int} (h : o.Ascending used) {past : List OutboundStep}
    (chosen : ∀ step ∈ past, ∀ id ∈ step.chosenId?, Range64.Signed id) :
    (o.after past).Ascending (used ++ o.usedIds past) := by
  induction past using List.reverseRecOn with
  | nil => simpa [Outbound.after, usedIds, queuings] using h
  | append_singleton past step ih =>
    have hpast := ih fun earlier hearlier => chosen earlier (List.mem_append_left _ hearlier)
    have hlast := hpast.perform (chosen step (List.mem_append_right _ List.mem_cons_self))
    rwa [after_concat, usedIds_concat, ← List.append_assoc]

/-- An identifier that the table gives out is larger than all that were used before, just as long as
the largest there is was not among them; from then on it is the largest one again. A request under a
new identifier comes last and displaces none, and one under the largest displaces at most the request
that waits under it. -/
theorem given_id_above_iff {first : Int} (signed : Range64.Signed first) {past : List OutboundStep}
    (chosen : ∀ step ∈ past, ∀ id ∈ step.chosenId?, Range64.Signed id) (request : ClientRequest)
    (label : String) (now : Instant) :
    let new : Outbound := { nextId := first }
    let o := new.after past
    let id := (o.queue request label now).1
    let t := (o.queue request label now).2
    Range64.Signed id ∧
    ((∀ earlier ∈ new.usedIds past, earlier < id) ↔ Range64.maxSigned ∉ new.usedIds past) ∧
    (Range64.maxSigned ∈ new.usedIds past → id = Range64.maxSigned) ∧
    (Range64.maxSigned ∉ new.usedIds past →
      t.pending.entries = o.pending.entries ++ [(id, ⟨label, now⟩)]) ∧
    (∀ other, other ≠ id → t.pending.find? other = o.pending.find? other) := by
  intro new o id t
  have h : o.Ascending (new.usedIds past) := by
    simpa using (ascending_new signed).after chosen
  have hsigned : Range64.Signed id := h.signed
  have hlarger : Range64.maxSigned ∉ new.usedIds past → ∀ earlier ∈ new.usedIds past, earlier < id := by
    intro hunused earlier hearlier
    have habove : earlier ≤ Range64.maxSigned ∧ min (earlier + 1) Range64.maxSigned ≤ id :=
      h.above earlier hearlier
    have hne : earlier ≠ Range64.maxSigned := by
      rintro rfl
      exact hunused hearlier
    omega
  refine ⟨hsigned, ⟨fun hall hused => ?_, hlarger⟩, fun hused => ?_, fun hunused => ?_, ?_⟩
  · have := hall _ hused
    omega
  · have hmax : Range64.maxSigned ≤ Range64.maxSigned ∧
        min (Range64.maxSigned + 1) Range64.maxSigned ≤ id := h.above _ hused
    omega
  · refine Roster.entries_insert_of_not_mem _ _ fun hwaits => ?_
    exact absurd (hlarger hunused id (h.pending id hwaits)) (Int.lt_irrefl id)
  · intro other hother
    exact Roster.find?_insert_of_ne _ _ hother

/-- A request under the largest identifier, which leaves none above it. -/
def largestTaken : List OutboundStep :=
  [.queueWithId Range64.maxSigned ⟨"sampling/createMessage", .null⟩ "first" 0]

/-- The next request gets the largest identifier too, and takes the place of the one that waits. -/
theorem largestTaken_given_again :
    let new : Outbound := { nextId := 9000 }
    let o := new.after largestTaken
    let id := (o.queue ⟨"sampling/createMessage", .null⟩ "again" 5).1
    let t := (o.queue ⟨"sampling/createMessage", .null⟩ "again" 5).2
    Range64.Signed 9000 ∧
      (∀ step ∈ largestTaken, ∀ id ∈ step.chosenId?, Range64.Signed id) ∧
      Range64.maxSigned ∈ new.usedIds largestTaken ∧ id = Range64.maxSigned ∧
      ¬(∀ earlier ∈ new.usedIds largestTaken, earlier < id) ∧
      o.pending.find? id = some ⟨"first", 0⟩ ∧ t.pending.find? id = some ⟨"again", 5⟩ ∧
      t.pending.size = 1 := by
  intro new o id t
  have signed : Range64.Signed 9000 := by decide
  have chosen : ∀ step ∈ largestTaken, ∀ id ∈ step.chosenId?, Range64.Signed id := by
    unfold largestTaken
    decide
  have hused : Range64.maxSigned ∈ new.usedIds largestTaken := by decide
  obtain ⟨-, hlarger, hagain, -, -⟩ :=
    given_id_above_iff signed chosen ⟨"sampling/createMessage", .null⟩ "again" 5
  exact ⟨signed, chosen, hused, hagain hused, fun hall => hlarger.mp hall hused, rfl, rfl, rfl⟩

/-! ### What is sent and what is awaited -/

theorem outgoing_perform (step : OutboundStep) :
    (o.perform step).outgoing =
      (if step.drains then [] else o.outgoing) ++ (o.queued? step).toList.map Queued.text := by
  cases step with
  | resolve id => simp [perform, resolve_outgoing, OutboundStep.drains, queued?]
  | _ => simp [perform, queue, queueWithId, prune, drain, OutboundStep.drains, queued?, Queued.text]

/-- What is to be sent is what was queued since the last sending. -/
theorem outgoing_after (new : o.outgoing = []) (steps : List OutboundStep) :
    (o.after steps).outgoing = (o.unsent steps).map Queued.text := by
  induction steps using List.reverseRecOn with
  | nil => exact new
  | append_singleton past step ih =>
    have hunsent : o.unsent (past ++ [step]) = (o.unsent past).filter (fun _ => !step.drains) ++
        ((o.after past).queued? step).toList := o.standing_concat _ past step
    have hleft : (o.unsent past).filter (fun _ => !step.drains) =
        if step.drains then [] else o.unsent past := by
      cases step.drains with
      | true => exact List.filter_eq_nil_iff.mpr fun _ _ => Bool.false_ne_true
      | false => exact List.filter_eq_self.mpr fun _ _ => rfl
    rw [after_concat, outgoing_perform, ih, hunsent, hleft, List.map_append]
    cases step.drains <;> rfl

theorem id_mem_usedIds {passes : Queued → OutboundStep → Bool} {steps : List OutboundStep}
    {q : Queued} (h : q ∈ o.standing passes steps) : q.id ∈ o.usedIds steps := by
  obtain ⟨queuing, hqueuing, rfl⟩ := List.mem_map.mp h
  exact List.mem_map_of_mem (List.mem_filter.mp hqueuing).1

/-- A step ends the wait for some requests, and one that queues adds its own at the end. -/
theorem pending_perform {step : OutboundStep} {waiting : List Queued}
    (table : o.pending.entries = waiting.map Queued.entry)
    (fresh : ∀ q ∈ o.queued? step, ∀ other ∈ waiting, other.id ≠ q.id) :
    (o.perform step).pending.entries =
      (waiting.filter (fun q => !q.endedBy step) ++ (o.queued? step).toList).map
        Queued.entry := by
  have hadded {q : Queued} (hq : o.queued? step = some q) : q.id ∉ o.pending.keys := by
    unfold Roster.keys
    rw [table, List.map_map]
    intro hmem
    obtain ⟨other, hother, hid⟩ := List.mem_map.mp hmem
    exact fresh q hq other hother hid
  cases hq : o.queued? step with
  | some q =>
    have hkept : waiting.filter (fun q => !q.endedBy step) = waiting := by
      refine List.filter_eq_self.mpr fun other _ => ?_
      cases step with
      | queue | queueWithId => rfl
      | _ => cases hq
    rw [perform_of_queued hq, hkept, List.map_append, ← table]
    exact Roster.entries_insert_of_not_mem _ _ (hadded hq)
  | none =>
    rw [Option.toList_none, List.append_nil]
    cases step with
    | queue | queueWithId => cases hq
    | resolve id =>
      rw [perform, resolve_pending, table, List.filter_map]
      rfl
    | prune now timeout =>
      have hpass (q : Queued) : (!q.endedBy (.prune now timeout)) =
          decide (now.since q.sentAt ≤ timeout) := by
        simp only [Queued.endedBy, ← decide_not, Nat.not_lt]
      simp only [perform, prune, Roster.filter, table, List.filter_map, hpass]
      rfl
    | drain =>
      have hkept : waiting.filter (fun q => !q.endedBy .drain) = waiting :=
        List.filter_eq_self.mpr fun _ _ => rfl
      rw [hkept]
      exact table

/-- What waits is what was neither answered nor given up, where no identifier is used twice. -/
theorem pending_after (new : o.pending.entries = []) {steps : List OutboundStep}
    (distinct : (o.usedIds steps).Nodup) :
    (o.after steps).pending.entries = (o.awaited steps).map Queued.entry := by
  induction steps using List.reverseRecOn with
  | nil => exact new
  | append_singleton past step ih =>
    rw [usedIds_concat] at distinct
    obtain ⟨hpast, -, happart⟩ := List.nodup_append.mp distinct
    rw [after_concat, awaited, standing_concat]
    refine pending_perform (ih hpast) fun q hq other hother => ?_
    exact happart _ (id_mem_usedIds hother) _
      (List.mem_map_of_mem (Option.mem_toList.mpr hq))

/-- Under identifiers of their own, the requests that stand are those that no later step has ended. -/
theorem mem_standing_iff {ends : Queued → OutboundStep → Bool} {steps : List OutboundStep}
    (distinct : (o.usedIds steps).Nodup) {q : Queued} {later : List OutboundStep}
    (h : (q, later) ∈ o.queuings steps) :
    q ∈ o.standing (fun q step => !ends q step) steps ↔ later.any (ends q) = false := by
  rw [← Bool.not_eq_true', List.not_any_eq_all_not]
  constructor
  · intro hstands
    obtain ⟨⟨_, since⟩, hother, rfl⟩ := List.mem_map.mp hstands
    obtain ⟨hmem, hpasses⟩ := List.mem_filter.mp hother
    have hsame := List.inj_on_of_nodup_map distinct hmem h rfl
    obtain ⟨-, rfl⟩ := Prod.mk.inj hsame
    exact hpasses
  · intro hpasses
    exact List.mem_map.mpr ⟨(q, later), List.mem_filter.mpr ⟨h, hpasses⟩, rfl⟩

/-- A request waits in the table until a step ends the wait. -/
theorem find?_pending_after (new : o.pending.entries = []) {steps : List OutboundStep}
    (distinct : (o.usedIds steps).Nodup) {q : Queued} {later : List OutboundStep}
    (h : (q, later) ∈ o.queuings steps) :
    (o.after steps).pending.find? q.id =
      if later.any q.endedBy then none else some ⟨q.label, q.sentAt⟩ := by
  have htable := pending_after new distinct
  have hawaited : q ∈ o.awaited steps ↔ later.any q.endedBy = false :=
    mem_standing_iff distinct h
  have hids : ((o.awaited steps).map Queued.id).Nodup := by
    unfold awaited standing
    rw [List.map_map]
    exact distinct.sublist (List.filter_sublist.map _)
  have honce : (o.after steps).pending.keys.Nodup := by
    unfold Roster.keys
    rwa [htable, List.map_map]
  cases hended : later.any q.endedBy with
  | false =>
    have hmem : q ∈ o.awaited steps := hawaited.mpr hended
    refine Roster.find?_of_mem honce ?_
    rw [htable]
    exact List.mem_map_of_mem hmem
  | true =>
    rw [if_pos rfl]
    cases hfound : (o.after steps).pending.find? q.id with
    | none => rfl
    | some request =>
      -- the identifier is the request's own, so that it would have passed every step
      have hentry := Roster.mem_of_find? hfound
      rw [htable] at hentry
      obtain ⟨other, hother, heq⟩ := List.mem_map.mp hentry
      obtain ⟨⟨_, since⟩, hstands, rfl⟩ := List.mem_map.mp hother
      have hsame := List.inj_on_of_nodup_map distinct (List.mem_filter.mp hstands).1 h
        (Prod.mk.inj heq).1
      obtain ⟨rfl, rfl⟩ := Prod.mk.inj hsame
      exact absurd (hawaited.mp hother) (by simp [hended])

/-- What is taken for sending is what was queued since the last sending; and a request waits in the
table until it is answered or given up. So every text to be sent is one whose answer is awaited
exactly if no request was answered or given up before it was sent. -/
theorem unsent_awaited_iff (first : Int) {steps : List OutboundStep}
    (distinct : (({ nextId := first } : Outbound).usedIds steps).Nodup) :
    let new : Outbound := { nextId := first }
    let o := new.after steps
    o.drain.1 = (new.unsent steps).map Queued.text ∧
    (∀ q later, (q, later) ∈ new.queuings steps →
      o.pending.find? q.id =
        if later.any q.endedBy then none else some ⟨q.label, q.sentAt⟩) ∧
    ((∀ q ∈ new.unsent steps, o.pending.contains q.id = true) ↔
      ∀ q later, (q, later) ∈ new.queuings steps → later.any OutboundStep.drains = false →
        later.any q.endedBy = false) := by
  intro new o
  have hfound (q : Queued) (later : List OutboundStep) (h : (q, later) ∈ new.queuings steps) :
      o.pending.find? q.id = if later.any q.endedBy then none else some ⟨q.label, q.sentAt⟩ :=
    find?_pending_after rfl distinct h
  have hunsent (q : Queued) (later : List OutboundStep) (h : (q, later) ∈ new.queuings steps) :
      q ∈ new.unsent steps ↔ later.any OutboundStep.drains = false :=
    mem_standing_iff distinct h
  have hwaits (q : Queued) (later : List OutboundStep) (h : (q, later) ∈ new.queuings steps) :
      o.pending.contains q.id = true ↔ later.any q.endedBy = false := by
    rw [Roster.contains, hfound q later h]
    cases later.any q.endedBy <;> simp
  refine ⟨outgoing_after rfl steps, hfound, fun hall q later h hleft => ?_, fun hall q hq => ?_⟩
  · exact (hwaits q later h).mp (hall q ((hunsent q later h).mpr hleft))
  · obtain ⟨⟨_, later⟩, hmem, rfl⟩ := List.mem_map.mp hq
    have h := (List.mem_filter.mp hmem).1
    exact (hwaits _ later h).mpr (hall _ later h ((hunsent _ later h).mp hq))

/-- A request that is given up before its text is taken. -/
def expiredUnsent : List OutboundStep :=
  [.queue ⟨"sampling/createMessage", .null⟩ "late" 0, .prune 2000000000 1000000000]

/-- Its text is sent all the same, and no answer to it is awaited. -/
theorem expiredUnsent_sent :
    let new : Outbound := { nextId := 9000 }
    let o := new.after expiredUnsent
    (new.usedIds expiredUnsent).Nodup ∧
      o.drain.1 = [requestText 9000 ⟨"sampling/createMessage", .null⟩] ∧
      o.pending.find? 9000 = none ∧
      ¬∀ q ∈ new.unsent expiredUnsent, o.pending.contains q.id = true := by
  intro new o
  have distinct : (new.usedIds expiredUnsent).Nodup := by decide
  obtain ⟨hsent, hfound, hall⟩ := unsent_awaited_iff 9000 distinct
  let q : Queued := ⟨9000, ⟨"sampling/createMessage", .null⟩, "late", 0⟩
  have hqueued : (q, [.prune 2000000000 1000000000]) ∈ new.queuings expiredUnsent :=
    List.mem_singleton.mpr rfl
  refine ⟨distinct, hsent, hfound q _ hqueued, fun h => ?_⟩
  have hkept := hall.mp h q _ hqueued rfl
  cases hkept

end Outbound

end ContextServer
