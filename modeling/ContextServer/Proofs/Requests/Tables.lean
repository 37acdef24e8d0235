import ContextServer.Proofs.Requests.Account
import ContextServer.Proofs.Rosters
import ContextServer.Proofs.Server.Serving
import Mathlib.Data.List.Find

/-!
The tables of the requests to the client. What a server keeps of its requests, which of them wait for
an answer and which texts are still to be sent, is at every moment what the account of the history
says: so an answer finds the one request that it names, whatever came in between.
-/

namespace ContextServer

variable {Device : Type}

/-! ### The server's tables -/

def Server.outbound (s : Server Device) : AskKind → Outbound
  | .sampling => s.sampling
  | .elicitation => s.elicitation

/-- A waiting request as it stands in its table. -/
def Asked.entry (a : Asked) : Int × PendingRequest := (a.id, ⟨a.label, a.sentAt⟩)

/-- The server's tables are those of the account. -/
structure Tracks (history : List (Move Device)) (s : Server Device) : Prop where
  next : s.nextRequestId = nextAsk history
  pending : ∀ kind, (s.outbound kind).pending.entries =
    ((waiting history).filter fun a => a.kind = kind).map Asked.entry
  outgoing : ∀ kind, (s.outbound kind).outgoing =
    ((unsent history).filter fun a => a.kind = kind).map Asked.text

theorem waiting_append (history : List (Move Device)) (m : Move Device) :
    waiting (history ++ [m]) =
      (waiting history).filter (fun a => !a.endedBy m) ++ (m.asked? (nextAsk history)).toList :=
  standing_append _ history m

theorem unsent_append (history : List (Move Device)) (m : Move Device) :
    unsent (history ++ [m]) =
      (unsent history).filter (fun _ => !m.drains) ++ (m.asked? (nextAsk history)).toList :=
  standing_append _ history m

/-! ### Moves that have nothing to do with requests -/

def Event.requestId? : Event → Option Int
  | .opened _ => none
  | .sampled id _ _ => some id
  | .elicited id _ _ => some id

def Event.isCallback (e : Event) : Bool := e.requestId?.isSome

structure SameRequests (s t : Server Device) : Prop where
  sampling : t.sampling = s.sampling
  elicitation : t.elicitation = s.elicitation
  next : t.nextRequestId = s.nextRequestId

theorem SameRequests.outbound {s t : Server Device} (h : SameRequests s t) (kind : AskKind) :
    t.outbound kind = s.outbound kind := by
  cases kind with
  | sampling => exact h.sampling
  | elicitation => exact h.elicitation

theorem Tracks.quiet {history : List (Move Device)} {s t : Server Device} {m : Move Device}
    (h : Tracks history s) (same : SameRequests s t) (hask : ∀ id, m.asked? id = none)
    (hend : ∀ a : Asked, a.endedBy m = false) (hdrain : m.drains = false) :
    Tracks (history ++ [m]) t where
  next := by rw [same.next, h.next, nextAsk_append, hask]; simp
  pending kind := by
    rw [same.outbound, h.pending, waiting_append, hask]
    simp [hend]
  outgoing kind := by
    rw [same.outbound, h.outgoing, unsent_append, hask]
    simp [hdrain]

theorem Method.Frame.sameRequests {s t : Server Device} {m : Method} (h : m.Frame s t) :
    SameRequests s t := by
  rw [h.rest]
  exact ⟨rfl, rfl, rfl⟩

/-- A message that is no answer leaves the requests alone. -/
theorem receive_sameRequests (s : Server Device) (device : Device) (readings : Readings) (v : Json)
    (h : (Move.message readings v : Move Device).reply? = none) :
    SameRequests s (s.receive device readings v).server ∧
      ∀ e ∈ (s.receive device readings v).events, e.isCallback = false := by
  cases s.receive_handled device readings v with
  | served id params m limiter carried step =>
    obtain ⟨f, hf⟩ := step
    rw [hf]
    have hs := (({ s with limiter } : Server Device).serve_frame device readings id params m).sameRequests
    refine ⟨⟨hs.sampling, hs.elicitation, hs.next⟩, ?_⟩
    intro e he
    obtain ⟨name, rfl⟩ := Server.serve_events _ device readings id params m e he
    rfl
  | answered reply carried message step => simp [Move.reply?, message] at h
  | idle limiter phase inFlight carried message server device events =>
    rw [server, events]
    exact ⟨⟨rfl, rfl, rfl⟩, by simp⟩

/-- So do the calls of the host that neither ask, nor give up, nor drain. -/
theorem perform_sameRequests (s : Server Device) (device : Device) (c : HostCall Device)
    (hask : ∀ id, (Move.call c).asked? id = none) (hdrain : (Move.call c).drains = false)
    (hprune : ∀ now timeout, c ≠ .pruneRequests now timeout) :
    SameRequests s (s.perform device c).server := by
  cases c with
  | requestSampling request label now => exact absurd (hask 0) (by simp [Move.asked?])
  | requestElicitation request label now => exact absurd (hask 0) (by simp [Move.asked?])
  | pruneRequests now timeout => exact absurd rfl (hprune now timeout)
  | drainRequests => exact absurd hdrain (by simp [Move.drains])
  | log level logger data =>
    simp only [Server.perform, Server.flagged, Server.log]
    split <;> exact ⟨rfl, rfl, rfl⟩
  | _ => exact ⟨rfl, rfl, rfl⟩

/-! ### Asking, giving up, draining -/

theorem Tracks.asked {history : List (Move Device)} {s t : Server Device} {m : Move Device} {a : Asked}
    (h : Tracks history s) (hask : m.asked? s.nextRequestId = some a)
    (hend : ∀ a : Asked, a.endedBy m = false) (hdrain : m.drains = false)
    (hnext : t.nextRequestId = s.nextRequestId + 1)
    (hother : ∀ kind, kind ≠ a.kind → t.outbound kind = s.outbound kind)
    (hkind : t.outbound a.kind =
      (s.outbound a.kind).queueWithId a.id a.request a.label a.sentAt) :
    Tracks (history ++ [m]) t where
  next := by
    rw [h.next] at hask hnext
    rw [hnext, nextAsk_append, hask]
    rfl
  pending kind := by
    rw [h.next] at hask
    rw [waiting_append, hask]
    by_cases hk : kind = a.kind
    · subst hk
      have hfresh : a.id ∉ (s.outbound a.kind).pending.keys := by
        simp only [Roster.keys, h.pending, List.map_map, List.mem_map]
        rintro ⟨b, hb, hid⟩
        have hlt := (standing_bounds _ history b (List.mem_filter.mp hb).1).2
        have ha := asked?_id hask
        simp only [Function.comp_apply, Asked.entry] at hid
        omega
      rw [hkind]
      simp only [Outbound.queueWithId]
      rw [Roster.entries_insert_of_not_mem _ _ hfresh, h.pending]
      simp [hend, Asked.entry]
    · rw [hother kind hk, h.pending]
      simp [hend, Ne.symm hk]
  outgoing kind := by
    rw [h.next] at hask
    rw [unsent_append, hask]
    by_cases hk : kind = a.kind
    · subst hk
      rw [hkind]
      simp [Outbound.queueWithId, h.outgoing, hdrain, Asked.text]
    · rw [hother kind hk, h.outgoing]
      simp [hdrain, Ne.symm hk]

theorem Tracks.pruned {history : List (Move Device)} {s : Server Device} (h : Tracks history s)
    (now : Instant) (timeout : Span) :
    Tracks (history ++ [.call (.pruneRequests now timeout)]) (s.pruneRequests now timeout).2 where
  next := by
    have hn : (s.pruneRequests now timeout).2.nextRequestId = s.nextRequestId := rfl
    rw [hn, h.next, nextAsk_append]
    simp [Move.asked?]
  pending kind := by
    have hp : ((s.pruneRequests now timeout).2.outbound kind).pending.entries =
        (s.outbound kind).pending.entries.filter fun entry =>
          now.since entry.2.sentAt ≤ timeout := by
      cases kind <;> rfl
    have hpass (a : Asked) : (!a.endedBy (.call (.pruneRequests now timeout) : Move Device)) =
        decide (now.since a.sentAt ≤ timeout) := by
      simp only [Asked.endedBy, ← decide_not, Nat.not_lt]
    rw [hp, h.pending, waiting_append, List.filter_map]
    simp only [hpass, Move.asked?, Option.toList_none, List.append_nil, List.filter_filter,
      Bool.and_comm]
    rfl
  outgoing kind := by
    have ho : ((s.pruneRequests now timeout).2.outbound kind).outgoing = (s.outbound kind).outgoing := by
      cases kind <;> rfl
    rw [ho, h.outgoing, unsent_append]
    simp [Move.asked?, Move.drains]

theorem Tracks.drained {history : List (Move Device)} {s : Server Device} (h : Tracks history s) :
    Tracks (history ++ [.call .drainRequests]) s.drainRequests.2 where
  next := by
    have hn : s.drainRequests.2.nextRequestId = s.nextRequestId := rfl
    rw [hn, h.next, nextAsk_append]
    simp [Move.asked?]
  pending kind := by
    have hp : (s.drainRequests.2.outbound kind).pending = (s.outbound kind).pending := by
      cases kind <;> rfl
    rw [hp, h.pending, waiting_append]
    simp [Move.asked?, Asked.endedBy, Move.reply?]
  outgoing kind := by
    have ho : (s.drainRequests.2.outbound kind).outgoing = [] := by
      cases kind <;> rfl
    rw [ho, unsent_append]
    simp [Move.asked?, Move.drains]

/-! ### Answers -/

/-- Within the range of identifiers, an answer names the number that it can be read as. -/
theorem ClientReply.names_iff (reply : ClientReply) {id : Int} (h : Range64.Signed id) :
    reply.names id = true ↔ reply.id.signed? = some id := by
  unfold ClientReply.names
  cases reply.id with
  | number n =>
    cases n with
    | whole i =>
      simp only [beq_iff_eq, RequestId.signed?, Number.signed?]
      constructor
      · rintro rfl
        rw [if_pos h]
      · intro hi
        split at hi
        · exact Option.some.inj hi
        · cases hi
    | real x => simp [RequestId.signed?, Number.signed?]
  | text s => simp [RequestId.signed?]
  | null => simp [RequestId.signed?]

theorem Outbound.resolve_pending (o : Outbound) (id : Int) :
    (o.resolve id).2.pending.entries = o.pending.entries.filter fun entry => !(entry.1 == id) := by
  unfold Outbound.resolve
  split
  · rename_i h
    exact (Roster.filter_entries_of_find?_eq_none _ h).symm
  · rfl

theorem Outbound.resolve_outgoing (o : Outbound) (id : Int) :
    (o.resolve id).2.outgoing = o.outgoing := by
  unfold Outbound.resolve
  split <;> rfl

/-- Among requests in order of issue, the one of an identifier is found in the table of its kind. -/
theorem find?_kind {as : List Asked} (h : as.Pairwise fun a b => a.id < b.id) (kind : AskKind)
    (id : Int) :
    (as.filter fun a => a.kind = kind).find? (fun a => a.id == id) =
      (as.find? fun a => a.id == id).filter fun a => a.kind = kind := by
  induction as with
  | nil => rfl
  | cons first rest ih =>
    obtain ⟨hfirst, hrest⟩ := List.pairwise_cons.mp h
    by_cases hid : first.id = id
    · by_cases hk : first.kind = kind
      · simp [hk, hid, Option.filter]
      · have hnone : (rest.filter fun a => a.kind = kind).find? (fun a => a.id == id) = none := by
          rw [List.find?_eq_none]
          intro b hb
          have hlt := hfirst b (List.mem_filter.mp hb).1
          simp only [beq_iff_eq]
          omega
        simp [hk, hid, Option.filter, hnone]
    · have hne : (first.id == id) = false := by simpa using hid
      rw [List.find?_cons, hne, ← ih hrest]
      by_cases hk : first.kind = kind
      · simp [hk, hid]
      · simp [hk]

/-- The table of a kind holds exactly the waiting request of the kind under an identifier. -/
theorem Tracks.find? {history : List (Move Device)} {s : Server Device} (h : Tracks history s)
    (kind : AskKind) (id : Int) :
    (s.outbound kind).pending.find? id =
      (((waiting history).find? fun a => a.id == id).filter fun a => a.kind = kind).map
        fun a => ⟨a.label, a.sentAt⟩ := by
  have hasc : (waiting history).Pairwise fun a b => a.id < b.id := standing_ascending _ history
  rw [Roster.find?, h.pending, List.find?_map, ← find?_kind hasc, Option.map_map]
  rfl

theorem Tracks.settled {history : List (Move Device)} {s t : Server Device} {m : Move Device}
    {reply : ClientReply} (h : Tracks history s) (hm : m.reply? = some reply)
    (next : t.nextRequestId = s.nextRequestId)
    (pending : ∀ kind, (t.outbound kind).pending.entries =
      (s.outbound kind).pending.entries.filter fun entry => !reply.names entry.1)
    (outgoing : ∀ kind, (t.outbound kind).outgoing = (s.outbound kind).outgoing) :
    Tracks (history ++ [m]) t := by
  cases m with
  | call c => simp [Move.reply?] at hm
  | message readings v =>
    have hend (a : Asked) : a.endedBy (.message readings v : Move Device) = reply.names a.id := by
      simp [Asked.endedBy, hm]
    refine ⟨?_, fun kind => ?_, fun kind => ?_⟩
    · rw [next, h.next, nextAsk_append]
      simp [Move.asked?]
    · rw [pending, h.pending, waiting_append, List.filter_map]
      simp only [hend, Move.asked?, Option.toList_none, List.append_nil, List.filter_filter,
        Bool.and_comm]
      rfl
    · rw [outgoing, h.outgoing, unsent_append]
      simp [Move.asked?, Move.drains]

/-- An answer within the server: the one table that has its number gives the request up. -/
theorem Server.receiveAnswer_eq (s : Server Device) (device : Device) (reply : ClientReply) {id : Int}
    (hid : reply.id.signed? = some id) :
    s.receiveAnswer device reply =
      match s.sampling.pending.find? id, s.elicitation.pending.find? id with
      | some request, _ => ⟨(), { s with sampling := (s.sampling.resolve id).2 }, device,
          [.sampled id request.label (.ofOutcome reply.outcome)]⟩
      | none, some request => ⟨(), { s with elicitation := (s.elicitation.resolve id).2 }, device,
          [.elicited id request.label (.ofOutcome reply.outcome)]⟩
      | none, none => ⟨(), s, device, []⟩ := by
  unfold Server.receiveAnswer Outbound.resolve
  rw [hid]
  dsimp only
  cases s.sampling.pending.find? id <;> cases s.elicitation.pending.find? id <;> rfl

/-- The answers that reach a request at all are those that name it. -/
theorem names_eq_of_few {history : List (Move Device)}
    (few : nextAsk history ≤ Range64.maxSigned + 1) (reply : ClientReply) :
    ∀ a ∈ waiting history, reply.names a.id = (reply.id.signed? == some a.id) := by
  intro a ha
  have hb := standing_bounds _ history a ha
  have hrange : Range64.Signed a.id := by
    unfold Range64.Signed Range64.minSigned
    unfold Range64.maxSigned at few ⊢
    omega
  rw [Bool.eq_iff_iff, reply.names_iff hrange, beq_iff_eq]

theorem Tracks.filter_pending {history : List (Move Device)} {s : Server Device}
    (h : Tracks history s) (kind : AskKind) (test test' : Int → Bool)
    (htest : ∀ a ∈ waiting history, test a.id = test' a.id) :
    (s.outbound kind).pending.entries.filter (fun entry => test entry.1) =
      (s.outbound kind).pending.entries.filter fun entry => test' entry.1 := by
  apply List.filter_congr
  intro entry hentry
  rw [h.pending] at hentry
  obtain ⟨a, ha, rfl⟩ := List.mem_map.mp hentry
  exact htest a (List.mem_filter.mp ha).1

/-- An answer settles the request that it names and tells the host, or does nothing. -/
theorem Tracks.answered {history : List (Move Device)} {s : Server Device} {m : Move Device}
    {reply : ClientReply} (h : Tracks history s) (few : nextAsk history ≤ Range64.maxSigned + 1)
    (hm : m.reply? = some reply) (device : Device) :
    Tracks (history ++ [m]) (s.receiveAnswer device reply).server ∧
      (s.receiveAnswer device reply).events = callbacksAt history m := by
  have hnames := names_eq_of_few few reply
  cases hid : reply.id.signed? with
  | none =>
    have hserver : s.receiveAnswer device reply = ⟨(), s, device, []⟩ := by
      simp only [Server.receiveAnswer, hid]
    have hnone : ∀ a ∈ waiting history, reply.names a.id = false := by
      intro a ha
      rw [hnames a ha, hid]
      rfl
    have hfind : (waiting history).find? (fun a => reply.names a.id) = none := by
      rw [List.find?_eq_none]
      intro a ha
      simp [hnone a ha]
    rw [hserver]
    refine ⟨h.settled hm rfl (fun kind => ?_) (fun kind => rfl), ?_⟩
    · have hall := h.filter_pending kind (fun i => !reply.names i) (fun _ => true)
        fun a ha => by simp [hnone a ha]
      exact (hall.trans (List.filter_eq_self.mpr fun _ _ => rfl)).symm
    · simp [callbacksAt, answeredAt, hm, hfind]
  | some id =>
    have hnames' : ∀ a ∈ waiting history, reply.names a.id = (a.id == id) := by
      intro a ha
      rw [hnames a ha, hid, Bool.eq_iff_iff, beq_iff_eq, beq_iff_eq, Option.some.injEq]
      exact eq_comm
    have hpending (kind : AskKind) : (s.outbound kind).pending.entries.filter
        (fun entry => !reply.names entry.1) =
          (s.outbound kind).pending.entries.filter fun entry => !(entry.1 == id) :=
      h.filter_pending kind (fun i => !reply.names i) (fun i => !(i == id))
        fun a ha => by rw [hnames' a ha]
    have hcallbacks : callbacksAt history m =
        (((waiting history).find? fun a => a.id == id).toList.map
          fun a => a.answered reply.outcome) := by
      simp only [callbacksAt, answeredAt, hm, List.find?_congr hnames']
    -- the tables have the request under this identifier, if any, in the one of its kind
    have hsampling := h.find? .sampling id
    have helicitation := h.find? .elicitation id
    have hkeep (kind : AskKind) (hnone : (s.outbound kind).pending.find? id = none) :
        (s.outbound kind).pending.entries =
          (s.outbound kind).pending.entries.filter fun entry => !reply.names entry.1 := by
      rw [hpending]
      exact (Roster.filter_entries_of_find?_eq_none _ hnone).symm
    rw [hcallbacks, s.receiveAnswer_eq device reply hid]
    cases hw : (waiting history).find? fun a => a.id == id with
    | none =>
      rw [hw] at hsampling helicitation
      simp only [Option.filter_none, Option.map_none, Server.outbound] at hsampling helicitation
      rw [hsampling, helicitation]
      refine ⟨h.settled hm rfl (fun kind => ?_) (fun kind => rfl), rfl⟩
      cases kind with
      | sampling => exact hkeep .sampling hsampling
      | elicitation => exact hkeep .elicitation helicitation
    | some a =>
      have ha : a.id = id := by simpa using List.find?_some hw
      rw [hw] at hsampling helicitation
      cases hk : a.kind with
      | sampling =>
        simp only [Option.filter, hk, decide_true, if_true, Option.map_some, reduceCtorEq,
          decide_false, Bool.false_eq_true, if_false, Option.map_none, Server.outbound]
          at hsampling helicitation
        rw [hsampling]
        refine ⟨h.settled hm rfl (fun kind => ?_) (fun kind => ?_), by simp [Asked.answered, hk, ha]⟩
        · cases kind with
          | sampling => exact (Outbound.resolve_pending s.sampling id).trans (hpending .sampling).symm
          | elicitation => exact hkeep .elicitation helicitation
        · cases kind with
          | sampling => exact Outbound.resolve_outgoing s.sampling id
          | elicitation => rfl
      | elicitation =>
        simp only [Option.filter, hk, decide_true, if_true, Option.map_some, reduceCtorEq,
          decide_false, Bool.false_eq_true, if_false, Option.map_none, Server.outbound]
          at hsampling helicitation
        rw [hsampling, helicitation]
        refine ⟨h.settled hm rfl (fun kind => ?_) (fun kind => ?_), by simp [Asked.answered, hk, ha]⟩
        · cases kind with
          | sampling => exact hkeep .sampling hsampling
          | elicitation =>
            exact (Outbound.resolve_pending s.elicitation id).trans (hpending .elicitation).symm
        · cases kind with
          | sampling => rfl
          | elicitation => exact Outbound.resolve_outgoing s.elicitation id

end ContextServer
