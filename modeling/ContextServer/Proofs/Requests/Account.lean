import ContextServer.Proofs.Server.Run

/-!
The account of the requests to the client that a history gives: which requests were made, under which
identifiers, which of them still wait for an answer, and which texts are still to be sent. No
identifier is given twice, and so no request is answered or sent twice.
-/

namespace ContextServer

variable {Device : Type}

inductive AskKind where
  | sampling
  | elicitation
  deriving DecidableEq

/-- A request to the client as the history knows it. -/
structure Asked where
  kind : AskKind
  id : Int
  request : ClientRequest
  label : String
  sentAt : Instant

def Asked.text (a : Asked) : String := Outbound.requestText a.id a.request

/-- What the host is told of an answer, which is read as the kind of the request wants it. -/
def Asked.answered (a : Asked) (outcome : Except Json Json) : Event :=
  match a.kind with
  | .sampling => .sampled a.id a.label (.ofOutcome outcome)
  | .elicitation => .elicited a.id a.label (.ofOutcome outcome)

/-- An answer names a request by its whole number, and by nothing else. -/
def ClientReply.names (reply : ClientReply) (id : Int) : Bool :=
  match reply.id with
  | .number (.whole i) => i == id
  | _ => false

namespace Move

/-- The request that a move makes, if it makes one, under a given identifier. -/
def asked? (id : Int) : Move Device → Option Asked
  | .call (.requestSampling request label now) =>
    some ⟨.sampling, id, request.toClient, label, now⟩
  | .call (.requestElicitation request label now) =>
    some ⟨.elicitation, id, request.toClient, label, now⟩
  | _ => none

def reply? : Move Device → Option ClientReply
  | .message _ v =>
    match Message.ofJson v with
    | .ok (.answer reply) => some reply
    | _ => none
  | .call _ => none

def drains : Move Device → Bool
  | .call .drainRequests => true
  | _ => false

end Move

/-- A request ceases to wait when an answer names it, or when it is given up after its time. -/
def Asked.endedBy (a : Asked) : Move Device → Bool
  | .call (.pruneRequests now timeout) => timeout < now.since a.sentAt
  | m => m.reply?.any fun reply => reply.names a.id

/-! ### The account that a history gives -/

/-- The requests of a history, numbered from `id`, each with what came after it. -/
def asksFrom (id : Int) : List (Move Device) → List (Asked × List (Move Device))
  | [] => []
  | m :: rest =>
    match m.asked? id with
    | some a => (a, rest) :: asksFrom (id + 1) rest
    | none => asksFrom id rest

/-- The requests of a history. -/
def asks (history : List (Move Device)) : List (Asked × List (Move Device)) := asksFrom 8000 history

def nextAsk (history : List (Move Device)) : Int := 8000 + (asks history).length

/-- The identifier that a move gives out, if it makes a request. -/
def issuedAt (past : List (Move Device)) (m : Move Device) : List Int :=
  (m.asked? (nextAsk past)).toList.map Asked.id

/-- The requests that have passed every move since they were made. -/
def standing (passes : Asked → Move Device → Bool) (history : List (Move Device)) : List Asked :=
  ((asks history).filter fun ask => ask.2.all (passes ask.1)).map Prod.fst

/-- The requests that were neither answered nor given up. -/
def waiting (history : List (Move Device)) : List Asked :=
  standing (fun a m => !a.endedBy m) history

/-- The requests whose texts were not taken yet. -/
def unsent (history : List (Move Device)) : List Asked := standing (fun _ m => !m.drains) history

/-- The request that a move answers: the waiting one that the answer names. -/
def answeredAt (past : List (Move Device)) (m : Move Device) : List Asked :=
  match m.reply? with
  | none => []
  | some reply => ((waiting past).find? fun a => reply.names a.id).toList

def callbacksAt (past : List (Move Device)) (m : Move Device) : List Event :=
  match m.reply? with
  | none => []
  | some reply => (answeredAt past m).map fun a => a.answered reply.outcome

/-- The requests that a move takes for sending: those to the model first, each kind in the order of
issue. -/
def takenAt (past : List (Move Device)) (m : Move Device) : List Asked :=
  if m.drains then
    (unsent past).filter (fun a => a.kind = .sampling)
      ++ (unsent past).filter (fun a => a.kind = .elicitation)
  else []

/-- The texts that a move hands to the host, if it is one that does. -/
def drainedAt (past : List (Move Device)) (m : Move Device) : List (List String) :=
  if m.drains then [(takenAt past m).map Asked.text] else []

/-! ### Identifiers are given in order -/

theorem asked?_id {id : Int} {m : Move Device} {a : Asked} (h : m.asked? id = some a) : a.id = id := by
  unfold Move.asked? at h
  split at h <;> simp only [Option.some.injEq, reduceCtorEq] at h <;> rw [← h]

theorem asksFrom_bounds (id : Int) (history : List (Move Device)) :
    ∀ ask ∈ asksFrom id history,
      id ≤ ask.1.id ∧ ask.1.id < id + (asksFrom id history).length := by
  induction history generalizing id with
  | nil => intro ask hask; simp [asksFrom] at hask
  | cons m rest ih =>
    cases ha : m.asked? id with
    | none => simpa only [asksFrom, ha] using ih id
    | some a =>
      intro ask hask
      simp only [asksFrom, ha, List.mem_cons, List.length_cons] at hask ⊢
      rcases hask with rfl | hask
      · have h := asked?_id ha
        dsimp only
        omega
      · have h := ih (id + 1) ask hask
        omega

theorem asksFrom_ascending (id : Int) (history : List (Move Device)) :
    (asksFrom id history).Pairwise fun x y => x.1.id < y.1.id := by
  induction history generalizing id with
  | nil => exact List.Pairwise.nil
  | cons m rest ih =>
    cases ha : m.asked? id with
    | none => simpa only [asksFrom, ha] using ih id
    | some a =>
      simp only [asksFrom, ha]
      refine List.Pairwise.cons ?_ (ih (id + 1))
      intro ask hask
      have h := asksFrom_bounds (id + 1) rest ask hask
      have h' := asked?_id ha
      dsimp only
      omega

/-! ### One more move -/

theorem asksFrom_append (id : Int) (history : List (Move Device)) (m : Move Device) :
    asksFrom id (history ++ [m]) =
      (asksFrom id history).map (fun ask => (ask.1, ask.2 ++ [m]))
        ++ ((m.asked? (id + (asksFrom id history).length)).map fun a => (a, [])).toList := by
  induction history generalizing id with
  | nil =>
    simp only [List.nil_append, asksFrom, List.map_nil, List.length_nil, Int.natCast_zero,
      Int.add_zero]
    cases m.asked? id <;> rfl
  | cons first rest ih =>
    cases ha : first.asked? id with
    | none => simp only [List.cons_append, asksFrom, ha, ih]
    | some a =>
      have hid : id + ((asksFrom (id + 1) rest).length + 1 : Nat)
          = id + 1 + (asksFrom (id + 1) rest).length := by omega
      simp only [List.cons_append, asksFrom, ha, ih, List.map_cons, List.length_cons, hid]

/-- What has passed everything after it passes one thing more, or drops out. -/
theorem passed_concat {α β : Type} (passes : α → β → Bool) (log : List (α × List β)) (b : β) :
    ((log.map fun entry => (entry.1, entry.2 ++ [b])).filter
        fun entry => entry.2.all (passes entry.1)).map Prod.fst =
      ((log.filter fun entry => entry.2.all (passes entry.1)).map Prod.fst).filter
        fun a => passes a b := by
  simp only [List.filter_map, List.map_map, List.filter_filter, Function.comp_def,
    List.all_append, List.all_cons, List.all_nil, Bool.true_and, Bool.and_comm (passes _ b)]

/-- A move lets the standing requests that it passes stand, and may make one more. -/
theorem standing_append (passes : Asked → Move Device → Bool) (history : List (Move Device))
    (m : Move Device) :
    standing passes (history ++ [m]) =
      (standing passes history).filter (fun a => passes a m)
        ++ (m.asked? (nextAsk history)).toList := by
  have hone (o : Option Asked) :
      (((o.map fun a => (a, ([] : List (Move Device)))).toList.filter
        fun ask => ask.2.all (passes ask.1)).map Prod.fst) = o.toList := by
    cases o <;> rfl
  unfold standing asks nextAsk
  rw [asksFrom_append, List.filter_append, List.map_append, passed_concat, hone]
  rfl

theorem nextAsk_append (history : List (Move Device)) (m : Move Device) :
    nextAsk (history ++ [m]) = nextAsk history + (m.asked? (nextAsk history)).toList.length := by
  unfold nextAsk asks
  rw [asksFrom_append]
  cases m.asked? (8000 + ((asksFrom 8000 history).length : Int)) with
  | none => simp
  | some a =>
    simp only [List.length_append, List.length_map, Option.map_some, Option.toList_some,
      List.length_singleton]
    omega

theorem nextAsk_le (past more : List (Move Device)) : nextAsk past ≤ nextAsk (past ++ more) := by
  induction more generalizing past with
  | nil => simp
  | cons m rest ih =>
    have h := ih (past ++ [m])
    rw [nextAsk_append] at h
    rw [List.append_assoc, List.singleton_append] at h
    omega

/-- The identifiers given out move by move are those of the requests. -/
theorem collect_issuedAt (past history : List (Move Device)) :
    (asks (past ++ history)).map (fun ask => ask.1.id) =
      (asks past).map (fun ask => ask.1.id) ++ collect issuedAt past history := by
  induction history generalizing past with
  | nil => simp [collect]
  | cons m rest ih =>
    have hstep : (asks (past ++ [m])).map (fun ask => ask.1.id) =
        (asks past).map (fun ask => ask.1.id) ++ issuedAt past m := by
      unfold asks issuedAt nextAsk asks
      rw [asksFrom_append, List.map_append, List.map_map]
      congr 1
      cases m.asked? (8000 + ((asksFrom 8000 past).length : Int)) <;> rfl
    have h := ih (past ++ [m])
    rw [hstep, List.append_assoc, List.append_assoc, List.singleton_append] at h
    exact h

/-! ### Standing requests have identifiers of their own -/

theorem standing_bounds (passes : Asked → Move Device → Bool) (history : List (Move Device)) :
    ∀ a ∈ standing passes history, 8000 ≤ a.id ∧ a.id < nextAsk history := by
  intro a ha
  unfold standing at ha
  obtain ⟨ask, hask, rfl⟩ := List.mem_map.mp ha
  exact asksFrom_bounds 8000 history ask ((List.mem_filter.mp hask).1)

theorem standing_ascending (passes : Asked → Move Device → Bool) (history : List (Move Device)) :
    (standing passes history).Pairwise fun a b => a.id < b.id := by
  unfold standing
  rw [List.pairwise_map]
  exact (asksFrom_ascending 8000 history).filter _

theorem nodup_of_ascending {as : List Asked} (h : as.Pairwise fun a b => a.id < b.id) :
    (as.map Asked.id).Nodup := by
  rw [List.Nodup, List.pairwise_map]
  exact h.imp fun hlt => by omega

theorem eq_of_ascending {as : List Asked} (h : as.Pairwise fun a b => a.id < b.id) {a b : Asked}
    (ha : a ∈ as) (hb : b ∈ as) (hid : a.id = b.id) : a = b := by
  induction as with
  | nil => simp at ha
  | cons first rest ih =>
    obtain ⟨hfirst, hrest⟩ := List.pairwise_cons.mp h
    rcases List.mem_cons.mp ha with rfl | ha'
    · rcases List.mem_cons.mp hb with rfl | hb'
      · rfl
      · have := hfirst b hb'
        omega
    · rcases List.mem_cons.mp hb with rfl | hb'
      · have := hfirst a ha'
        omega
      · exact ih hrest ha' hb'

/-- A request that a move takes out of those that stand is taken out once in a history. -/
theorem collect_nodup (passes : Asked → Move Device → Bool)
    (yield : List (Move Device) → Move Device → List Asked)
    (hout : ∀ past m, ∀ a ∈ yield past m, a ∈ standing passes past ∧ passes a m = false)
    (hone : ∀ past m, ((yield past m).map Asked.id).Nodup) (past history : List (Move Device)) :
    ((collect yield past history).map Asked.id).Nodup ∧
      ∀ a ∈ collect yield past history, a.id < nextAsk past →
        ∃ b ∈ standing passes past, b.id = a.id := by
  induction history generalizing past with
  | nil => simp [collect]
  | cons m rest ih =>
    obtain ⟨hnodup, hfrom⟩ := ih (past ++ [m])
    have hnext : nextAsk past ≤ nextAsk (past ++ [m]) := by
      rw [nextAsk_append]
      omega
    -- what is yielded later under an old identifier has passed `m`
    have hpassed : ∀ a ∈ collect yield (past ++ [m]) rest, a.id < nextAsk past →
        ∃ b ∈ standing passes past, b.id = a.id ∧ passes b m = true := by
      intro a ha hlt
      obtain ⟨b, hb, hid⟩ := hfrom a ha (by omega)
      rw [standing_append, List.mem_append] at hb
      rcases hb with hb | hb
      · obtain ⟨hb, hpass⟩ := List.mem_filter.mp hb
        exact ⟨b, hb, hid, hpass⟩
      · have hnew := asked?_id (Option.mem_toList.mp hb)
        omega
    simp only [collect, List.map_append, List.mem_append]
    constructor
    · rw [List.nodup_append]
      refine ⟨hone past m, hnodup, ?_⟩
      intro i hi j hj hij
      obtain ⟨a, ha, rfl⟩ := List.mem_map.mp hi
      obtain ⟨c, hc, rfl⟩ := List.mem_map.mp hj
      obtain ⟨hstand, hfail⟩ := hout past m a ha
      have hlt := (standing_bounds passes past a hstand).2
      obtain ⟨b, hb, hid, hpass⟩ := hpassed c hc (by omega)
      have hab : b = a := eq_of_ascending (standing_ascending passes past) hb hstand (by omega)
      rw [hab, hfail] at hpass
      exact Bool.false_ne_true hpass
    · intro a ha hlt
      rcases ha with ha | ha
      · exact ⟨a, (hout past m a ha).1, rfl⟩
      · obtain ⟨b, hb, hid, -⟩ := hpassed a ha hlt
        exact ⟨b, hb, hid⟩

/-- No request is answered twice. -/
theorem answered_nodup (past history : List (Move Device)) :
    ((collect answeredAt past history).map Asked.id).Nodup := by
  refine (collect_nodup (fun a m => !a.endedBy m) answeredAt ?_ ?_ past history).1
  · intro past m a ha
    unfold answeredAt at ha
    split at ha
    · simp at ha
    · rename_i reply hreply
      have hfind := Option.mem_toList.mp ha
      refine ⟨List.mem_of_find?_eq_some hfind, ?_⟩
      have hnames := List.find?_some hfind
      cases m with
      | call c => simp [Move.reply?] at hreply
      | message readings v => simp [Asked.endedBy, hreply, hnames]
  · intro past m
    unfold answeredAt
    split
    · simp
    · cases (waiting past).find? _ <;> simp

/-- No request is taken for sending twice. -/
theorem taken_nodup (past history : List (Move Device)) :
    ((collect takenAt past history).map Asked.id).Nodup := by
  refine (collect_nodup (fun _ m => !m.drains) takenAt ?_ ?_ past history).1
  · intro past m a ha
    unfold takenAt at ha
    split at ha
    · rename_i hdrains
      have hmem : a ∈ unsent past := by
        rcases List.mem_append.mp ha with h | h <;> exact (List.mem_filter.mp h).1
      exact ⟨hmem, by simp [hdrains]⟩
    · simp at ha
  · intro past m
    unfold takenAt
    split
    · have hasc := standing_ascending (fun _ m => !m.drains) past
      rw [List.map_append, List.nodup_append]
      refine ⟨nodup_of_ascending (hasc.filter _), nodup_of_ascending (hasc.filter _), ?_⟩
      intro i hi j hj hij
      obtain ⟨a, ha, rfl⟩ := List.mem_map.mp hi
      obtain ⟨b, hb, rfl⟩ := List.mem_map.mp hj
      obtain ⟨ha, hak⟩ := List.mem_filter.mp ha
      obtain ⟨hb, hbk⟩ := List.mem_filter.mp hb
      have hab : a = b := eq_of_ascending hasc ha hb hij
      simp only [decide_eq_true_eq] at hak hbk
      rw [hab, hbk] at hak
      exact absurd hak (by decide)
    · simp

end ContextServer
