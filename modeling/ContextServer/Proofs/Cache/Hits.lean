import ContextServer.Proofs.Cache.History
import ContextServer.Proofs.Json.Reading

/-!
What a look-up answers with. Every entry of a cache is the last result that was accepted under its
key, and nothing has ended it since; so a look-up gives a result only while its lifetime is not over,
counted from its storing. Keys are told apart by the text of the arguments, which is another one for
other arguments, as long as their numbers are whole. Hits and misses count the look-ups since the
statistics were last cleared.
-/

namespace ContextServer

/-! ### Arguments by their texts -/

/-- Every number in the value is whole and held by 64 bits. -/
def Json.IsWhole (v : Json) : Prop := ∃ depth, Json.Plain depth v

theorem Json.IsWhole.eq_of_text {v w : Json} (hv : v.IsWhole) (hw : w.IsWhole)
    (h : v.text = w.text) : v = w := by
  obtain ⟨m, hm⟩ := hv
  obtain ⟨n, hn⟩ := hw
  have hwritten : v.write [] = w.write [] := by
    have := congrArg String.toList h
    rwa [text, text, String.toList_ofList, String.toList_ofList] at this
  -- one reader goes down far enough for both
  have hread := (hm.mono (Nat.le_max_left m n)).takenBack.reads [] .nil
  rw [hwritten, (hn.mono (Nat.le_max_right m n)).takenBack.reads [] .nil] at hread
  exact (congrArg Prod.fst (Option.some.inj hread)).symm

/-- Every argument in the operation is whole. -/
def CacheStep.IsWhole : CacheStep → Prop
  | .lookup _ arguments _ | .store _ arguments _ _ | .invalidate _ arguments => arguments.IsWhole
  | _ => True

/-! ### Where an entry comes from -/

/-- Every entry is the last that was accepted under its key, and no later operation ended it. -/
theorem stands_of_mem {past : List CacheStep} {key : CallKey} {entry : CacheEntry}
    (h : (key, entry) ∈ (cacheAfter past).entries.entries) :
    ∃ before put later, past = before ++ put :: later ∧ Stands key entry before put later := by
  induction past using List.reverseRecOn with
  | nil => cases h
  | append_singleton past step ih =>
    obtain ⟨kept, passes⟩ := exists_passes past step
    rw [passes.entries, List.mem_append] at h
    rcases h with hkept | hnew
    · obtain ⟨before, put, later, rfl, stands⟩ := ih (passes.sublist.subset hkept)
      refine ⟨before, put, later ++ [step], by simp, stands.accepted, ?_⟩
      rw [lasts_append, List.append_assoc]
      exact ⟨stands.lasts, passes.unended _ hkept⟩
    · exact ⟨past, step, [], rfl, Option.mem_toList.mp hnew, trivial⟩

/-! ### What look-ups count -/

/-- The answer of an operation after a history, if it is a look-up that counts: one while the cache is
on, for a tool whose results are kept. -/
def CacheStep.answers (past : List CacheStep) : CacheStep → List (Option ToolResult)
  | .lookup tool arguments now =>
    if cachingAfter past && (lifetimeAfter? past tool).isSome then
      [((cacheAfter past).lookup tool arguments now).1]
    else []
  | _ => []

/-- The answers of the look-ups that count, from the last clearing on. -/
def answersSinceClear (past : List CacheStep) : List (Option ToolResult) :=
  collect (fun earlier step => step.answers earlier) (past.rdropWhile fun step => !step.clears)
    (past.rtakeWhile fun step => !step.clears)

theorem answersSinceClear_append (past : List CacheStep) (step : CacheStep) :
    answersSinceClear (past ++ [step]) =
      if step.clears then [] else answersSinceClear past ++ step.answers past := by
  unfold answersSinceClear
  cases h : step.clears with
  | true =>
    rw [List.rtakeWhile_concat_neg _ _ _ (by simp [h])]
    rfl
  | false =>
    rw [List.rtakeWhile_concat_pos _ _ _ (by simp [h]), List.rdropWhile_concat_pos _ _ _ (by simp [h]),
      collect_append, List.rdropWhile_append_rtakeWhile]
    simp [collect]

/-- Whether a look-up after a history counts. -/
theorem served_cacheAfter (past : List CacheStep) (tool : String) :
    (!(cacheAfter past).enabled || !(cacheAfter past).lifetimes.contains tool) =
      !(cachingAfter past && (lifetimeAfter? past tool).isSome) := by
  unfold Roster.contains
  rw [enabled_cacheAfter, lifetimes_cacheAfter, Bool.not_and]

theorem counts_lookup (past : List CacheStep) (tool : String) (arguments : Json) (now : Instant) :
    let answers := (CacheStep.lookup tool arguments now).answers past
    ((cacheAfter past).lookup tool arguments now).2.hits =
        (cacheAfter past).hits + answers.countP Option.isSome ∧
      ((cacheAfter past).lookup tool arguments now).2.misses =
        (cacheAfter past).misses + answers.countP Option.isNone := by
  simp only [CacheStep.answers, ResultCache.lookup, served_cacheAfter]
  cases cachingAfter past && (lifetimeAfter? past tool).isSome with
  | false => exact ⟨rfl, rfl⟩
  | true =>
    cases (cacheAfter past).entries.find? (CallKey.ofCall tool arguments) with
    | none => exact ⟨rfl, rfl⟩
    | some entry => by_cases hfresh : entry.isFresh now = true <;> simp [hfresh]

/-- Every operation but a clearing adds what it answers to the counts. -/
theorem counts_append (past : List CacheStep) (step : CacheStep) :
    let counted := if step.clears then (0, 0) else
      ((cacheAfter past).hits + (step.answers past).countP Option.isSome,
        (cacheAfter past).misses + (step.answers past).countP Option.isNone)
    (cacheAfter (past ++ [step])).hits = counted.1 ∧
      (cacheAfter (past ++ [step])).misses = counted.2 := by
  rw [cacheAfter_append]
  cases step with
  | lookup tool arguments now => exact counts_lookup past tool arguments now
  | store tool arguments result now =>
    simp only [ResultCache.perform, ResultCache.store]
    split
    · exact ⟨rfl, rfl⟩
    · split <;> exact ⟨rfl, rfl⟩
  | setLifetime tool lifetime =>
    simp only [ResultCache.perform, ResultCache.setLifetime]
    split <;> exact ⟨rfl, rfl⟩
  | _ => exact ⟨rfl, rfl⟩

theorem counts_cacheAfter (past : List CacheStep) :
    (cacheAfter past).hits = (answersSinceClear past).countP Option.isSome ∧
      (cacheAfter past).misses = (answersSinceClear past).countP Option.isNone := by
  induction past using List.reverseRecOn with
  | nil => exact ⟨rfl, rfl⟩
  | append_singleton past step ih =>
    obtain ⟨hhits, hmisses⟩ := counts_append past step
    rw [hhits, hmisses, answersSinceClear_append, ih.1, ih.2]
    cases step.clears <;> simp

/-! ### Look-ups -/

/-- What a look-up finds is kept under the key of the call, and fresh. -/
theorem served_of_found? {past : List CacheStep} {tool : String} {arguments : Json} {now : Instant}
    {entry : CacheEntry} (h : (cacheAfter past).found? tool arguments now = some entry) :
    cachingAfter past = true ∧ (lifetimeAfter? past tool).isSome = true ∧
      entry.isFresh now = true := by
  unfold ResultCache.found? Roster.contains at h
  rw [enabled_cacheAfter, lifetimes_cacheAfter] at h
  split at h
  · rename_i hserved
    obtain ⟨hon, hkept⟩ := Bool.and_eq_true_iff.mp hserved
    exact ⟨hon, hkept, (Option.filter_eq_some_iff.mp h).2⟩
  · cases h

/-- A look-up gives nothing but the last result that was accepted for the call, before its lifetime is
over and as long as nothing has ended it; and hits and misses are counted from the last clearing. -/
theorem lookups_sound (past : List CacheStep) :
    ((∀ step ∈ past, step.IsWhole) → ∀ tool arguments now result, arguments.IsWhole →
      ((cacheAfter past).lookup tool arguments now).1 = some result →
        cachingAfter past = true ∧ (lifetimeAfter? past tool).isSome = true ∧
        ∃ before later storedAt lifetime,
          past = before ++ .store tool arguments result storedAt :: later ∧
          Stands (CallKey.ofCall tool arguments) ⟨result, storedAt, lifetime⟩ before
            (.store tool arguments result storedAt) later ∧
          now.since storedAt < lifetime) ∧
      (cacheAfter past).hits = (answersSinceClear past).countP Option.isSome ∧
      (cacheAfter past).misses = (answersSinceClear past).countP Option.isNone := by
  refine ⟨?_, counts_cacheAfter past⟩
  intro whole tool arguments now result hwhole hit
  rw [ResultCache.lookup_fst] at hit
  obtain ⟨entry, hfound, rfl⟩ := Option.map_eq_some_iff.mp hit
  obtain ⟨hon, hkept, hfresh⟩ := served_of_found? hfound
  obtain ⟨before, put, later, hpast, stands⟩ := stands_of_mem (ResultCache.mem_of_found? hfound)
  obtain ⟨other, stored, rfl, hkey, -⟩ := CacheStep.of_accepted? stands.accepted
  -- the entry was stored for these arguments: no others have their text
  have hstored : stored.IsWhole := by
    refine whole (.store other stored entry.result entry.storedAt) ?_
    rw [hpast]
    exact List.mem_append_right _ List.mem_cons_self
  obtain rfl : tool = other := congrArg CallKey.tool hkey
  obtain rfl : arguments = stored := hwhole.eq_of_text hstored (congrArg CallKey.arguments hkey)
  exact ⟨hon, hkept, before, later, entry.storedAt, entry.lifetime, hpast, stands,
    of_decide_eq_true hfresh⟩

/-- Arguments of a call that reads a pin. -/
def pinFour : Json := .object [("pin", .int 4)]

/-- A result that is replaced by another one before it is looked up. -/
def replacedResult : List CacheStep :=
  [.enable true, .setLifetime "t" 10, .store "t" pinFour (.ofText "one") 0,
    .store "t" pinFour (.ofText "two") 4, .setLifetime "t" 1]

/-- The later result is the answer, as long as it was kept for when it was stored. -/
theorem replacedResult_hit :
    (∀ step ∈ replacedResult, step.IsWhole) ∧ pinFour.IsWhole ∧
      ((cacheAfter replacedResult).lookup "t" pinFour 13).1 = some (.ofText "two") ∧
      ∃ before later storedAt lifetime,
        replacedResult = before ++ .store "t" pinFour (.ofText "two") storedAt :: later ∧
        (13 : Instant).since storedAt < lifetime := by
  have hfour : Json.Plain 0 (.int 4) := .whole (.inl (by decide))
  have hwhole : pinFour.IsWhole := ⟨1, .object (by simp [hfour])⟩
  have hsteps : ∀ step ∈ replacedResult, step.IsWhole := by
    simp [replacedResult, CacheStep.IsWhole, hwhole]
  have hit : ((cacheAfter replacedResult).lookup "t" pinFour 13).1 = some (.ofText "two") := by rfl
  obtain ⟨-, -, before, later, storedAt, lifetime, hpast, -, hfresh⟩ :=
    (lookups_sound replacedResult).1 hsteps "t" pinFour 13 _ hwhole hit
  exact ⟨hsteps, hwhole, hit, before, later, storedAt, lifetime, hpast, hfresh⟩

end ContextServer
