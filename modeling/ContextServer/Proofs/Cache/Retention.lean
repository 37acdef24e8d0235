import ContextServer.Proofs.Cache.History
import Mathlib.Data.Finset.Card
import Mathlib.Data.List.Infix

/-!
How long a cache keeps what it stored. There are never more entries than the bound allows, and they
stand in the order in which their keys were last stored. While the clock does not go backwards, an
entry leaves before its lifetime is over only if as many other keys were stored after it as the least
bound since then allows; and where storing a result pushes a fresh entry out, that is the one whose key
was stored longest ago, and no other goes.
-/

namespace ContextServer

/-! ### Keys in the order of storing -/

/-- The keys that results were accepted under, in order. -/
def keysPut (past : List CacheStep) : List CallKey :=
  collect (fun earlier step => (step.accepted? earlier).toList.map Prod.fst) [] past

/-- The keys that results were accepted under after the last one of a given key. -/
def keysSince (past : List CacheStep) (key : CallKey) : List CallKey :=
  (keysPut past).rtakeWhile (· ≠ key)

/-- The least bound in force from the end of a history on, through the operations after it. -/
def leastBound (past : List CacheStep) : List CacheStep → Nat
  | [] => boundAfter past
  | step :: later => min (boundAfter past) (leastBound (past ++ [step]) later)

/-- The clock never goes backwards from one reading to another. -/
def ClockForward (steps : List CacheStep) : Prop :=
  (steps.filterMap CacheStep.reading?).Pairwise (· ≤ ·)

instance (steps : List CacheStep) : Decidable (ClockForward steps) :=
  inferInstanceAs (Decidable ((steps.filterMap CacheStep.reading?).Pairwise (· ≤ ·)))

theorem CacheStep.ends_of_accepted? {past : List CacheStep} {step : CacheStep} {key : CallKey}
    {entry : CacheEntry} (h : step.accepted? past = some (key, entry)) : step.Ends key past := by
  cases step with
  | store tool arguments result now => exact congrArg (Option.map Prod.fst) h
  | _ => cases h

/-- An operation that does not end a key adds the key that it puts to those since. -/
theorem keysSince_append {past : List CacheStep} {step : CacheStep} {key : CallKey}
    (h : ¬step.Ends key past) :
    keysSince (past ++ [step]) key =
      keysSince past key ++ (step.accepted? past).toList.map Prod.fst := by
  unfold keysSince keysPut
  rw [collect_append]
  cases haccepted : step.accepted? past with
  | none => simp [collect, haccepted]
  | some new =>
    obtain ⟨other, entry⟩ := new
    have hne : other ≠ key := by
      rintro rfl
      exact h (CacheStep.ends_of_accepted? haccepted)
    simp only [collect, List.nil_append, List.append_nil, haccepted, Option.toList_some,
      List.map_cons, List.map_nil]
    exact List.rtakeWhile_concat_pos _ _ _ (by simpa using hne)

theorem leastBound_append (past later : List CacheStep) (step : CacheStep) :
    leastBound past (later ++ [step]) =
      min (leastBound past later) (boundAfter (past ++ later ++ [step])) := by
  induction later generalizing past with
  | nil => simp [leastBound]
  | cons first later ih => simp [leastBound, ih, Nat.min_assoc]

/-- Entries stand in the order in which their keys were last stored. -/
theorem entries_ordered (past : List CacheStep) :
    (cacheAfter past).entries.entries.Pairwise fun older younger =>
      younger.1 ∈ keysSince past older.1 := by
  induction past using List.reverseRecOn with
  | nil => exact List.Pairwise.nil
  | append_singleton past step ih =>
    obtain ⟨kept, passes⟩ := exists_passes past step
    rw [passes.entries, List.pairwise_append]
    refine ⟨(ih.sublist passes.sublist).imp_of_mem ?_, ?_, ?_⟩
    · intro older younger hkept _ hsince
      rw [keysSince_append (passes.unended older hkept)]
      exact List.mem_append_left _ hsince
    · cases step.accepted? past with
      | none => exact List.Pairwise.nil
      | some new => exact List.pairwise_singleton _ _
    · intro older hkept new hnew
      rw [keysSince_append (passes.unended older hkept)]
      exact List.mem_append_right _ (List.mem_map_of_mem hnew)

/-! ### The bound -/

theorem one_le_boundAfter (past : List CacheStep) : 1 ≤ boundAfter past := by
  unfold boundAfter
  cases h : lastSaid? CacheStep.bound? past with
  | none => decide
  | some bound =>
    obtain ⟨step, -, hstep⟩ := List.mem_filterMap.mp (List.mem_of_getLast? h)
    cases step with
    | setMaxEntries n =>
      cases hstep
      exact Nat.le_max_right n 1
    | _ => cases hstep

/-- There is room for one more entry, once its key is taken out. -/
theorem length_makeRoom_lt {past : List CacheStep}
    (h : (cacheAfter past).entries.size ≤ boundAfter past) (key : CallKey) (now : Instant) :
    (((cacheAfter past).makeRoom key now).entries.filter fun entry => !(entry.1 == key)).length <
      boundAfter past := by
  have hpositive := one_le_boundAfter past
  rw [← maxEntries_cacheAfter] at h hpositive ⊢
  unfold Roster.size at h
  rcases (cacheAfter past).makeRoom_cases key now with
    ⟨hroom, hsame⟩ | ⟨-, hless, hsame⟩ | ⟨-, -, hsame⟩
  · rw [hsame]
    rcases hroom with hkey | hless
    · obtain ⟨entry, hentry, rfl⟩ := List.mem_map.mp hkey
      refine Nat.lt_of_lt_of_le ?_ h
      exact List.length_filter_lt_length_iff_exists.mpr ⟨entry, hentry, by simp⟩
    · exact Nat.lt_of_le_of_lt (List.length_filter_le _ _) hless
  · rw [hsame]
    exact Nat.lt_of_le_of_lt (List.length_filter_le _ _) hless
  · rw [hsame]
    refine Nat.lt_of_le_of_lt (List.length_filter_le _ _) ?_
    have hfresh := List.length_filter_le (fun entry : CallKey × CacheEntry => entry.2.isFresh now)
      (cacheAfter past).entries.entries
    rw [List.length_drop]
    omega

theorem size_le_boundAfter (past : List CacheStep) :
    (cacheAfter past).entries.size ≤ boundAfter past := by
  induction past using List.reverseRecOn with
  | nil => decide
  | append_singleton past step ih =>
    have quiet (haccepted : step.accepted? past = none) (hbound : step.bound? = none) :
        (cacheAfter (past ++ [step])).entries.size ≤ boundAfter (past ++ [step]) := by
      obtain ⟨kept, passes⟩ := exists_passes past step
      have hsame : boundAfter (past ++ [step]) = boundAfter past := by
        rw [boundAfter_append, hbound, Option.getD_none]
      unfold Roster.size
      rw [passes.entries, haccepted, hsame, Option.toList_none, List.append_nil]
      exact passes.sublist.length_le.trans ih
    cases step with
    | setMaxEntries n =>
      rw [← maxEntries_cacheAfter, cacheAfter_append]
      simp only [ResultCache.perform, ResultCache.setMaxEntries, Roster.size, List.length_drop]
      omega
    | store tool arguments result now =>
      cases haccepted : (CacheStep.store tool arguments result now).accepted? past with
      | none => exact quiet haccepted rfl
      | some new =>
        have hbound : boundAfter (past ++ [.store tool arguments result now]) = boundAfter past :=
          boundAfter_append past _
        unfold Roster.size
        rw [cacheAfter_store_some haccepted, hbound, List.length_append]
        exact length_makeRoom_lt ih new.1 now
    | _ => exact quiet rfl rfl

/-! ### Entries that are pushed out -/

/-- As many other keys as the bound allows were stored after an entry for which there is no room. -/
theorem CrowdedOut.boundAfter_le {past : List CacheStep} {step : CacheStep} {key : CallKey}
    {entry : CacheEntry} (h : CrowdedOut past step (key, entry)) (unended : ¬step.Ends key past) :
    boundAfter (past ++ [step]) ≤ (keysSince (past ++ [step]) key).toFinset.card := by
  obtain ⟨younger, hsublist, hnew, hbound⟩ := h
  have hordered := List.pairwise_cons.mp ((entries_ordered past).sublist hsublist)
  have hnodup : (younger.map Prod.fst).Nodup :=
    ((nodup_keys_cacheAfter past).sublist (hsublist.map Prod.fst)).of_cons
  -- the younger entries' keys and the new one are different keys, all of them stored since
  let keys := younger.map Prod.fst ++ (step.accepted? past).toList.map Prod.fst
  have honce : keys.Nodup := by
    refine List.nodup_append.mpr ⟨hnodup, ?_, ?_⟩
    · cases step.accepted? past with
      | none => exact List.Pairwise.nil
      | some new => exact List.pairwise_singleton _ _
    · rintro other hother last hlast rfl
      obtain ⟨new, haccepted, rfl⟩ := List.mem_map.mp hlast
      obtain ⟨mem, hmem, hkey⟩ := List.mem_map.mp hother
      refine hnew new (Option.mem_toList.mp haccepted) ?_
      rw [← hkey]
      exact List.mem_map_of_mem (hsublist.subset (List.mem_cons_of_mem _ hmem))
  have hsince : keys.toFinset ⊆ (keysSince (past ++ [step]) key).toFinset := by
    rw [keysSince_append unended]
    intro other hother
    rw [List.mem_toFinset, List.mem_append] at hother ⊢
    refine hother.imp_left fun hyounger => ?_
    obtain ⟨mem, hmem, rfl⟩ := List.mem_map.mp hyounger
    exact hordered.1 mem hmem
  calc boundAfter (past ++ [step])
      ≤ younger.length + (step.accepted? past).toList.length := hbound
    _ = keys.length := by simp [keys]
    _ = keys.toFinset.card := (List.toFinset_card_of_nodup honce).symm
    _ ≤ (keysSince (past ++ [step]) key).toFinset.card := Finset.card_le_card hsince

/-- While it is fresh, an entry stays, or as many other keys were stored after it as the least bound
since then allows. -/
theorem Stands.stays_or_crowded {key : CallKey} {entry : CacheEntry} {before later : List CacheStep}
    {put : CacheStep} (h : Stands key entry before put later)
    (fresh : ∀ now ∈ later.filterMap CacheStep.reading?, entry.isFresh now = true) :
    (key, entry) ∈ (cacheAfter (before ++ put :: later)).entries.entries ∨
      leastBound (before ++ [put]) later ≤
        (keysSince (before ++ put :: later) key).toFinset.card := by
  induction later using List.reverseRecOn with
  | nil =>
    obtain ⟨kept, passes⟩ := exists_passes before put
    left
    rw [passes.entries, h.accepted]
    exact List.mem_append_right _ (List.mem_singleton.mpr rfl)
  | append_singleton later step ih =>
    obtain ⟨hlasts, hunended⟩ := (lasts_append _ _).mp h.lasts
    have hpast : before ++ [put] ++ later = before ++ put :: later := by simp
    have hmore : before ++ put :: (later ++ [step]) = before ++ put :: later ++ [step] := by simp
    rw [hpast] at hunended
    rw [leastBound_append, hpast, hmore]
    have hfresh : ∀ now ∈ later.filterMap CacheStep.reading?, entry.isFresh now = true := by
      intro now hnow
      refine fresh now ?_
      rw [List.filterMap_append]
      exact List.mem_append_left _ hnow
    rcases ih ⟨h.accepted, hlasts⟩ hfresh with hmem | hcrowded
    · obtain ⟨kept, passes⟩ := exists_passes (before ++ put :: later) step
      by_cases hkept : (key, entry) ∈ kept
      · left
        rw [passes.entries]
        exact List.mem_append_left _ hkept
      · rcases passes.dropped _ hmem hkept with hends | ⟨now, hnow, hstale⟩ | hout
        · exact absurd hends hunended
        · have hreading : now ∈ (later ++ [step]).filterMap CacheStep.reading? :=
            List.mem_filterMap.mpr ⟨step, by simp, hnow⟩
          rw [fresh now hreading] at hstale
          cases hstale
        · exact .inr ((Nat.min_le_right _ _).trans (hout.boundAfter_le hunended))
    · right
      rw [keysSince_append hunended]
      refine (Nat.min_le_left _ _).trans (hcrowded.trans (Finset.card_le_card ?_))
      intro other hother
      rw [List.mem_toFinset] at hother ⊢
      exact List.mem_append_left _ hother

/-- Storing a result pushes a fresh entry of another key out only if the cache is full of fresh entries
and the key is new; then it is the oldest entry that goes. -/
theorem pushed_out {past : List CacheStep} {key : CallKey} {now : Instant}
    {oldest : CallKey × CacheEntry} (hentry : oldest ∈ (cacheAfter past).entries.entries)
    (hfresh : oldest.2.isFresh now = true)
    (hdropped : oldest ∉ ((cacheAfter past).makeRoom key now).entries) :
    (cacheAfter past).entries.size = boundAfter past ∧ key ∉ (cacheAfter past).entries.keys ∧
      (∀ entry ∈ (cacheAfter past).entries.entries, entry.2.isFresh now = true) ∧
      (cacheAfter past).entries.entries =
        oldest :: ((cacheAfter past).makeRoom key now).entries := by
  have hsize := size_le_boundAfter past
  rw [← maxEntries_cacheAfter] at hsize ⊢
  unfold Roster.size at hsize ⊢
  have hstays : oldest ∈ (cacheAfter past).entries.entries.filter fun entry => entry.2.isFresh now :=
    List.mem_filter.mpr ⟨hentry, hfresh⟩
  rcases (cacheAfter past).makeRoom_cases key now with
    ⟨-, hroom⟩ | ⟨-, -, hroom⟩ | ⟨hnew, hfull, hroom⟩
  · exact absurd (hroom ▸ hentry) hdropped
  · exact absurd (hroom ▸ hstays) hdropped
  · have hsublist : ((cacheAfter past).entries.entries.filter fun entry => entry.2.isFresh now).Sublist
        (cacheAfter past).entries.entries := List.filter_sublist
    have hall := hsublist.eq_of_length (by have := hsublist.length_le; omega)
    rw [hall] at hfull hroom
    rw [hroom] at hdropped ⊢
    refine ⟨by omega, hnew, List.filter_eq_self.mp hall, ?_⟩
    refine ((sublist_of_not_mem_drop hentry hdropped).eq_of_length ?_).symm
    have hpositive := List.length_pos_of_mem hentry
    rw [List.length_cons, List.length_drop]
    omega

/-! ### Look-ups that miss -/

theorem CacheEntry.isFresh_iff {e : CacheEntry} {now : Instant} :
    e.isFresh now = true ↔ now.since e.storedAt < e.lifetime := decide_eq_true_iff

/-- What is fresh at a time was so before. -/
theorem CacheEntry.isFresh_of_le {e : CacheEntry} {earlier now : Instant}
    (h : e.isFresh now = true) (hle : earlier ≤ now) : e.isFresh earlier = true := by
  rw [isFresh_iff] at h ⊢
  exact Nat.lt_of_le_of_lt (Nat.sub_le_sub_right hle _) h

/-- A look-up finds what is kept under the key of the call, if it counts and the entry is fresh. -/
theorem found?_of_mem {past : List CacheStep} {tool : String} {arguments : Json} {now : Instant}
    {entry : CacheEntry} (on : cachingAfter past = true)
    (served : (lifetimeAfter? past tool).isSome = true)
    (h : (CallKey.ofCall tool arguments, entry) ∈ (cacheAfter past).entries.entries)
    (fresh : entry.isFresh now = true) :
    (cacheAfter past).found? tool arguments now = some entry := by
  unfold ResultCache.found? Roster.contains
  rw [enabled_cacheAfter, lifetimes_cacheAfter, on, served,
    Roster.find?_of_mem (nodup_keys_cacheAfter past) h]
  simp [Option.filter, fresh]

/-- The entries never exceed the bound. A look-up misses a result whose lifetime is not over, with a
clock that never goes backwards, only if as many other keys were stored since as the least bound in
force since then allows. A result pushes a fresh entry of another key out only if the cache is full of
fresh entries and the key is new, and then no other entry than the one stored longest ago. -/
theorem cache_retains (past : List CacheStep) :
    ((cacheAfter past).entries.size ≤ (cacheAfter past).maxEntries ∧
      (cacheAfter past).maxEntries = boundAfter past) ∧
    (∀ tool arguments now entry before put later, past = before ++ put :: later →
      Stands (CallKey.ofCall tool arguments) entry before put later →
      now.since entry.storedAt < entry.lifetime → ClockForward (past ++ [.lookup tool arguments now]) →
      cachingAfter past = true → (lifetimeAfter? past tool).isSome = true →
      ((cacheAfter past).lookup tool arguments now).1 = none →
        leastBound (before ++ [put]) later ≤
          (keysSince past (CallKey.ofCall tool arguments)).toFinset.card) ∧
    (∀ tool arguments result now, ∀ oldest ∈ (cacheAfter past).entries.entries,
      oldest.1 ≠ CallKey.ofCall tool arguments → now.since oldest.2.storedAt < oldest.2.lifetime →
      let entries := (cacheAfter (past ++ [.store tool arguments result now])).entries.entries
      oldest ∉ entries →
        (cacheAfter past).entries.size = (cacheAfter past).maxEntries ∧
        CallKey.ofCall tool arguments ∉ (cacheAfter past).entries.keys ∧
        (∀ entry ∈ (cacheAfter past).entries.entries,
          now.since entry.2.storedAt < entry.2.lifetime) ∧
        ∀ entry ∈ (cacheAfter past).entries.entries, entry ≠ oldest →
          entry.1 ∈ keysSince past oldest.1 ∧ entry ∈ entries) := by
  refine ⟨⟨maxEntries_cacheAfter past ▸ size_le_boundAfter past, maxEntries_cacheAfter past⟩, ?_, ?_⟩
  · intro tool arguments now entry before put later hpast stands hwithin forward on served hmiss
    have hfresh : entry.isFresh now = true := CacheEntry.isFresh_iff.mpr hwithin
    -- an entry that is fresh now was so at every reading since it was stored
    have hreadings : ∀ t ∈ later.filterMap CacheStep.reading?, entry.isFresh t = true := by
      intro t ht
      have hle : t ≤ now := by
        unfold ClockForward at forward
        rw [List.filterMap_append, List.pairwise_append] at forward
        refine forward.2.2 t ?_ now (List.mem_singleton.mpr rfl)
        rw [hpast, List.filterMap_append]
        refine List.mem_append_right _ ?_
        rw [List.filterMap_cons]
        split
        · exact ht
        · exact List.mem_cons_of_mem _ ht
      exact CacheEntry.isFresh_of_le hfresh hle
    subst hpast
    refine (stands.stays_or_crowded hreadings).resolve_left fun hmem => ?_
    rw [ResultCache.lookup_fst, found?_of_mem on served hmem hfresh] at hmiss
    cases hmiss
  · intro tool arguments result now oldest hentry hother hwithin entries hdropped
    have hfresh : oldest.2.isFresh now = true := CacheEntry.isFresh_iff.mpr hwithin
    cases haccepted : (CacheStep.store tool arguments result now).accepted? past with
    | none =>
      -- a result that is not accepted drops nothing
      refine absurd hentry fun hmem => hdropped ?_
      simpa only [entries, cacheAfter_store_none haccepted] using hmem
    | some new =>
      obtain ⟨key, accepted⟩ := new
      have hkey : CallKey.ofCall tool arguments = key := by
        obtain ⟨_, _, hstep, hof, -⟩ := CacheStep.of_accepted? haccepted
        cases hstep
        exact hof.symm
      rw [hkey] at hother ⊢
      have hentries : entries = ((cacheAfter past).makeRoom key now).entries.filter
          (fun entry => !(entry.1 == key)) ++ [(key, accepted)] := cacheAfter_store_some haccepted
      have hstays {entry : CallKey × CacheEntry} (hne : entry.1 ≠ key)
          (h : entry ∈ ((cacheAfter past).makeRoom key now).entries) : entry ∈ entries := by
        rw [hentries]
        exact List.mem_append_left _ (List.mem_filter.mpr ⟨h, by simpa using hne⟩)
      obtain ⟨hfull, hnew, hall, holdest⟩ :=
        pushed_out hentry hfresh fun hroom => hdropped (hstays hother hroom)
      refine ⟨hfull.trans (maxEntries_cacheAfter past).symm, hnew,
        fun entry hmem => CacheEntry.isFresh_iff.mp (hall entry hmem), fun entry hmem hne => ?_⟩
      have hapart : entry.1 ≠ key := fun h => hnew (h ▸ List.mem_map_of_mem hmem)
      rw [holdest] at hmem
      have hordered := entries_ordered past
      rw [holdest, List.pairwise_cons] at hordered
      have hyounger := (List.mem_cons.mp hmem).resolve_left hne
      exact ⟨hordered.1 entry hyounger, hstays hapart hyounger⟩

/-- Two results in a cache with room for two. -/
def crowdedCache : List CacheStep :=
  [.enable true, .setLifetime "t" 10, .setMaxEntries 2, .store "t" (.int 1) (.ofText "one") 0,
    .store "t" (.int 2) (.ofText "two") 1]

/-- A third result pushes the first one out, after which two other keys were stored. -/
theorem crowdedCache_retains :
    let third := CacheStep.store "t" (.int 3) (.ofText "three") 2
    let one := CallKey.ofCall "t" (.int 1)
    let stored : CacheEntry := ⟨.ofText "one", 0, 10⟩
    ((cacheAfter (crowdedCache ++ [third])).lookup "t" (.int 1) 3).1 = none ∧
      2 ≤ (keysSince (crowdedCache ++ [third]) one).toFinset.card ∧
      (one, stored) ∈ (cacheAfter crowdedCache).entries.entries ∧
      (cacheAfter crowdedCache).entries.size = (cacheAfter crowdedCache).maxEntries ∧
      CallKey.ofCall "t" (.int 3) ∉ (cacheAfter crowdedCache).entries.keys := by
  intro third one stored
  have hmiss : ((cacheAfter (crowdedCache ++ [third])).lookup "t" (.int 1) 3).1 = none := by rfl
  have hstands : Stands one stored (crowdedCache.take 3) (.store "t" (.int 1) (.ofText "one") 0)
      [.store "t" (.int 2) (.ofText "two") 1, third] := ⟨rfl, by decide +kernel⟩
  have hstored : (one, stored) ∈ (cacheAfter crowdedCache).entries.entries := List.mem_cons_self
  have hgone : (one, stored) ∉ (cacheAfter (crowdedCache ++ [third])).entries.entries := by
    intro hmem
    have hkey : one ∈ (cacheAfter (crowdedCache ++ [third])).entries.keys := List.mem_map_of_mem hmem
    revert hkey
    decide +kernel
  have hcrowded := (cache_retains (crowdedCache ++ [third])).2.1 "t" (.int 1) 3 stored
    (crowdedCache.take 3) (.store "t" (.int 1) (.ofText "one") 0) _ rfl hstands (by decide)
    (by decide) rfl rfl hmiss
  obtain ⟨hfull, hnew, -, -⟩ := (cache_retains crowdedCache).2.2 "t" (.int 3) (.ofText "three") 2
    (one, stored) hstored (by decide +kernel) (by decide) hgone
  exact ⟨hmiss, hcrowded, hstored, hfull, hnew⟩

end ContextServer
