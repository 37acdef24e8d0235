import ContextServer.Proofs.Rosters
import ContextServer.ResultCache

/-!
What is stored in the cache of results. A look-up stores nothing; storing a result adds its entry and
no other. A look-up finds the entry of a call, if the cache serves the tool and the entry is fresh.
-/

namespace ContextServer

namespace ResultCache

/-- The entry that a look-up answers with. -/
def found? (c : ResultCache) (tool : String) (arguments : Json) (now : Instant) : Option CacheEntry :=
  if c.enabled && c.lifetimes.contains tool then
    (c.entries.find? (CallKey.ofCall tool arguments)).filter fun entry => entry.isFresh now
  else none

theorem lookup_fst (c : ResultCache) (tool : String) (arguments : Json) (now : Instant) :
    (c.lookup tool arguments now).1 = (c.found? tool arguments now).map CacheEntry.result := by
  unfold lookup found?
  rw [← Bool.not_and]
  dsimp only
  cases c.enabled && c.lifetimes.contains tool with
  | false => rfl
  | true =>
    cases c.entries.find? (CallKey.ofCall tool arguments) with
    | none => rfl
    | some entry =>
      cases hfresh : entry.isFresh now <;> simp [Option.filter, hfresh]

/-- What a look-up finds is stored under the key of the call. -/
theorem mem_of_found? {c : ResultCache} {tool : String} {arguments : Json} {now : Instant}
    {entry : CacheEntry} (h : c.found? tool arguments now = some entry) :
    (CallKey.ofCall tool arguments, entry) ∈ c.entries.entries := by
  unfold found? at h
  split at h
  · exact Roster.mem_of_find? (Option.filter_eq_some_iff.mp h).1
  · cases h

theorem mem_of_mem_lookup {c : ResultCache} {tool : String} {arguments : Json} {now : Instant}
    {entry : CallKey × CacheEntry} (h : entry ∈ (c.lookup tool arguments now).2.entries.entries) :
    entry ∈ c.entries.entries := by
  unfold lookup at h
  split at h
  · exact h
  · dsimp only at h
    split at h
    · split at h
      · exact h
      · exact Roster.mem_of_mem_erase h
    · exact h

/-- The ways of making room: none is needed, dropping what is not fresh is enough, or the oldest of
the fresh entries goes too. -/
theorem makeRoom_cases (c : ResultCache) (key : CallKey) (now : Instant) :
    let fresh := c.entries.entries.filter fun entry => entry.2.isFresh now
    ((key ∈ c.entries.keys ∨ c.entries.size < c.maxEntries) ∧ c.makeRoom key now = c.entries) ∨
      (key ∉ c.entries.keys ∧ fresh.length < c.maxEntries ∧
        (c.makeRoom key now).entries = fresh) ∨
      (key ∉ c.entries.keys ∧ c.maxEntries ≤ fresh.length ∧
        (c.makeRoom key now).entries = fresh.drop 1) := by
  intro fresh
  unfold makeRoom
  split
  · rename_i hroom
    rw [Bool.or_eq_true, Roster.contains_iff_mem_keys, decide_eq_true_eq] at hroom
    exact .inl ⟨hroom, rfl⟩
  · rename_i hfull
    rw [Bool.or_eq_true, Roster.contains_iff_mem_keys, not_or] at hfull
    dsimp only
    split
    · rename_i hless
      exact .inr (.inl ⟨hfull.1, hless, rfl⟩)
    · rename_i hmore
      exact .inr (.inr ⟨hfull.1, Nat.le_of_not_lt hmore, rfl⟩)

theorem sublist_makeRoom (c : ResultCache) (key : CallKey) (now : Instant) :
    (c.makeRoom key now).entries.Sublist c.entries.entries := by
  rcases c.makeRoom_cases key now with ⟨-, hroom⟩ | ⟨-, -, hroom⟩ | ⟨-, -, hroom⟩
  · exact hroom ▸ List.Sublist.refl _
  · exact hroom ▸ List.filter_sublist
  · exact hroom ▸ (List.drop_sublist 1 _).trans List.filter_sublist

/-- Storing a result adds no other entry than its own. -/
theorem mem_store {c : ResultCache} {tool : String} {arguments : Json} {result : ToolResult}
    {now : Instant} {entry : CallKey × CacheEntry}
    (h : entry ∈ (c.store tool arguments result now).entries.entries) :
    entry ∈ c.entries.entries ∨
      entry.1 = CallKey.ofCall tool arguments ∧ entry.2.result = result := by
  unfold store at h
  split at h
  · exact .inl h
  · split at h
    · exact .inl h
    · rcases Roster.mem_insert h with h | rfl
      · exact .inl ((c.sublist_makeRoom _ _).subset (Roster.mem_of_mem_erase h))
      · exact .inr ⟨rfl, rfl⟩

end ResultCache

end ContextServer
