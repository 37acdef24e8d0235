import ContextServer.Proofs.Cache.Entries
import ContextServer.Proofs.Server.Run
import Mathlib.Data.List.DropRight
import Mathlib.Data.List.Induction

/-!
Histories of a cache. A history lists the operations on a cache from its creation on; it tells whether
the cache is on, how long each tool's results are kept and how many there may be, which results were
accepted and which of them nothing has ended since. What one more operation does to the entries is
said once, in `Passes`: an accepted result comes last, and an entry goes only if the operation ends
its key, finds it stale, or leaves no room for it.
-/

namespace ContextServer

/-- One operation on a cache. -/
inductive CacheStep where
  | enable (on : Bool)
  | setLifetime (tool : String) (lifetime : Span)
  | setMaxEntries (n : Nat)
  | lookup (tool : String) (arguments : Json) (now : Instant)
  | store (tool : String) (arguments : Json) (result : ToolResult) (now : Instant)
  | invalidate (tool : String) (arguments : Json)
  | invalidateTool (tool : String)
  | clear

def ResultCache.perform (c : ResultCache) : CacheStep → ResultCache
  | .enable on => { c with enabled := on }
  | .setLifetime tool lifetime => c.setLifetime tool lifetime
  | .setMaxEntries n => c.setMaxEntries n
  | .lookup tool arguments now => (c.lookup tool arguments now).2
  | .store tool arguments result now => c.store tool arguments result now
  | .invalidate tool arguments => c.invalidate tool arguments
  | .invalidateTool tool => c.invalidateTool tool
  | .clear => c.clear

/-- The cache that a history leaves, from a new one on. -/
def cacheAfter (past : List CacheStep) : ResultCache := past.foldl ResultCache.perform {}

/-! ### What a history tells -/

namespace CacheStep

def switch? : CacheStep → Option Bool
  | .enable on => some on
  | _ => none

def lifetime? (tool : String) : CacheStep → Option Span
  | .setLifetime other lifetime => if other = tool then some lifetime else none
  | _ => none

/-- A bound of no entries counts as one. -/
def bound? : CacheStep → Option Nat
  | .setMaxEntries n => some (max n 1)
  | _ => none

/-- The clock as the operation reads it. -/
def reading? : CacheStep → Option Instant
  | .lookup _ _ now | .store _ _ _ now => some now
  | _ => none

def clears : CacheStep → Bool
  | .clear => true
  | _ => false

end CacheStep

/-- What the last operation of a kind said. -/
def lastSaid? {α : Type} (said : CacheStep → Option α) (past : List CacheStep) : Option α :=
  (past.filterMap said).getLast?

/-- Whether the cache is on: it is if it was last switched on. -/
def cachingAfter (past : List CacheStep) : Bool := (lastSaid? CacheStep.switch? past).getD false

/-- How long a tool's results are kept, if they are: no time at all is none. -/
def lifetimeAfter? (past : List CacheStep) (tool : String) : Option Span :=
  (lastSaid? (CacheStep.lifetime? tool) past).filter (· ≠ 0)

/-- How many entries there may be. -/
def boundAfter (past : List CacheStep) : Nat := (lastSaid? CacheStep.bound? past).getD 32

namespace CacheStep

/-- The entry that an operation after a history has accepted: a result that is no error, while the
cache is on and keeps the tool's results. -/
def accepted? (past : List CacheStep) : CacheStep → Option (CallKey × CacheEntry)
  | .store tool arguments result now =>
    if cachingAfter past && !result.isError then
      (lifetimeAfter? past tool).map fun lifetime =>
        (CallKey.ofCall tool arguments, ⟨result, now, lifetime⟩)
    else none
  | _ => none

/-- Whether an operation after a history replaces or drops what is kept under a key, whatever the
clock and the room: a result is accepted for it, it or its tool is invalidated, its tool's results are
not kept any longer, or everything is dropped. -/
def Ends (key : CallKey) (past : List CacheStep) (step : CacheStep) : Prop :=
  match step with
  | .store .. => (step.accepted? past).map Prod.fst = some key
  | .invalidate tool arguments => CallKey.ofCall tool arguments = key
  | .invalidateTool tool => tool = key.tool
  | .setLifetime tool lifetime => tool = key.tool ∧ lifetime = 0
  | .clear => True
  | .enable _ | .setMaxEntries _ | .lookup .. => False

instance (key : CallKey) (past : List CacheStep) : (step : CacheStep) → Decidable (step.Ends key past)
  | .store .. => inferInstanceAs (Decidable (_ = some key))
  | .invalidate .. => inferInstanceAs (Decidable (_ = key))
  | .invalidateTool _ => inferInstanceAs (Decidable (_ = key.tool))
  | .setLifetime .. => inferInstanceAs (Decidable (_ ∧ _))
  | .clear => inferInstanceAs (Decidable True)
  | .enable _ | .setMaxEntries _ | .lookup .. => inferInstanceAs (Decidable False)

end CacheStep

/-- No operation of a row, each after those before it, ends a key. -/
def Lasts (key : CallKey) : List CacheStep → List CacheStep → Prop
  | _, [] => True
  | past, step :: later => ¬step.Ends key past ∧ Lasts key (past ++ [step]) later

instance decidableLasts (key : CallKey) : (past later : List CacheStep) → Decidable (Lasts key past later)
  | _, [] => inferInstanceAs (Decidable True)
  | past, step :: later =>
    have := decidableLasts key (past ++ [step]) later
    inferInstanceAs (Decidable (¬step.Ends key past ∧ Lasts key (past ++ [step]) later))

/-- An operation after `before` had an entry accepted that no later operation ended. -/
structure Stands (key : CallKey) (entry : CacheEntry) (before : List CacheStep) (put : CacheStep)
    (later : List CacheStep) : Prop where
  accepted : put.accepted? before = some (key, entry)
  lasts : Lasts key (before ++ [put]) later

/-- What is accepted is the result of a storing operation, with the lifetime in force. -/
theorem CacheStep.of_accepted? {past : List CacheStep} {step : CacheStep} {key : CallKey}
    {entry : CacheEntry} (h : step.accepted? past = some (key, entry)) :
    ∃ tool arguments, step = .store tool arguments entry.result entry.storedAt ∧
      key = CallKey.ofCall tool arguments ∧ cachingAfter past = true ∧
        entry.result.isError = false ∧ lifetimeAfter? past tool = some entry.lifetime := by
  cases step with
  | store tool arguments result now =>
    simp only [accepted?] at h
    split at h
    · rename_i haccepts
      obtain ⟨lifetime, hlifetime, hentry⟩ := Option.map_eq_some_iff.mp h
      cases hentry
      simp only [Bool.and_eq_true, Bool.not_eq_true'] at haccepts
      exact ⟨tool, arguments, rfl, rfl, haccepts.1, haccepts.2, hlifetime⟩
    · cases h
  | _ => cases h

/-! ### One more operation -/

section Append

variable (past : List CacheStep) (step : CacheStep)

theorem cacheAfter_append : cacheAfter (past ++ [step]) = (cacheAfter past).perform step := by
  simp [cacheAfter]

theorem lastSaid?_append {α : Type} (said : CacheStep → Option α) :
    lastSaid? said (past ++ [step]) = (said step).or (lastSaid? said past) := by
  unfold lastSaid?
  rw [List.filterMap_append, List.getLast?_append]
  cases h : said step <;> simp [h]

theorem boundAfter_append : boundAfter (past ++ [step]) = step.bound?.getD (boundAfter past) := by
  unfold boundAfter
  rw [lastSaid?_append]
  cases step.bound? <;> rfl

theorem lasts_append {key : CallKey} {later : List CacheStep} :
    Lasts key past (later ++ [step]) ↔ Lasts key past later ∧ ¬step.Ends key (past ++ later) := by
  induction later generalizing past with
  | nil => simp [Lasts]
  | cons first later ih => simp [Lasts, ih, and_assoc]

end Append

/-! ### Settings -/

namespace ResultCache

variable (c : ResultCache) (step : CacheStep)

theorem lookup_settings (tool : String) (arguments : Json) (now : Instant) :
    (c.lookup tool arguments now).2.enabled = c.enabled ∧
      (c.lookup tool arguments now).2.lifetimes = c.lifetimes ∧
      (c.lookup tool arguments now).2.maxEntries = c.maxEntries := by
  unfold lookup
  split
  · exact ⟨rfl, rfl, rfl⟩
  · dsimp only
    split
    · split <;> exact ⟨rfl, rfl, rfl⟩
    · exact ⟨rfl, rfl, rfl⟩

theorem store_settings (tool : String) (arguments : Json) (result : ToolResult) (now : Instant) :
    (c.store tool arguments result now).enabled = c.enabled ∧
      (c.store tool arguments result now).lifetimes = c.lifetimes ∧
      (c.store tool arguments result now).maxEntries = c.maxEntries := by
  unfold store
  split
  · exact ⟨rfl, rfl, rfl⟩
  · split <;> exact ⟨rfl, rfl, rfl⟩

theorem perform_enabled : (c.perform step).enabled = (step.switch?).getD c.enabled := by
  cases step with
  | lookup tool arguments now => exact (c.lookup_settings tool arguments now).1
  | store tool arguments result now => exact (c.store_settings tool arguments result now).1
  | setLifetime tool lifetime =>
    simp only [perform, setLifetime]
    split <;> rfl
  | _ => rfl

theorem perform_maxEntries : (c.perform step).maxEntries = (step.bound?).getD c.maxEntries := by
  cases step with
  | lookup tool arguments now => exact (c.lookup_settings tool arguments now).2.2
  | store tool arguments result now => exact (c.store_settings tool arguments result now).2.2
  | setLifetime tool lifetime =>
    simp only [perform, setLifetime]
    split <;> rfl
  | _ => rfl

theorem find?_setLifetime (tool other : String) (lifetime : Span) :
    (c.setLifetime tool lifetime).lifetimes.find? other =
      if tool = other then some lifetime |>.filter (· ≠ 0) else c.lifetimes.find? other := by
  unfold setLifetime
  by_cases hzero : lifetime = 0
  · rw [if_pos hzero]
    by_cases htool : tool = other
    · subst htool
      simp [invalidateTool, hzero, Option.filter]
    · rw [if_neg htool]
      exact Roster.find?_erase_of_ne _ (Ne.symm htool)
  · rw [if_neg hzero]
    by_cases htool : tool = other
    · subst htool
      simp [hzero, Option.filter]
    · rw [if_neg htool]
      exact Roster.find?_insert_of_ne _ _ (Ne.symm htool)

theorem perform_lifetimes (tool : String) :
    (c.perform step).lifetimes.find? tool =
      ((step.lifetime? tool).map (Option.filter (· ≠ 0) ∘ some)).getD (c.lifetimes.find? tool) := by
  cases step with
  | lookup other arguments now =>
    exact congrArg (Roster.find? · tool) (c.lookup_settings other arguments now).2.1
  | store other arguments result now =>
    exact congrArg (Roster.find? · tool) (c.store_settings other arguments result now).2.1
  | setLifetime other lifetime =>
    simp only [perform, CacheStep.lifetime?]
    rw [find?_setLifetime]
    split <;> rfl
  | _ => rfl

end ResultCache

theorem enabled_cacheAfter (past : List CacheStep) :
    (cacheAfter past).enabled = cachingAfter past := by
  induction past using List.reverseRecOn with
  | nil => rfl
  | append_singleton past step ih =>
    rw [cacheAfter_append, ResultCache.perform_enabled, ih]
    unfold cachingAfter
    rw [lastSaid?_append]
    cases step.switch? <;> rfl

theorem maxEntries_cacheAfter (past : List CacheStep) :
    (cacheAfter past).maxEntries = boundAfter past := by
  induction past using List.reverseRecOn with
  | nil => rfl
  | append_singleton past step ih =>
    rw [cacheAfter_append, ResultCache.perform_maxEntries, ih, boundAfter_append]

theorem lifetimes_cacheAfter (past : List CacheStep) (tool : String) :
    (cacheAfter past).lifetimes.find? tool = lifetimeAfter? past tool := by
  induction past using List.reverseRecOn with
  | nil => rfl
  | append_singleton past step ih =>
    rw [cacheAfter_append, ResultCache.perform_lifetimes, ih]
    unfold lifetimeAfter?
    rw [lastSaid?_append]
    cases step.lifetime? tool <;> rfl

/-! ### Keys, each listed once -/

namespace ResultCache

/-- A look-up takes out an entry under its key that is not fresh, and no other. -/
theorem lookup_entries (c : ResultCache) (tool : String) (arguments : Json) (now : Instant) :
    (c.lookup tool arguments now).2.entries = c.entries ∨
      ∃ entry, c.entries.find? (CallKey.ofCall tool arguments) = some entry ∧
        entry.isFresh now = false ∧
        (c.lookup tool arguments now).2.entries =
          c.entries.erase (CallKey.ofCall tool arguments) := by
  unfold lookup
  split
  · exact .inl rfl
  · dsimp only
    split
    · rename_i entry hfound
      split
      · exact .inl rfl
      · rename_i hstale
        exact .inr ⟨entry, hfound, by simpa using hstale, rfl⟩
    · exact .inl rfl

theorem sublist_setLifetime (c : ResultCache) (tool : String) (lifetime : Span) :
    (c.setLifetime tool lifetime).entries.entries.Sublist c.entries.entries := by
  unfold setLifetime
  split
  · exact List.filter_sublist
  · exact List.Sublist.refl _

theorem nodup_keys_perform {c : ResultCache} (h : c.entries.keys.Nodup) (step : CacheStep) :
    (c.perform step).entries.keys.Nodup := by
  have kept {r : Roster CallKey CacheEntry} (hr : r.entries.Sublist c.entries.entries) :
      r.keys.Nodup := h.sublist (hr.map Prod.fst)
  cases step with
  | enable on => exact h
  | setLifetime tool lifetime => exact kept (c.sublist_setLifetime tool lifetime)
  | setMaxEntries n => exact kept (List.drop_sublist _ _)
  | lookup tool arguments now =>
    rcases c.lookup_entries tool arguments now with hsame | ⟨_, -, -, herased⟩
    · exact hsame ▸ h
    · exact herased ▸ kept List.filter_sublist
  | store tool arguments result now =>
    simp only [perform, store]
    split
    · exact h
    · split
      · exact h
      · exact Roster.nodup_keys_insert
          (Roster.nodup_keys_erase (kept (c.sublist_makeRoom _ _)) _) _ _
  | invalidate tool arguments => exact kept List.filter_sublist
  | invalidateTool tool => exact kept List.filter_sublist
  | clear => exact List.Pairwise.nil

end ResultCache

theorem nodup_keys_cacheAfter (past : List CacheStep) : (cacheAfter past).entries.keys.Nodup := by
  induction past using List.reverseRecOn with
  | nil => exact List.Pairwise.nil
  | append_singleton past step ih =>
    rw [cacheAfter_append]
    exact ResultCache.nodup_keys_perform ih step

/-! ### Entries that stay, go and come -/

/-- An entry for which there is no room: with those that were stored after it, and with what is
accepted if that is new, the bound is reached. -/
def CrowdedOut (past : List CacheStep) (step : CacheStep) (entry : CallKey × CacheEntry) : Prop :=
  ∃ younger, (entry :: younger).Sublist (cacheAfter past).entries.entries ∧
    (∀ new ∈ step.accepted? past, new.1 ∉ (cacheAfter past).entries.keys) ∧
    boundAfter (past ++ [step]) ≤ younger.length + (step.accepted? past).toList.length

/-- What an operation makes of the entries: those that it keeps, then the one that it accepts. -/
structure Passes (past : List CacheStep) (step : CacheStep) (kept : List (CallKey × CacheEntry)) :
    Prop where
  entries : (cacheAfter (past ++ [step])).entries.entries = kept ++ (step.accepted? past).toList
  sublist : kept.Sublist (cacheAfter past).entries.entries
  unended : ∀ entry ∈ kept, ¬step.Ends entry.1 past
  dropped : ∀ entry ∈ (cacheAfter past).entries.entries, entry ∉ kept →
    step.Ends entry.1 past ∨ (∃ now, step.reading? = some now ∧ entry.2.isFresh now = false) ∨
      CrowdedOut past step entry

variable {past : List CacheStep} {step : CacheStep}

/-- An operation that accepts nothing and sorts the entries by themselves. -/
theorem Passes.ofFilter (keep : CallKey × CacheEntry → Bool) (none : step.accepted? past = none)
    (entries : (cacheAfter (past ++ [step])).entries.entries =
      (cacheAfter past).entries.entries.filter keep)
    (unended : ∀ entry ∈ (cacheAfter past).entries.entries, keep entry = true →
      ¬step.Ends entry.1 past)
    (dropped : ∀ entry ∈ (cacheAfter past).entries.entries, keep entry = false →
      step.Ends entry.1 past ∨ ∃ now, step.reading? = some now ∧ entry.2.isFresh now = false) :
    ∃ kept, Passes past step kept := by
  refine ⟨(cacheAfter past).entries.entries.filter keep, ?_, List.filter_sublist, ?_, ?_⟩
  · rw [none, entries, Option.toList_none, List.append_nil]
  · intro entry hentry
    obtain ⟨hmem, hkeep⟩ := List.mem_filter.mp hentry
    exact unended entry hmem hkeep
  · intro entry hmem hentry
    have hkeep : keep entry = false := by
      cases h : keep entry with
      | false => rfl
      | true => exact absurd (List.mem_filter.mpr ⟨hmem, h⟩) hentry
    exact (dropped entry hmem hkeep).imp_right .inl

/-- An operation that leaves the entries alone. -/
theorem Passes.ofSame (none : step.accepted? past = none)
    (entries : (cacheAfter (past ++ [step])).entries = (cacheAfter past).entries)
    (unended : ∀ key, ¬step.Ends key past) : ∃ kept, Passes past step kept := by
  refine Passes.ofFilter (fun _ => true) none ?_ (fun entry _ _ => unended entry.1) nofun
  rw [entries, List.filter_true]

theorem sublist_of_not_mem_drop {α : Type} {xs : List α} {n : Nat} {x : α} (h : x ∈ xs)
    (dropped : x ∉ xs.drop n) : (x :: xs.drop n).Sublist xs := by
  rw [← List.take_append_drop n xs, List.mem_append] at h
  have hsplit := (List.singleton_sublist.mpr (h.resolve_right dropped)).append
    (List.Sublist.refl (xs.drop n))
  rwa [List.take_append_drop] at hsplit

/-- A lower bound drops the oldest entries beyond it. -/
theorem passes_setMaxEntries (n : Nat) : ∃ kept, Passes past (.setMaxEntries n) kept := by
  have hbound : boundAfter (past ++ [.setMaxEntries n]) = max n 1 := boundAfter_append past _
  refine ⟨(cacheAfter past).entries.entries.drop ((cacheAfter past).entries.size - max n 1), ?_,
    List.drop_sublist _ _, fun _ _ h => h, ?_⟩
  · rw [cacheAfter_append]
    exact (List.append_nil _).symm
  · intro entry hentry hdropped
    refine .inr (.inr ⟨_, sublist_of_not_mem_drop hentry hdropped, nofun, ?_⟩)
    have hsurplus : (cacheAfter past).entries.size - max n 1 ≠ 0 := by
      intro hzero
      rw [hzero] at hdropped
      exact hdropped hentry
    rw [hbound, List.length_drop]
    unfold Roster.size at hsurplus ⊢
    omega

theorem passes_lookup (tool : String) (arguments : Json) (now : Instant) :
    ∃ kept, Passes past (.lookup tool arguments now) kept := by
  rcases (cacheAfter past).lookup_entries tool arguments now with
    hsame | ⟨stale, hfound, hstale, herased⟩
  · exact Passes.ofSame rfl (by rw [cacheAfter_append]; exact hsame) fun _ h => h
  · refine Passes.ofFilter (fun entry => !(entry.1 == CallKey.ofCall tool arguments)) rfl ?_
      (fun _ _ _ h => h) ?_
    · rw [cacheAfter_append]
      exact congrArg Roster.entries herased
    · -- what stands under the key is what was found there
      rintro ⟨key, entry⟩ hentry hkeep
      obtain rfl : key = CallKey.ofCall tool arguments := by simpa using hkeep
      have hsame := Roster.find?_of_mem (nodup_keys_cacheAfter past) hentry
      rw [hfound, Option.some_inj] at hsame
      exact .inr ⟨now, rfl, hsame ▸ hstale⟩

section Store

variable {tool : String} {arguments : Json} {result : ToolResult} {now : Instant}

theorem cacheAfter_store_none
    (h : (CacheStep.store tool arguments result now).accepted? past = none) :
    cacheAfter (past ++ [.store tool arguments result now]) = cacheAfter past := by
  rw [cacheAfter_append]
  simp only [ResultCache.perform, ResultCache.store, enabled_cacheAfter, lifetimes_cacheAfter]
  split
  · rfl
  · rename_i hon
    have haccepts : (cachingAfter past && !result.isError) = true := by simpa using hon
    simp only [CacheStep.accepted?, haccepts, if_true, Option.map_eq_none_iff] at h
    rw [h]

/-- An accepted result comes last, after what is kept when there is room for it. -/
theorem cacheAfter_store_some {key : CallKey} {new : CacheEntry}
    (h : (CacheStep.store tool arguments result now).accepted? past = some (key, new)) :
    (cacheAfter (past ++ [.store tool arguments result now])).entries.entries =
      ((cacheAfter past).makeRoom key now).entries.filter (fun entry => !(entry.1 == key))
        ++ [(key, new)] := by
  obtain ⟨_, _, hstep, rfl, hon, hsound, hlifetime⟩ := CacheStep.of_accepted? h
  cases hstep
  rw [← enabled_cacheAfter] at hon
  rw [← lifetimes_cacheAfter] at hlifetime
  rw [cacheAfter_append]
  simp only [ResultCache.perform, ResultCache.store, hon, hsound, hlifetime]
  exact Roster.entries_erase_insert _ _ _

/-- Room is made by dropping what is not fresh, or else the oldest entry. -/
theorem dropped_makeRoom {key : CallKey} {entry : CallKey × CacheEntry}
    (hentry : entry ∈ (cacheAfter past).entries.entries)
    (hdropped : entry ∉ ((cacheAfter past).makeRoom key now).entries) :
    entry.2.isFresh now = false ∨
      ∃ younger, (entry :: younger).Sublist (cacheAfter past).entries.entries ∧
        key ∉ (cacheAfter past).entries.keys ∧ boundAfter past ≤ younger.length + 1 := by
  have hstays (hfresh : ¬entry.2.isFresh now = false) :
      entry ∈ (cacheAfter past).entries.entries.filter fun entry => entry.2.isFresh now :=
    List.mem_filter.mpr ⟨hentry, by simpa using hfresh⟩
  rw [← maxEntries_cacheAfter, or_iff_not_imp_left]
  intro hfresh
  rcases (cacheAfter past).makeRoom_cases key now with
    ⟨-, hroom⟩ | ⟨-, -, hroom⟩ | ⟨hnew, hfull, hroom⟩
  · exact absurd (hroom ▸ hentry) hdropped
  · exact absurd (hroom ▸ hstays hfresh) hdropped
  · rw [hroom] at hdropped
    refine ⟨_, (sublist_of_not_mem_drop (hstays hfresh) hdropped).trans List.filter_sublist, hnew, ?_⟩
    rw [List.length_drop]
    omega

theorem passes_store : ∃ kept, Passes past (.store tool arguments result now) kept := by
  have hbound : boundAfter (past ++ [.store tool arguments result now]) = boundAfter past :=
    boundAfter_append past _
  cases haccepted : (CacheStep.store tool arguments result now).accepted? past with
  | none =>
    refine Passes.ofSame haccepted (by rw [cacheAfter_store_none haccepted]) ?_
    intro key hends
    simp [CacheStep.Ends, haccepted] at hends
  | some accepted =>
    obtain ⟨key, new⟩ := accepted
    refine ⟨((cacheAfter past).makeRoom key now).entries.filter fun entry => !(entry.1 == key),
      ?_, List.filter_sublist.trans ((cacheAfter past).sublist_makeRoom key now), ?_, ?_⟩
    · rw [cacheAfter_store_some haccepted, haccepted]
      rfl
    · intro entry hentry hends
      obtain rfl : key = entry.1 := by simpa [CacheStep.Ends, haccepted] using hends
      simpa using (List.mem_filter.mp hentry).2
    · intro entry hentry hdropped
      by_cases hkey : entry.1 = key
      · exact .inl (by simp [CacheStep.Ends, haccepted, hkey])
      · have hroom : entry ∉ ((cacheAfter past).makeRoom key now).entries := fun hmem =>
          hdropped (List.mem_filter.mpr ⟨hmem, by simpa using hkey⟩)
        rcases dropped_makeRoom hentry hroom with hstale | ⟨younger, hsublist, hnew, hfull⟩
        · exact .inr (.inl ⟨now, rfl, hstale⟩)
        · refine .inr (.inr ⟨younger, hsublist, ?_, ?_⟩)
          · rw [haccepted]
            rintro _ ⟨⟩
            exact hnew
          · rw [hbound, haccepted]
            exact hfull

end Store

/-- Every operation passes the entries on in this way. -/
theorem exists_passes (past : List CacheStep) (step : CacheStep) : ∃ kept, Passes past step kept := by
  cases step with
  | enable on => exact Passes.ofSame rfl (by rw [cacheAfter_append]; rfl) fun _ h => h
  | setLifetime tool lifetime =>
    by_cases hzero : lifetime = 0
    · refine Passes.ofFilter (fun entry => entry.1.tool != tool) rfl ?_ ?_ ?_
      · rw [cacheAfter_append]
        simp only [ResultCache.perform, ResultCache.setLifetime, if_pos hzero]
        rfl
      · rintro entry - hkeep ⟨rfl, -⟩
        simp at hkeep
      · intro entry _ hkeep
        have htool : entry.1.tool = tool := by simpa using hkeep
        exact .inl ⟨htool.symm, hzero⟩
    · refine Passes.ofSame rfl ?_ fun _ h => hzero h.2
      rw [cacheAfter_append]
      simp only [ResultCache.perform, ResultCache.setLifetime, if_neg hzero]
  | setMaxEntries n => exact passes_setMaxEntries n
  | lookup tool arguments now => exact passes_lookup tool arguments now
  | store tool arguments result now => exact passes_store
  | invalidate tool arguments =>
    refine Passes.ofFilter (fun entry => !(entry.1 == CallKey.ofCall tool arguments)) rfl ?_ ?_ ?_
    · rw [cacheAfter_append]
      rfl
    · intro entry _ hkeep hends
      simp [show CallKey.ofCall tool arguments = entry.1 from hends] at hkeep
    · intro entry _ hkeep
      have hkey : entry.1 = CallKey.ofCall tool arguments := by simpa using hkeep
      exact .inl hkey.symm
  | invalidateTool tool =>
    refine Passes.ofFilter (fun entry => entry.1.tool != tool) rfl ?_ ?_ ?_
    · rw [cacheAfter_append]
      rfl
    · intro entry _ hkeep hends
      simp [show tool = entry.1.tool from hends] at hkeep
    · intro entry _ hkeep
      have htool : entry.1.tool = tool := by simpa using hkeep
      exact .inl htool.symm
  | clear =>
    refine Passes.ofFilter (fun _ => false) rfl ?_ nofun fun _ _ _ => .inl trivial
    rw [cacheAfter_append, List.filter_false]
    rfl

end ContextServer
