import ContextServer.Roster

/-!
Entries of a roster. What is found under a key is listed under it, and the other way round where no key
is listed twice; a new key is listed last, and no change of a roster lists a key twice.
-/

namespace ContextServer.Roster

variable {κ α : Type}

theorem mem_of_mem_filter {r : Roster κ α} {keep : κ → α → Bool} {entry : κ × α}
    (h : entry ∈ (r.filter keep).entries) : entry ∈ r.entries := (List.mem_filter.mp h).1

variable [BEq κ]

theorem mem_of_mem_erase {r : Roster κ α} {key : κ} {entry : κ × α}
    (h : entry ∈ (r.erase key).entries) : entry ∈ r.entries := (List.mem_filter.mp h).1

theorem contains_iff (r : Roster κ α) (key : κ) :
    r.contains key = true ↔ ∃ entry ∈ r.entries, (entry.1 == key) = true := by
  unfold Roster.contains Roster.find?
  rw [Option.isSome_map, List.find?_isSome]

/-- Putting a value keeps every key that is there. -/
theorem contains_insert {r : Roster κ α} {other : κ}
    (h : r.contains other = true) (key : κ) (value : α) :
    (r.insert key value).contains other = true := by
  rw [Roster.contains_iff] at h ⊢
  obtain ⟨entry, hentry, hother⟩ := h
  obtain ⟨entries⟩ := r
  induction entries with
  | nil => cases hentry
  | cons first rest ih =>
    simp only [Roster.insert, Roster.put] at ih ⊢
    split
    · rcases List.mem_cons.mp hentry with rfl | hrest
      · exact ⟨_, List.mem_cons_self, hother⟩
      · exact ⟨entry, List.mem_cons_of_mem _ hrest, hother⟩
    · rcases List.mem_cons.mp hentry with rfl | hrest
      · exact ⟨entry, List.mem_cons_self, hother⟩
      · obtain ⟨found, hfound, hkey⟩ := ih hrest
        exact ⟨found, List.mem_cons_of_mem _ hfound, hkey⟩

/-- A key that is there for the first time is put at the end. -/
theorem put_of_new {entries : List (κ × α)} {key : κ}
    (h : ∀ entry ∈ entries, (entry.1 == key) = false) (value : α) :
    Roster.put key value entries = entries ++ [(key, value)] := by
  induction entries with
  | nil => rfl
  | cons first rest ih =>
    have hfirst := h first List.mem_cons_self
    rw [Roster.put, hfirst, if_neg (by decide), ih fun entry hentry =>
      h entry (List.mem_cons_of_mem _ hentry)]
    rfl

/-- A key that is put anew after it was erased comes last. -/
theorem entries_erase_insert (r : Roster κ α) (key : κ) (value : α) :
    ((r.erase key).insert key value).entries =
      r.entries.filter (fun entry => !(entry.1 == key)) ++ [(key, value)] := by
  refine put_of_new (fun entry hentry => ?_) value
  simpa using (List.mem_filter.mp hentry).2

theorem filter_entries_of_find?_eq_none (r : Roster κ α) {key : κ} (h : r.find? key = none) :
    r.entries.filter (fun entry => !(entry.1 == key)) = r.entries := by
  rw [List.filter_eq_self]
  intro entry hentry
  simp only [Roster.find?, Option.map_eq_none_iff, List.find?_eq_none] at h
  simpa using h entry hentry

@[simp] theorem keys_adjust (r : Roster κ α) (key : κ) (change : α → α) :
    (r.adjust key change).keys = r.keys := by
  unfold Roster.adjust keys
  rw [List.map_map]
  refine List.map_congr_left fun entry _ => ?_
  simp only [Function.comp_apply]
  split <;> rfl

/-! ### Keys that agree -/

section Agreeing

variable [PartialEquivBEq κ] {key other : κ}

theorem beq_eq_of_agreeing {k : κ} (h : (key == other) = true) : (k == key) = (k == other) := by
  rw [Bool.eq_iff_iff]
  exact ⟨fun hk => PartialEquivBEq.trans hk h,
    fun hk => PartialEquivBEq.trans hk (PartialEquivBEq.symm h)⟩

theorem not_beq_of_apart {k : κ} (h : (key == other) = false) (hk : (k == key) = true) :
    (k == other) = false := by
  rw [Bool.eq_false_iff]
  intro hother
  rw [PartialEquivBEq.trans (PartialEquivBEq.symm hk) hother] at h
  cases h

theorem find?_agreeing (r : Roster κ α) (h : (key == other) = true) : r.find? key = r.find? other := by
  unfold find?
  simp only [beq_eq_of_agreeing h]

theorem find?_insert_agreeing (r : Roster κ α) (value : α) :
    (r.insert key value).find? other = if key == other then some value else r.find? other := by
  obtain ⟨entries⟩ := r
  induction entries with
  | nil => cases h : key == other <;> simp [insert, put, find?, h]
  | cons entry rest ih =>
    simp only [insert, put, find?] at ih ⊢
    cases hkey : entry.1 == key with
    | true =>
      -- the entry keeps its own key, which agrees with what the new one agrees with
      cases h : key == other with
      | true => simp [PartialEquivBEq.trans hkey h]
      | false => simp [not_beq_of_apart h hkey]
    | false =>
      cases hother : entry.1 == other with
      | true =>
        have h : (key == other) = false := by
          rw [Bool.eq_false_iff]
          intro h
          rw [beq_eq_of_agreeing h, hother] at hkey
          cases hkey
        simp [hother, h]
      | false => simpa [hother] using ih

theorem find?_erase_agreeing (r : Roster κ α) :
    (r.erase key).find? other = if key == other then none else r.find? other := by
  cases h : key == other with
  | true =>
    rw [← find?_agreeing _ h, find?_erase_self]
    rfl
  | false =>
    obtain ⟨entries⟩ := r
    induction entries with
    | nil => rfl
    | cons entry rest ih =>
      simp only [erase, find?, List.filter_cons] at ih ⊢
      cases hkey : entry.1 == key with
      | true => simpa [not_beq_of_apart h hkey] using ih
      | false =>
        cases hother : entry.1 == other with
        | true => simp [hother]
        | false => simpa [hother] using ih

/-- Taking out what agrees with a key takes out nothing that is apart from it. -/
theorem any_filter_agreeing (keys : List κ) :
    (keys.filter fun k => !(k == key)).any (· == other) =
      if key == other then false else keys.any (· == other) := by
  cases h : key == other with
  | true => simp [beq_eq_of_agreeing h]
  | false =>
    induction keys with
    | nil => rfl
    | cons k rest ih =>
      cases hk : k == key with
      | true => simpa [hk, not_beq_of_apart h hk] using ih
      | false => simpa [hk] using congrArg (k == other || ·) ih

end Agreeing

/-! ### Keys of their own -/

variable [LawfulBEq κ]

theorem mem_insert {r : Roster κ α} {key : κ} {value : α} {entry : κ × α}
    (h : entry ∈ (r.insert key value).entries) : entry ∈ r.entries ∨ entry = (key, value) := by
  obtain ⟨entries⟩ := r
  induction entries with
  | nil => exact .inr (List.mem_singleton.mp h)
  | cons first rest ih =>
    simp only [insert, put] at h ih ⊢
    split at h
    · rename_i hkey
      rcases List.mem_cons.mp h with rfl | hrest
      · exact .inr (by rw [eq_of_beq hkey])
      · exact .inl (List.mem_cons_of_mem _ hrest)
    · rcases List.mem_cons.mp h with rfl | hrest
      · exact .inl List.mem_cons_self
      · exact (ih hrest).imp_left (List.mem_cons_of_mem _)

theorem entries_insert_of_not_mem (r : Roster κ α) {key : κ} (value : α) (h : key ∉ r.keys) :
    (r.insert key value).entries = r.entries ++ [(key, value)] := by
  refine put_of_new (fun entry hentry => ?_) value
  rw [beq_eq_false_iff_ne]
  rintro rfl
  exact h (List.mem_map_of_mem hentry)

theorem mem_of_find? {r : Roster κ α} {key : κ} {value : α}
    (h : r.find? key = some value) : (key, value) ∈ r.entries := by
  obtain ⟨entry, hentry, rfl⟩ := Option.map_eq_some_iff.mp h
  have hkey : (entry.1 == key) = true := by simpa using List.find?_some hentry
  rw [← eq_of_beq hkey]
  exact List.mem_of_find?_eq_some hentry

/-- Where no key is listed twice, what is listed under a key is found there. -/
theorem find?_of_mem {r : Roster κ α} (once : r.keys.Nodup) {key : κ} {value : α}
    (h : (key, value) ∈ r.entries) : r.find? key = some value := by
  obtain ⟨entries⟩ := r
  induction entries with
  | nil => cases h
  | cons first rest ih =>
    simp only [keys, List.map_cons, List.nodup_cons] at once ih
    rcases List.mem_cons.mp h with rfl | hrest
    · simp [find?]
    · have hne : first.1 ≠ key := by
        rintro rfl
        exact once.1 (List.mem_map.mpr ⟨_, hrest, rfl⟩)
      simpa [find?, hne] using ih once.2 hrest

theorem nodup_keys_erase {r : Roster κ α} (h : r.keys.Nodup) (key : κ) : (r.erase key).keys.Nodup := by
  rw [keys_erase]
  exact h.sublist List.filter_sublist

theorem nodup_keys_insert {r : Roster κ α} (h : r.keys.Nodup) (key : κ) (value : α) :
    (r.insert key value).keys.Nodup := by
  rw [keys_insert]
  split
  · exact h
  · rename_i hnew
    rw [List.nodup_append]
    refine ⟨h, List.pairwise_singleton _ _, ?_⟩
    rintro other hother last hlast rfl
    exact hnew (List.mem_singleton.mp hlast ▸ hother)

theorem size_insert (r : Roster κ α) (key : κ) (value : α) :
    (r.insert key value).size = if key ∈ r.keys then r.size else r.size + 1 := by
  have hsize (q : Roster κ α) : q.size = q.keys.length := (List.length_map Prod.fst).symm
  rw [hsize, keys_insert, hsize]
  split
  · rfl
  · rw [List.length_append, List.length_singleton]

/-! ### Tidy rosters -/

/-- No key is listed twice, and every value listed is valid. -/
structure Tidy (valid : α → Prop) (r : Roster κ α) : Prop where
  once : r.keys.Nodup
  valid : ∀ entry ∈ r.entries, valid entry.2

omit [BEq κ] [LawfulBEq κ] in
theorem tidy_empty {valid : α → Prop} : ({} : Roster κ α).Tidy valid where
  once := List.nodup_nil
  valid _ hentry := nomatch hentry

namespace Tidy

variable {valid : α → Prop} {r : Roster κ α}

theorem of_find? (h : r.Tidy valid) {key : κ} {value : α} (found : r.find? key = some value) :
    valid value :=
  h.valid _ (mem_of_find? found)

theorem insert (h : r.Tidy valid) (key : κ) {value : α} (hvalue : valid value) :
    (r.insert key value).Tidy valid where
  once := nodup_keys_insert h.once key value
  valid entry hentry := by
    rcases mem_insert hentry with hold | rfl
    · exact h.valid entry hold
    · exact hvalue

theorem erase (h : r.Tidy valid) (key : κ) : (r.erase key).Tidy valid where
  once := nodup_keys_erase h.once key
  valid entry hentry := h.valid entry (mem_of_mem_erase hentry)

omit [LawfulBEq κ] in
theorem adjust (h : r.Tidy valid) (key : κ) {change : α → α}
    (hchange : ∀ value, valid value → valid (change value)) : (r.adjust key change).Tidy valid where
  once := (keys_adjust r key change).symm ▸ h.once
  valid entry hentry := by
    obtain ⟨old, hold, rfl⟩ := List.mem_map.mp hentry
    split
    · exact hchange _ (h.valid old hold)
    · exact h.valid old hold

end Tidy

end ContextServer.Roster
