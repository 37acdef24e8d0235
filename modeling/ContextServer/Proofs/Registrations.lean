import ContextServer.Proofs.Rosters
import Mathlib.Data.List.Induction
import Mathlib.Data.List.Nodup
import Mathlib.Data.Nat.Find

/-!
Registrations. A roster that starts empty is told from the changes that were made to it: under a key
stands what the last change of that key left there, and the keys are listed in the order of the times
at which they were last absent. So a key that is put again while it stands keeps its place, and one
that comes back after it was dropped is listed last.
-/

namespace ContextServer.Roster

/-- One change of a roster. -/
inductive Change (κ α : Type) where
  | put (key : κ) (value : α)
  | drop (key : κ)

variable {κ α : Type}

namespace Change

def key : Change κ α → κ
  | put key _ | drop key => key

/-- What a change leaves under its key. -/
def left? : Change κ α → Option α
  | put _ value => some value
  | drop _ => none

end Change

variable [BEq κ]

def change (r : Roster κ α) : Change κ α → Roster κ α
  | .put key value => r.insert key value
  | .drop key => r.erase key

/-- The roster that changes make of an empty one. -/
def ofChanges (changes : List (Change κ α)) : Roster κ α := changes.foldl change {}

/-- What stands under a key: what the last change of the key left there. -/
def standing (changes : List (Change κ α)) (key : κ) : Option α :=
  (changes.filter fun c => c.key == key).getLast?.bind Change.left?

/-- The last time at which nothing stood under a key; times are numbers of changes made. -/
def lastAbsent (changes : List (Change κ α)) (key : κ) : Nat :=
  Nat.findGreatest (fun n => standing (changes.take n) key = none) changes.length

/-! ### One more change -/

section Append

variable (changes : List (Change κ α)) (c : Change κ α)

theorem ofChanges_append : ofChanges (changes ++ [c]) = (ofChanges changes).change c := by
  simp [ofChanges]

theorem standing_append (key : κ) :
    standing (changes ++ [c]) key = if c.key == key then c.left? else standing changes key := by
  unfold standing
  rw [List.filter_append]
  split
  · rename_i hkey
    simp [hkey]
  · rename_i hkey
    simp [hkey]

theorem lastAbsent_append (key : κ) :
    lastAbsent (changes ++ [c]) key =
      if standing (changes ++ [c]) key = none then changes.length + 1 else lastAbsent changes key := by
  have htake {n : Nat} (hn : n ≤ changes.length) : (changes ++ [c]).take n = changes.take n :=
    List.take_append_of_le_length hn
  have hbefore : Nat.findGreatest (fun n => standing ((changes ++ [c]).take n) key = none)
      changes.length = lastAbsent changes key := by
    obtain ⟨hle, hlast, hlater⟩ := Nat.findGreatest_eq_iff.mp (rfl : _ = lastAbsent changes key)
    rw [Nat.findGreatest_eq_iff]
    refine ⟨hle, fun hne => ?_, fun n hlt hn => ?_⟩
    · rw [htake hle]
      exact hlast hne
    · rw [htake hn]
      exact hlater hlt hn
  have hwhole : (changes ++ [c]).take (changes.length + 1) = changes ++ [c] :=
    List.take_of_length_le (by simp)
  unfold lastAbsent at hbefore ⊢
  rw [List.length_append, List.length_singleton, Nat.findGreatest_succ, hwhole, hbefore]

end Append

theorem put_mem_of_standing [LawfulBEq κ] {changes : List (Change κ α)} {key : κ} {value : α}
    (h : standing changes key = some value) : .put key value ∈ changes := by
  obtain ⟨c, hlast, hleft⟩ := Option.bind_eq_some_iff.mp h
  obtain ⟨hmem, hkey⟩ := List.mem_filter.mp (List.mem_of_getLast? hlast)
  cases c with
  | put other old =>
    cases hleft
    rwa [show other = key from eq_of_beq hkey] at hmem
  | drop other => cases hleft

theorem lastAbsent_of_absent {changes : List (Change κ α)} {key : κ}
    (h : standing changes key = none) : lastAbsent changes key = changes.length :=
  Nat.findGreatest_eq (by rwa [List.take_length])

/-- What stands was absent before all changes were made. -/
theorem lastAbsent_lt {changes : List (Change κ α)} {key : κ} {value : α}
    (h : standing changes key = some value) : lastAbsent changes key < changes.length := by
  have habsent : standing (changes.take (lastAbsent changes key)) key = none :=
    Nat.findGreatest_spec (P := fun n => standing (changes.take n) key = none) (Nat.zero_le _) rfl
  refine lt_of_le_of_ne (Nat.findGreatest_le _) fun hlast => ?_
  have hwhole : changes.take (lastAbsent changes key) = changes := by
    rw [show lastAbsent changes key = changes.length from hlast, List.take_length]
  rw [hwhole, h] at habsent
  cases habsent

/-! ### What is listed -/

variable [LawfulBEq κ]

/-- Under a key stands what is found there. -/
theorem find?_ofChanges (changes : List (Change κ α)) (key : κ) :
    (ofChanges changes).find? key = standing changes key := by
  induction changes using List.reverseRecOn with
  | nil => rfl
  | append_singleton changes c ih =>
    rw [ofChanges_append, standing_append]
    cases c with
    | put other value =>
      by_cases hkey : other = key
      · subst hkey
        simp [change, Change.key, Change.left?]
      · simp [change, Change.key, hkey, find?_insert_of_ne _ _ (Ne.symm hkey), ih]
    | drop other =>
      by_cases hkey : other = key
      · subst hkey
        simp [change, Change.key, Change.left?]
      · simp [change, Change.key, hkey, find?_erase_of_ne _ (Ne.symm hkey), ih]

theorem mem_keys_ofChanges {changes : List (Change κ α)} {key : κ} :
    key ∈ (ofChanges changes).keys ↔ ∃ value, standing changes key = some value := by
  rw [← contains_iff_mem_keys, contains, find?_ofChanges, Option.isSome_iff_exists]

/-- One key is listed before another if it was last absent before the other was. -/
theorem pairwise_keys_ofChanges (changes : List (Change κ α)) :
    (ofChanges changes).keys.Pairwise fun key other =>
      lastAbsent changes key < lastAbsent changes other := by
  induction changes using List.reverseRecOn with
  | nil => exact .nil
  | append_singleton changes c ih =>
    -- what is listed stands, so that the change did not make it absent
    have hsame : ∀ key ∈ (ofChanges (changes ++ [c])).keys,
        lastAbsent (changes ++ [c]) key = lastAbsent changes key := by
      intro key hkey
      obtain ⟨value, hvalue⟩ := mem_keys_ofChanges.mp hkey
      rw [lastAbsent_append, hvalue, if_neg (by simp)]
    have hbefore : (ofChanges (changes ++ [c])).keys.Pairwise fun key other =>
        lastAbsent changes key < lastAbsent changes other := by
      rw [ofChanges_append]
      cases c with
      | drop key =>
        rw [change, keys_erase]
        exact ih.filter _
      | put key value =>
        rw [change, keys_insert]
        split
        · exact ih
        · rename_i hnew
          have hlast : lastAbsent changes key = changes.length := by
            refine lastAbsent_of_absent ?_
            rw [Option.eq_none_iff_forall_ne_some]
            exact fun old hold => hnew (mem_keys_ofChanges.mpr ⟨old, hold⟩)
          rw [List.pairwise_append]
          refine ⟨ih, List.pairwise_singleton _ _, fun other hother new hkey => ?_⟩
          obtain ⟨old, hold⟩ := mem_keys_ofChanges.mp hother
          rw [List.mem_singleton.mp hkey, hlast]
          exact lastAbsent_lt hold
    refine hbefore.imp_of_mem fun hkey hother hlt => ?_
    rw [hsame _ hkey, hsame _ hother]
    exact hlt

theorem nodup_keys_ofChanges (changes : List (Change κ α)) : (ofChanges changes).keys.Nodup := by
  refine (pairwise_keys_ofChanges changes).imp ?_
  rintro key _ hlt rfl
  exact lt_irrefl _ hlt

/-- No two keys came at one time. -/
theorem lastAbsent_inj {changes : List (Change κ α)} {key other : κ} {value older : α}
    (hkey : standing changes key = some value) (hother : standing changes other = some older)
    (h : lastAbsent changes key = lastAbsent changes other) : key = other := by
  have hordered : ((ofChanges changes).keys.map (lastAbsent changes)).Nodup := by
    rw [List.Nodup, List.pairwise_map]
    exact (pairwise_keys_ofChanges changes).imp Nat.ne_of_lt
  exact List.inj_on_of_nodup_map hordered (mem_keys_ofChanges.mpr ⟨value, hkey⟩)
    (mem_keys_ofChanges.mpr ⟨older, hother⟩) h

theorem mem_entries_ofChanges {changes : List (Change κ α)} {key : κ} {value : α} :
    (key, value) ∈ (ofChanges changes).entries ↔ standing changes key = some value := by
  rw [← find?_ofChanges]
  exact ⟨find?_of_mem (nodup_keys_ofChanges changes), mem_of_find?⟩

/-! ### The first that serves -/

section First

variable {β : Type} {changes : List (Change κ α)} {serve : α → Option β}

theorem findSome?_values_eq_none_iff :
    (ofChanges changes).values.findSome? serve = none ↔
      ∀ key value, standing changes key = some value → serve value = none := by
  rw [List.findSome?_eq_none_iff]
  constructor
  · intro h key value hvalue
    exact h value (List.mem_map.mpr ⟨_, mem_entries_ofChanges.mpr hvalue, rfl⟩)
  · intro h value hvalue
    obtain ⟨⟨key, _⟩, hentry, rfl⟩ := List.mem_map.mp hvalue
    exact h key _ (mem_entries_ofChanges.mp hentry)

theorem exists_of_findSome?_values {b : β} (h : (ofChanges changes).values.findSome? serve = some b) :
    ∃ key value, standing changes key = some value ∧ serve value = some b ∧
      ∀ other older, standing changes other = some older →
        lastAbsent changes other < lastAbsent changes key → serve older = none := by
  rw [values, List.findSome?_map, List.findSome?_eq_some_iff] at h
  obtain ⟨before, ⟨key, value⟩, after, hsplit, hserve, hnone⟩ := h
  have hvalue : (key, value) ∈ (ofChanges changes).entries := by simp [hsplit]
  refine ⟨key, value, mem_entries_ofChanges.mp hvalue, hserve, fun other older hother hlt => ?_⟩
  have hmem : (other, older) ∈ before ++ (key, value) :: after := by
    rw [← hsplit]
    exact mem_entries_ofChanges.mpr hother
  rcases List.mem_append.mp hmem with hbefore | hnext
  · exact hnone _ hbefore
  · -- what is listed from the key on was not absent before it
    have hordered := pairwise_keys_ofChanges changes
    rw [keys, hsplit, List.map_append, List.map_cons, List.pairwise_append, List.pairwise_cons]
      at hordered
    rcases List.mem_cons.mp hnext with heq | hafter
    · rw [(Prod.mk.inj heq).1] at hlt
      exact absurd hlt (lt_irrefl _)
    · have hlater := hordered.2.1.1 other (List.mem_map.mpr ⟨_, hafter, rfl⟩)
      exact absurd hlt (lt_asymm hlater)

/-- The first value that serves is the one whose key was last absent before that of any other. -/
theorem findSome?_values_eq_some_iff {b : β} :
    (ofChanges changes).values.findSome? serve = some b ↔
      ∃ key value, standing changes key = some value ∧ serve value = some b ∧
        ∀ other older, standing changes other = some older →
          lastAbsent changes other < lastAbsent changes key → serve older = none := by
  refine ⟨exists_of_findSome?_values, ?_⟩
  rintro ⟨key, value, hvalue, hserve, hfirst⟩
  cases hfound : (ofChanges changes).values.findSome? serve with
  | none =>
    rw [findSome?_values_eq_none_iff.mp hfound key value hvalue] at hserve
    cases hserve
  | some b' =>
    obtain ⟨key', value', hvalue', hserve', hfirst'⟩ := exists_of_findSome?_values hfound
    rcases lt_trichotomy (lastAbsent changes key) (lastAbsent changes key') with hlt | heq | hlt
    · rw [hfirst' key value hvalue hlt] at hserve
      cases hserve
    · have hkey := lastAbsent_inj hvalue hvalue' heq
      subst hkey
      rw [hvalue] at hvalue'
      cases hvalue'
      exact hserve'.symm.trans hserve
    · rw [hfirst key' value' hvalue' hlt] at hserve'
      cases hserve'

end First

end ContextServer.Roster
