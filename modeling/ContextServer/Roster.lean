/-!
Registration-ordered tables. A `Roster` lists its entries in the order in which their keys were first
added; adding a present key replaces its value in place, and erasing keeps the order of the rest.
The lemmas say what each operation does to a look-up.
-/

namespace ContextServer

/-- Keyed entries, oldest key first. -/
structure Roster (κ α : Type) where
  entries : List (κ × α) := []

namespace Roster

variable {κ α : Type}

/-- The keys, oldest first. -/
def keys (r : Roster κ α) : List κ := r.entries.map Prod.fst

/-- The values, in the order of their keys. -/
def values (r : Roster κ α) : List α := r.entries.map Prod.snd

def size (r : Roster κ α) : Nat := r.entries.length

def isEmpty (r : Roster κ α) : Bool := r.entries.isEmpty

def filter (keep : κ → α → Bool) (r : Roster κ α) : Roster κ α :=
  ⟨r.entries.filter fun entry => keep entry.1 entry.2⟩

def dropOldest (r : Roster κ α) : Roster κ α := ⟨r.entries.drop 1⟩

variable [BEq κ]

def find? (r : Roster κ α) (key : κ) : Option α :=
  (r.entries.find? fun entry => entry.1 == key).map Prod.snd

def contains (r : Roster κ α) (key : κ) : Bool := (r.find? key).isSome

/-- Entries with one key's value replaced in place, or added at the end. -/
def put (key : κ) (value : α) : List (κ × α) → List (κ × α)
  | [] => [(key, value)]
  | entry :: rest => if entry.1 == key then (entry.1, value) :: rest else entry :: put key value rest

/-- Replaces the value of a present key in place, and adds a new key at the end. -/
def insert (r : Roster κ α) (key : κ) (value : α) : Roster κ α := ⟨put key value r.entries⟩

/-- Removes a key and keeps the order of the others. -/
def erase (r : Roster κ α) (key : κ) : Roster κ α :=
  ⟨r.entries.filter fun entry => !(entry.1 == key)⟩

/-- Changes the value of a key, if it has one. -/
def adjust (r : Roster κ α) (key : κ) (change : α → α) : Roster κ α :=
  ⟨r.entries.map fun entry => if entry.1 == key then (entry.1, change entry.2) else entry⟩

/-! ### Look-ups after a change -/

@[simp] theorem find?_empty (key : κ) : (⟨[]⟩ : Roster κ α).find? key = none := rfl

theorem find?_put_self [LawfulBEq κ] (entries : List (κ × α)) (key : κ) (value : α) :
    (⟨put key value entries⟩ : Roster κ α).find? key = some value := by
  induction entries with
  | nil => simp [put, find?]
  | cons entry rest ih =>
    by_cases h : entry.1 == key
    · simp [put, find?, h]
    · simpa [put, find?, h] using ih

theorem find?_put_of_ne [LawfulBEq κ] (entries : List (κ × α)) {key other : κ} (value : α)
    (h : other ≠ key) :
    (⟨put key value entries⟩ : Roster κ α).find? other = (⟨entries⟩ : Roster κ α).find? other := by
  induction entries with
  | nil => simp [put, find?, Ne.symm h]
  | cons entry rest ih =>
    by_cases hk : entry.1 = key
    · simp [put, find?, hk, Ne.symm h]
    · by_cases ho : entry.1 = other
      · simp [put, find?, ho, h]
      · simpa [put, find?, hk, ho] using ih

@[simp] theorem find?_insert_self [LawfulBEq κ] (r : Roster κ α) (key : κ) (value : α) :
    (r.insert key value).find? key = some value :=
  find?_put_self r.entries key value

theorem find?_insert_of_ne [LawfulBEq κ] (r : Roster κ α) {key other : κ} (value : α)
    (h : other ≠ key) : (r.insert key value).find? other = r.find? other :=
  find?_put_of_ne r.entries value h

@[simp] theorem find?_erase_self (r : Roster κ α) (key : κ) : (r.erase key).find? key = none := by
  simp [find?, erase, List.find?_filter, List.find?_eq_none]

theorem find?_erase_of_ne [LawfulBEq κ] (r : Roster κ α) {key other : κ} (h : other ≠ key) :
    (r.erase key).find? other = r.find? other := by
  obtain ⟨entries⟩ := r
  induction entries with
  | nil => rfl
  | cons entry rest ih =>
    by_cases hk : entry.1 = key
    · simpa [find?, erase, hk, Ne.symm h] using ih
    · by_cases ho : entry.1 = other
      · simp [find?, erase, ho, h]
      · simpa [find?, erase, hk, ho] using ih

theorem find?_adjust [LawfulBEq κ] (r : Roster κ α) (key other : κ) (change : α → α) :
    (r.adjust key change).find? other =
      if other == key then (r.find? key).map change else r.find? other := by
  obtain ⟨entries⟩ := r
  induction entries with
  | nil => simp [adjust, find?]
  | cons entry rest ih =>
    simp only [adjust, find?] at ih ⊢
    by_cases hk : entry.1 = key
    · by_cases ho : other = key
      · simp [hk, ho]
      · simpa [hk, ho, Ne.symm ho] using ih
    · by_cases ho : entry.1 = other
      · simp [ho, show other ≠ key from fun h => hk (ho.trans h)]
      · simpa [hk, ho] using ih

/-- A key has a value exactly when it is listed. -/
theorem contains_iff_mem_keys [LawfulBEq κ] (r : Roster κ α) (key : κ) :
    r.contains key = true ↔ key ∈ r.keys := by
  obtain ⟨entries⟩ := r
  induction entries with
  | nil => simp [contains, find?, keys]
  | cons entry rest ih =>
    by_cases hk : entry.1 = key
    · simp [contains, find?, keys, hk]
    · have hk' : key ≠ entry.1 := fun h => hk h.symm
      simp [contains, find?, keys, hk, hk']

/-- Adding a key lists it at the end, unless it is listed already. -/
theorem keys_insert [LawfulBEq κ] (r : Roster κ α) (key : κ) (value : α) :
    (r.insert key value).keys = if key ∈ r.keys then r.keys else r.keys ++ [key] := by
  obtain ⟨entries⟩ := r
  induction entries with
  | nil => simp [insert, put, keys]
  | cons entry rest ih =>
    by_cases hk : entry.1 = key
    · simp [insert, put, keys, hk]
    · have hk' : key ≠ entry.1 := fun h => hk h.symm
      simp only [insert, keys] at ih
      simp only [insert, put, keys, beq_iff_eq, hk, if_false, List.map_cons, List.mem_cons, hk',
        false_or, ih]
      by_cases hm : key ∈ rest.map Prod.fst <;> simp [hm]

/-- Erasing a key takes it off the list and moves no other. -/
theorem keys_erase [LawfulBEq κ] (r : Roster κ α) (key : κ) :
    (r.erase key).keys = r.keys.filter (fun k => !(k == key)) := by
  simp [erase, keys, List.filter_map, Function.comp_def]

end Roster

end ContextServer
