import ContextServer.Json.Basic

/-!
Canonical order and look-ups. A member is found in an object in canonical order exactly when it was
written, and of equal keys the last one is found.
-/

namespace ContextServer.Json

theorem lookup_cons_ite {α : Type} (key other : String) (value : α) (members : List (String × α)) :
    ((key, value) :: members).lookup other =
      if other = key then some value else members.lookup other := by
  by_cases h : other = key
  · simp [h]
  · have hfalse : (other == key) = false := by simpa using h
    rw [List.lookup_cons, hfalse, if_neg h]

theorem insertMember_cons_of_lt {key other : String} (h : key < other) (value v : Json)
    (rest : List (String × Json)) :
    insertMember key value ((other, v) :: rest) = (key, value) :: (other, v) :: rest := by
  rw [insertMember, if_pos h]

theorem insertMember_cons_of_gt {key other : String} (hlt : ¬key < other) (hne : key ≠ other)
    (value v : Json) (rest : List (String × Json)) :
    insertMember key value ((other, v) :: rest) =
      (other, v) :: insertMember key value rest := by
  rw [insertMember, if_neg hlt, if_neg hne]

theorem sortMembers_pair (key other : String) (value v : Json) :
    sortMembers [(key, value), (other, v)] = insertMember other v [(key, value)] :=
  rfl

theorem lookup_insertMember (key other : String) (value : Json) (members : List (String × Json)) :
    (insertMember key value members).lookup other =
      if other = key then some value else members.lookup other := by
  induction members with
  | nil => rw [insertMember, lookup_cons_ite]
  | cons member rest ih =>
    obtain ⟨k, v⟩ := member
    simp only [insertMember]
    split
    · rw [lookup_cons_ite]
    · split
      · rename_i hkey
        subst hkey
        simp only [lookup_cons_ite]
        split <;> rfl
      · rename_i hkey
        simp only [lookup_cons_ite, ih]
        by_cases hk : other = k
        · have hne : other ≠ key := fun h => hkey (h ▸ hk)
          rw [if_pos hk, if_neg hne, if_pos hk]
        · rw [if_neg hk, if_neg hk]

/-- Of equal keys the last one wins. -/
theorem lookup_foldl_insertMember (other : String) (members sorted : List (String × Json)) :
    (members.foldl (fun sorted member => insertMember member.1 member.2 sorted) sorted).lookup
        other = (members.reverse.lookup other).or (sorted.lookup other) := by
  induction members generalizing sorted with
  | nil => rfl
  | cons member rest ih =>
    obtain ⟨key, value⟩ := member
    have hlast : [(key, value)].lookup other = if other = key then some value else none := by
      rw [lookup_cons_ite]
      rfl
    rw [List.foldl_cons, ih, lookup_insertMember, List.reverse_cons, List.lookup_append, hlast,
      Option.or_assoc]
    congr 1
    split <;> rfl

theorem canonical_float (x : Float) : (float x).canonical = float x := by
  unfold float
  split <;> rfl

theorem canonicalItems_eq_map (items : List Json) : canonicalItems items = items.map canonical := by
  induction items with
  | nil => rfl
  | cons item rest ih => rw [canonicalItems, ih, List.map_cons]

theorem canonicalMembers_eq_map (members : List (String × Json)) :
    canonicalMembers members = members.map fun member => (member.1, member.2.canonical) := by
  induction members with
  | nil => rfl
  | cons member rest ih =>
    obtain ⟨key, value⟩ := member
    rw [canonicalMembers, ih, List.map_cons]

theorem lookup_map_snd (change : Json → Json) (members : List (String × Json)) (key : String) :
    (members.map fun member => (member.1, change member.2)).lookup key =
      (members.lookup key).map change := by
  induction members with
  | nil => rfl
  | cons member rest ih =>
    rw [List.map_cons, lookup_cons_ite, ih, lookup_cons_ite]
    split <;> rfl

/-- In canonical order the last member of a key is found. -/
theorem member?_canonical_object (members : List (String × Json)) (key : String) :
    (canonical (.object members)).member? key = (members.reverse.lookup key).map canonical := by
  have hsorted : (canonical (.object members)).member? key =
      (sortMembers (canonicalMembers members)).lookup key := by
    rw [canonical]
    rfl
  rw [hsorted, canonicalMembers_eq_map, sortMembers, lookup_foldl_insertMember, ← List.map_reverse,
    lookup_map_snd]
  exact Option.or_none

end ContextServer.Json
