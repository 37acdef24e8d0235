import ContextServer.Page
import ContextServer.Proofs.Json.Reading

/-!
Cursors and pages. A cursor names an offset when it is a decimal numeral of 64 bits, and the cursor
that a page gives names the offset right behind the page. `Page.Decodes` says this apart from the code
that reads cursors, and `offset_eq_ok_iff` holds the code to it.
-/

namespace ContextServer.Page

variable {α : Type}

/-! ### Cursors -/

/-- A text writes an offset: in decimal digits, after one plus sign or none. -/
structure Numeral (text : String) (n : Nat) : Prop where
  written : ∃ digits, (text.toList = digits ∨ text.toList = '+' :: digits) ∧ digits ≠ [] ∧
    (∀ c ∈ digits, c.isDigit = true) ∧ Decimal.ofDigits digits = n
  fits : n ≤ Range64.maxUnsigned

/-- A cursor stands for an offset. None and the empty one stand for the start. -/
inductive Decodes : Option String → Nat → Prop
  | none : Decodes none 0
  | empty : Decodes (some "") 0
  | numeral {text : String} {n : Nat} (h : Numeral text n) : Decodes (some text) n

theorem offsetOfDigits?_eq_some_iff {digits : List Char} {n : Nat} :
    offsetOfDigits? digits = some n ↔ digits ≠ [] ∧ (∀ c ∈ digits, c.isDigit = true) ∧
      Decimal.ofDigits digits = n ∧ n ≤ Range64.maxUnsigned := by
  have hvalue : digits.foldl (fun n c => 10 * n + (c.toNat - '0'.toNat)) 0 =
      Decimal.ofDigits digits := rfl
  unfold offsetOfDigits?
  rw [hvalue]
  by_cases hdigits : digits ≠ [] ∧ ∀ c ∈ digits, c.isDigit = true
  · have hread : (digits.isEmpty || !digits.all Char.isDigit) = false := by simpa using hdigits
    simp only [hread, Bool.false_eq_true, if_false, Option.ite_none_right_eq_some, Option.some.injEq]
    constructor
    · rintro ⟨hfits, rfl⟩
      exact ⟨hdigits.1, hdigits.2, rfl, hfits⟩
    · rintro ⟨-, -, rfl, hfits⟩
      exact ⟨hfits, rfl⟩
  · have hread : (digits.isEmpty || !digits.all Char.isDigit) = true := by
      simpa [Decidable.or_iff_not_imp_left] using hdigits
    rw [if_pos hread]
    exact ⟨nofun, fun h => absurd ⟨h.1, h.2.1⟩ hdigits⟩

/-- The characters of a cursor that are taken for digits: all but a leading plus sign. -/
def unsigned : List Char → List Char
  | '+' :: rest => rest
  | cs => cs

theorem unsigned_of_digits {digits : List Char} (h : ∀ c ∈ digits, c.isDigit = true) :
    unsigned digits = digits := by
  unfold unsigned
  split
  · exact absurd (h _ List.mem_cons_self) (by decide)
  · rfl

theorem unsigned_cases (cs : List Char) : cs = unsigned cs ∨ cs = '+' :: unsigned cs := by
  unfold unsigned
  split
  · exact .inr rfl
  · exact .inl rfl

theorem numeral_iff {text : String} {n : Nat} :
    Numeral text n ↔ offsetOfDigits? (unsigned text.toList) = some n := by
  rw [offsetOfDigits?_eq_some_iff]
  constructor
  · rintro ⟨⟨digits, htext, hne, hdigits, hvalue⟩, hfits⟩
    have hunsigned : unsigned text.toList = digits := by
      rcases htext with htext | htext
      · rw [htext, unsigned_of_digits hdigits]
      · rw [htext]
        rfl
    rw [hunsigned]
    exact ⟨hne, hdigits, hvalue, hfits⟩
  · rintro ⟨hne, hdigits, hvalue, hfits⟩
    exact ⟨⟨_, unsigned_cases _, hne, hdigits, hvalue⟩, hfits⟩

theorem offset_some {text : String} (h : text ≠ "") : offset (some text) =
    match offsetOfDigits? (unsigned text.toList) with
    | some n => .ok n
    | none => .error ⟨text⟩ := by
  have hempty : text.isEmpty = false := by simpa [String.isEmpty_iff] using h
  simp only [offset, hempty, Bool.false_eq_true, if_false]
  rfl

theorem not_numeral_empty (n : Nat) : ¬Numeral "" n := by
  rintro ⟨⟨digits, hempty | hplus, hne, -⟩, -⟩
  · exact hne hempty.symm
  · cases hplus

/-- A cursor is read as the offset that it stands for. -/
theorem offset_eq_ok_iff {cursor : Option String} {n : Nat} :
    offset cursor = .ok n ↔ Decodes cursor n := by
  cases cursor with
  | none =>
    constructor
    · rintro ⟨⟩
      exact .none
    · rintro ⟨⟩
      rfl
  | some text =>
    by_cases hempty : text = ""
    · subst hempty
      constructor
      · rintro ⟨⟩
        exact .empty
      · rintro (_ | _ | hnumeral)
        · rfl
        · exact absurd hnumeral (not_numeral_empty n)
    · rw [offset_some hempty]
      constructor
      · intro h
        split at h
        · rename_i hread
          cases h
          exact .numeral (numeral_iff.mpr hread)
        · cases h
      · rintro (_ | _ | hnumeral)
        · exact absurd rfl hempty
        · rw [numeral_iff.mp hnumeral]

/-- What stands for no offset is an error that repeats it. -/
theorem offset_of_not_decodes {text : String} (h : ∀ n, ¬Decodes (some text) n) :
    offset (some text) = .error ⟨text⟩ := by
  have hne : text ≠ "" := by
    rintro rfl
    exact h 0 .empty
  rw [offset_some hne]
  cases hread : offsetOfDigits? (unsigned text.toList) with
  | none => rfl
  | some n => exact absurd (.numeral (numeral_iff.mpr hread)) (h n)

/-- An offset's own text is read back. -/
theorem numeral_toString {n : Nat} (h : n ≤ Range64.maxUnsigned) : Numeral (toString n) n where
  written := by
    refine ⟨Nat.toDigits 10 n, .inl ?_, Nat.toDigits_ne_nil, isDigit_toDigits n,
      Decimal.ofDigits_toDigits n⟩
    rw [Nat.toString_eq_ofList_toDigits, String.toList_ofList]
  fits := h

/-! ### Pages -/

/-- A page is a part of the list, and it names the next one exactly when entries remain behind it. -/
theorem slice_eq {items : List α} (fits : items.length ≤ Range64.maxUnsigned) (size o : Nat) :
    slice items size o = ⟨(items.drop o).take size,
      if o + size < items.length then some (toString (o + size)) else none⟩ := by
  unfold slice
  by_cases h : o + size < items.length
  · have hstop : min (o + size) Range64.maxUnsigned = o + size := by omega
    simp only [hstop]
  · have hstop : ¬min (o + size) Range64.maxUnsigned < items.length := by omega
    simp only [hstop, h, if_false]

theorem isSome_next_slice {items : List α} (fits : items.length ≤ Range64.maxUnsigned)
    (size o : Nat) :
    (slice items size o).next.isSome = true ↔ o + size < items.length := by
  rw [slice_eq fits]
  by_cases hmore : o + size < items.length
  · simp [hmore]
  · simp [hmore]

/-- The next cursor leads on. -/
theorem numeral_next_slice {items : List α} (fits : items.length ≤ Range64.maxUnsigned) {size o : Nat}
    (paged : 0 < size) {text : String} (h : (slice items size o).next = some text) :
    ∃ o', o < o' ∧ Numeral text o' := by
  rw [slice_eq fits] at h
  obtain ⟨hmore, hnext⟩ := Option.ite_none_right_eq_some.mp h
  obtain rfl : toString (o + size) = text := Option.some.inj hnext
  exact ⟨o + size, by omega, numeral_toString (by omega)⟩

theorem slice_map {β : Type} (f : α → β) (items : List α) (size o : Nat) :
    slice (items.map f) size o = ⟨(slice items size o).items.map f, (slice items size o).next⟩ := by
  simp only [slice, List.map_take, List.map_drop, List.length_map]

theorem ofList_of_decodes {size : Nat} (paged : 0 < size) {cursor : Option String} {o : Nat}
    (h : Decodes cursor o) (items : List α) :
    ofList items size cursor = .ok (slice items size o) := by
  have hread : offset cursor = .ok o := offset_eq_ok_iff.mpr h
  rw [ofList, if_neg (by omega), hread]
  rfl

theorem ofList_of_not_decodes {size : Nat} (paged : 0 < size) {text : String}
    (h : ∀ o, ¬Decodes (some text) o) (items : List α) :
    ofList items size (some text) = .error ⟨text⟩ := by
  rw [ofList, if_neg (by omega), offset_of_not_decodes h]
  rfl

/-- How many pages `n` entries take up: the last may have room left, and no entries take up one. -/
def number (n size : Nat) : Nat := max 1 ((n + size - 1) / size)

theorem number_pos (n size : Nat) : 0 < number n size := by
  unfold number
  omega

theorem number_of_le {n size : Nat} (paged : 0 < size) (h : n ≤ size) : number n size = 1 := by
  have hquotient : (n + size - 1) / size < 2 := (Nat.div_lt_iff_lt_mul paged).mpr (by omega)
  unfold number
  omega

/-- The first page takes up its size. -/
theorem number_of_lt {n size : Nat} (paged : 0 < size) (h : size < n) :
    number n size = number (n - size) size + 1 := by
  have hquotient : (n + size - 1) / size = (n - size + size - 1) / size + 1 := by
    rw [← Nat.add_div_right _ paged]
    congr 1
    omega
  have hpositive : 0 < (n - size + size - 1) / size := Nat.div_pos (by omega) paged
  unfold number
  omega

end ContextServer.Page
