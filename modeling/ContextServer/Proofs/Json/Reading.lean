import ContextServer.Json.Reader
import ContextServer.Proofs.Json.Printing

/-!
The reader takes back what the printer wrote. A text is read in front of whatever follows it, as
long as that cannot be taken for more of a number; strings are read back character by character, whole
numbers digit by digit, and containers entry by entry down to the depth that the reader allows.
-/

namespace ContextServer

/-! ### Digits -/

theorem toDigits_head {n : Nat} (h : 0 < n) : ∃ d ds, Nat.toDigits 10 n = d :: ds ∧ d ≠ '0' := by
  induction n using Nat.strongRecOn with
  | ind n ih =>
    by_cases hlt : n < 10
    · have hall : ∀ m < 10, 0 < m → Nat.digitChar m ≠ '0' := by decide
      exact ⟨Nat.digitChar n, [], Nat.toDigits_of_lt_base hlt, hall n hlt h⟩
    · obtain ⟨d, ds, hdigits, hd⟩ := ih (n / 10) (by omega) (by omega)
      refine ⟨d, ds ++ [Nat.digitChar (n % 10)], ?_, hd⟩
      rw [Nat.toDigits_of_base_le (by decide) (by omega), hdigits, List.cons_append]

theorem isDigit_toDigits (n : Nat) : ∀ c ∈ Nat.toDigits 10 n, c.isDigit = true :=
  fun _ h => Nat.isDigit_of_mem_toDigits (by decide) (by decide) h

theorem Decimal.ofDigits_toDigits (n : Nat) : Decimal.ofDigits (Nat.toDigits 10 n) = n :=
  Nat.ofDigitChars_ten_toDigits

namespace Json

/-! ### Strings -/

/-- The escape of a control character reads back as the character. -/
theorem unit?_control {n : Nat} (h : n < 32) :
    unit? '0' '0' (hexDigit (n / 16)) (hexDigit (n % 16)) = some n := by
  have hall : ∀ m < 32, unit? '0' '0' (hexDigit (m / 16)) (hexDigit (m % 16)) = some m := by decide
  exact hall n h

theorem readChars_plain {c : Char} (hquote : c ≠ '"') (hslash : c ≠ '\\') (hspace : 32 ≤ c.toNat)
    (acc rest : List Char) : readChars acc (c :: rest) = readChars (c :: acc) rest := by
  have hno : ¬(c = '\\' ∨ c.toNat < 32) := by
    rintro (hc | hc)
    · exact hslash hc
    · omega
  rw [readChars.eq_def]
  split
  · rename_i heq
    cases heq
  · rename_i heq
    cases heq
    exact absurd rfl hquote
  · rename_i heq
    cases heq
    exact absurd rfl hslash
  · rename_i heq
    cases heq
    exact absurd rfl hslash
  · rename_i heq
    cases heq
    rw [if_neg hno]

theorem readChars_short {letter c : Char} (h : shortEscape? letter = some c)
    (acc rest : List Char) :
    readChars acc ('\\' :: letter :: rest) = readChars (c :: acc) rest := by
  have hu : letter ≠ 'u' := by
    rintro rfl
    cases h
  rw [readChars]
  · simp only [h]
  · intro a b c d more heq
    cases heq
    exact absurd rfl hu

theorem readChars_control {c : Char} (h : c.toNat < 32) (acc rest : List Char) :
    readChars acc ('\\' :: 'u' :: '0' :: '0' :: hexDigit (c.toNat / 16) :: hexDigit (c.toNat % 16)
      :: rest) = readChars (c :: acc) rest := by
  have hplain : plainUnit? c.toNat = some c := by
    rw [plainUnit?, if_neg (by omega), Char.ofNat_toNat]
  rw [readChars, unit?_control h]
  simp only [hplain]

/-- A character is written as it is, by a one-letter escape, or by its number. -/
theorem escapeChar_cases (c : Char) :
    (escapeChar c = [c] ∧ c ≠ '"' ∧ c ≠ '\\' ∧ 32 ≤ c.toNat) ∨
    (∃ letter, escapeChar c = ['\\', letter] ∧ shortEscape? letter = some c) ∨
    (c.toNat < 32 ∧ escapeChar c =
      ['\\', 'u', '0', '0', hexDigit (c.toNat / 16), hexDigit (c.toNat % 16)]) := by
  have hchar (n : Nat) (h : c.toNat = n) : Char.ofNat n = c := by
    rw [← h, Char.ofNat_toNat]
  unfold escapeChar
  split
  · rename_i h
    exact .inr (.inl ⟨'"', rfl, by rw [h]; rfl⟩)
  · rename_i hquote
    split
    · rename_i h
      exact .inr (.inl ⟨'\\', rfl, by rw [h]; rfl⟩)
    · rename_i hslash
      split
      · rename_i hspace
        exact .inl ⟨rfl, hquote, hslash, hspace⟩
      · rename_i hspace
        split
        · rename_i h
          exact .inr (.inl ⟨'b', rfl, congrArg some (hchar 8 h)⟩)
        · rename_i h
          exact .inr (.inl ⟨'t', rfl, congrArg some (hchar 9 h)⟩)
        · rename_i h
          exact .inr (.inl ⟨'n', rfl, congrArg some (hchar 10 h)⟩)
        · rename_i h
          exact .inr (.inl ⟨'f', rfl, congrArg some (hchar 12 h)⟩)
        · rename_i h
          exact .inr (.inl ⟨'r', rfl, congrArg some (hchar 13 h)⟩)
        · exact .inr (.inr ⟨by omega, rfl⟩)

theorem readChars_escapeChar (c : Char) (acc rest : List Char) :
    readChars acc (escapeChar c ++ rest) = readChars (c :: acc) rest := by
  obtain ⟨he, hquote, hslash, hspace⟩ | ⟨letter, he, hletter⟩ | ⟨hcontrol, he⟩ := escapeChar_cases c
  · rw [he]
    exact readChars_plain hquote hslash hspace acc rest
  · rw [he]
    exact readChars_short hletter acc rest
  · rw [he]
    exact readChars_control hcontrol acc rest

theorem readChars_escaped (cs acc rest : List Char) :
    readChars acc (cs.foldr (fun c tail => escapeChar c ++ tail) ('"' :: rest)) =
      some (String.ofList (acc.reverse ++ cs), rest) := by
  induction cs generalizing acc with
  | nil => rw [List.foldr_nil, readChars, List.append_nil]
  | cons c cs ih =>
    rw [List.foldr_cons, readChars_escapeChar, ih, List.reverse_cons, List.append_assoc,
      List.singleton_append]

/-- What follows the opening quote of a written string is read back as the string. -/
theorem readChars_string (s : String) (rest : List Char) :
    readChars [] (s.toList.foldr (fun c tail => escapeChar c ++ tail) ('"' :: rest)) =
      some (s, rest) := by
  rw [readChars_escaped, List.reverse_nil, List.nil_append, String.ofList_toList]

/-! ### Whole numbers -/

/-- What cannot go on with digits. -/
def NoDigit (rest : List Char) : Prop := ∀ c more, rest = c :: more → c.isDigit = false

/-- What cannot go on with a number: its first character is no digit, point or exponent mark. -/
def Closed (rest : List Char) : Prop :=
  ∀ c more, rest = c :: more → c.isDigit = false ∧ c ≠ '.' ∧ c ≠ 'e' ∧ c ≠ 'E'

theorem Closed.nil : Closed [] := by
  intro c more h
  cases h

theorem Closed.noDigit {rest : List Char} (h : Closed rest) : NoDigit rest :=
  fun c more heq => (h c more heq).1

theorem Closed.mark {c : Char} (h : c = ',' ∨ c = ']' ∨ c = '}') (rest : List Char) :
    Closed (c :: rest) := by
  intro d more hd
  cases hd
  rcases h with rfl | rfl | rfl <;> decide

theorem readDigits_append {digits rest : List Char} (hne : digits ≠ [])
    (hd : ∀ c ∈ digits, c.isDigit = true) (hr : NoDigit rest) :
    readDigits (digits ++ rest) = some (digits, rest) := by
  have hstop : rest.takeWhile Char.isDigit = [] ∧ rest.dropWhile Char.isDigit = rest := by
    cases rest with
    | nil => exact ⟨rfl, rfl⟩
    | cons c more =>
      simp [hr c more rfl]
  have htake : (digits ++ rest).takeWhile Char.isDigit = digits := by
    rw [List.takeWhile_append_of_pos hd, hstop.1, List.append_nil]
  have hdrop : (digits ++ rest).dropWhile Char.isDigit = rest := by
    rw [List.dropWhile_append_of_pos hd, hstop.2]
  cases digits with
  | nil => exact absurd rfl hne
  | cons d ds => simp only [readDigits, htake, hdrop]

theorem readWhole_digits {d : Char} {ds rest : List Char} (hd : d ≠ '0')
    (hall : ∀ c ∈ d :: ds, c.isDigit = true) (hr : NoDigit rest) :
    readWhole (d :: ds ++ rest) = some (d :: ds, rest) := by
  have hread := readDigits_append (List.cons_ne_nil d ds) hall hr
  rw [List.cons_append] at hread ⊢
  rw [readWhole.eq_def]
  split
  · rename_i heq
    cases heq
    exact absurd rfl hd
  · exact hread

theorem readWhole_toDigits (n : Nat) {rest : List Char} (hr : NoDigit rest) :
    readWhole (Nat.toDigits 10 n ++ rest) = some (Nat.toDigits 10 n, rest) := by
  rcases Nat.eq_zero_or_pos n with rfl | hpos
  · rfl
  · obtain ⟨d, ds, hdigits, hd⟩ := toDigits_head hpos
    have hall := isDigit_toDigits n
    rw [hdigits] at hall ⊢
    exact readWhole_digits hd hall hr

theorem readFraction_closed {rest : List Char} (hr : Closed rest) :
    readFraction rest = some (none, rest) := by
  rw [readFraction.eq_def]
  split
  · rename_i more
    exact absurd rfl (hr '.' more rfl).2.1
  · rfl

theorem readExponent_closed {rest : List Char} (hr : Closed rest) :
    readExponent rest = some (none, rest) := by
  cases rest with
  | nil => rfl
  | cons c more =>
    obtain ⟨-, -, he, hE⟩ := hr c more rfl
    rw [readExponent.eq_def]
    exact if_neg (by simp [he, hE])

/-- A whole number that some 64-bit type holds is read back. -/
theorem readNumber_writeInt {i : Int} (hi : Range64.Signed i ∨ Range64.Unsigned i)
    {rest : List Char} (hr : Closed rest) :
    readNumber (Number.writeInt i ++ rest) = some (.whole i, rest) := by
  cases i with
  | ofNat n =>
    have hnegative : ((Nat.toDigits 10 n ++ rest).head? == some '-') = false := by
      cases hdigits : Nat.toDigits 10 n with
      | nil => exact absurd hdigits Nat.toDigits_ne_nil
      | cons d ds =>
        have hd : d ≠ '-' := by
          rintro rfl
          exact minus_not_mem_toDigits n (hdigits ▸ List.mem_cons_self)
        simpa using hd
    have hfits : Range64.Unsigned (n : Int) := by
      rw [Int.ofNat_eq_natCast] at hi
      unfold Range64.Signed Range64.Unsigned Range64.minSigned Range64.maxSigned
        Range64.maxUnsigned at *
      omega
    have hliteral : literal? false (Nat.toDigits 10 n) none none = some (.whole n) := by
      simp only [literal?, Decimal.ofDigits_toDigits, Bool.false_eq_true, if_false,
        true_and]
      rw [if_pos hfits]
    simp only [readNumber, Number.writeInt, hnegative, Bool.false_eq_true, if_false,
      readWhole_toDigits n hr.noDigit, Option.bind_some, readFraction_closed hr, readExponent_closed hr,
      hliteral]
    rfl
  | negSucc n =>
    have hfits : n + 1 ≠ 0 ∧ Range64.Signed (-((n + 1 : Nat) : Int)) := by
      unfold Range64.Signed Range64.Unsigned Range64.minSigned Range64.maxSigned
        Range64.maxUnsigned at *
      omega
    have hliteral : literal? true (Nat.toDigits 10 (n + 1)) none none =
        some (.whole (Int.negSucc n)) := by
      simp only [literal?, Decimal.ofDigits_toDigits, if_true, true_and]
      rw [if_pos hfits]
      rfl
    simp only [readNumber, Number.writeInt, List.cons_append, List.head?_cons, beq_self_eq_true,
      if_true, List.drop_succ_cons, List.drop_zero, readWhole_toDigits (n + 1) hr.noDigit,
      Option.bind_some, readFraction_closed hr, readExponent_closed hr, hliteral]
    rfl

/-! ### Entries between marks -/

/-- Further entries, each after a comma, and the closing mark. -/
def writeSeries {α : Type} (write : α → List Char → List Char) (close : Char) (more : List α)
    (rest : List Char) : List Char :=
  more.foldr (fun x tail => ',' :: write x tail) (close :: rest)

/-- A container's entries and its closing mark. -/
def writeContents {α : Type} (write : α → List Char → List Char) (close : Char) :
    List α → List Char → List Char
  | [], rest => close :: rest
  | x :: more, rest => write x (writeSeries write close more rest)

/-- A text in front of `rest` that can be told from an empty container's end. -/
def Opens (close : Char) (cs rest : List Char) : Prop :=
  ∃ c more, cs = c :: more ∧ isBlank c = false ∧ c ≠ close ∧ rest.length ≤ more.length

theorem opens_cons {close c : Char} {more rest : List Char} (hblank : isBlank c = false)
    (hne : c ≠ close) (h : rest.length ≤ more.length) : Opens close (c :: more) rest :=
  ⟨c, more, rfl, hblank, hne, h⟩

theorem Opens.length_lt {close : Char} {cs rest : List Char} (h : Opens close cs rest) :
    rest.length < cs.length := by
  obtain ⟨c, more, rfl, -, -, hlen⟩ := h
  exact Nat.lt_succ_of_le hlen

/-- An entry that the reader takes back from its text. -/
structure TakenBack {α : Type} (entry : List Char → Reading α)
    (write : α → List Char → List Char) (close : Char) (x : α) : Prop where
  opens : ∀ rest, Opens close (write x rest) rest
  reads : ∀ rest, Closed rest → entry (write x rest) = some (x, rest)

/-- The closing marks of containers. -/
def IsClose (close : Char) : Prop := close = ']' ∨ close = '}'

theorem skipBlanks_cons {c : Char} (h : isBlank c = false) (cs : List Char) :
    skipBlanks (c :: cs) = c :: cs := by
  rw [skipBlanks, List.dropWhile_cons_of_neg (by simp [h])]

theorem IsClose.not_blank {close : Char} (h : IsClose close) : isBlank close = false := by
  rcases h with rfl | rfl <;> rfl

theorem IsClose.ne_comma {close : Char} (h : IsClose close) : ',' ≠ close := by
  rcases h with rfl | rfl <;> decide

theorem closed_writeSeries {α : Type} (write : α → List Char → List Char) {close : Char}
    (hclose : IsClose close) (more : List α) (rest : List Char) :
    Closed (writeSeries write close more rest) := by
  cases more with
  | nil => exact .mark (.inr hclose) rest
  | cons x more => exact .mark (.inl rfl) _

section Series

variable {α : Type} {entry : List Char → Reading α} {write : α → List Char → List Char}
  {close : Char}

theorem length_lt_writeSeries {more : List α} (h : ∀ x ∈ more, TakenBack entry write close x)
    (rest : List Char) :
    more.length + rest.length < (writeSeries write close more rest).length := by
  induction more with
  | nil => simp [writeSeries]
  | cons x more ih =>
    obtain ⟨c, cs, heq, -, -, hlen⟩ :=
      (h x List.mem_cons_self).opens (writeSeries write close more rest)
    have hmore := ih fun y hy => h y (List.mem_cons_of_mem x hy)
    have hcons : writeSeries write close (x :: more) rest =
        ',' :: write x (writeSeries write close more rest) := rfl
    rw [hcons, heq]
    simp only [List.length_cons]
    omega

/-- Every entry is read in front of the text of the later ones. -/
theorem readSeries_writeSeries (hclose : IsClose close) {more : List α} {x : α}
    (h : ∀ y ∈ x :: more, TakenBack entry write close y) {fuel : Nat} (hfuel : more.length < fuel)
    (acc : List α) (rest : List Char) :
    readSeries entry close fuel acc (write x (writeSeries write close more rest)) =
      some (acc.reverse ++ x :: more, rest) := by
  induction more generalizing x fuel acc with
  | nil =>
    obtain ⟨fuel, rfl⟩ : ∃ n, fuel = n + 1 := ⟨fuel - 1, by omega⟩
    have hread := (h x List.mem_cons_self).reads _ (closed_writeSeries write hclose [] rest)
    simp only [readSeries, hread]
    simp [writeSeries, skipBlanks_cons hclose.not_blank]
  | cons y more ih =>
    obtain ⟨fuel, rfl⟩ : ∃ n, fuel = n + 1 := ⟨fuel - 1, by omega⟩
    have hclosed := closed_writeSeries write hclose (y :: more) rest
    have hread := (h x List.mem_cons_self).reads _ hclosed
    have hrest := ih (fun z hz => h z (List.mem_cons_of_mem x hz)) (Nat.lt_of_succ_lt_succ hfuel)
      (x :: acc)
    have hskip : skipBlanks (writeSeries write close (y :: more) rest) =
        ',' :: write y (writeSeries write close more rest) := skipBlanks_cons rfl _
    simp only [readSeries, hread, hskip]
    rw [if_neg hclose.ne_comma, if_pos trivial, hrest, List.reverse_cons, List.append_assoc,
      List.singleton_append]

theorem length_lt_writeContents {xs : List α} (h : ∀ x ∈ xs, TakenBack entry write close x)
    (rest : List Char) : rest.length < (writeContents write close xs rest).length := by
  cases xs with
  | nil => exact Nat.lt_succ_self _
  | cons x more =>
    have hx := ((h x List.mem_cons_self).opens (writeSeries write close more rest)).length_lt
    have hmore := length_lt_writeSeries (fun y hy => h y (List.mem_cons_of_mem x hy)) rest
    rw [writeContents]
    omega

theorem readContents_writeContents (hclose : IsClose close) {xs : List α}
    (h : ∀ x ∈ xs, TakenBack entry write close x) (rest : List Char) :
    readContents entry close (writeContents write close xs rest) = some (xs, rest) := by
  cases xs with
  | nil => simp only [writeContents, readContents, skipBlanks_cons hclose.not_blank, if_true]
  | cons x more =>
    obtain ⟨c, cs, heq, hblank, hne, hlen⟩ :=
      (h x List.mem_cons_self).opens (writeSeries write close more rest)
    have hmore := length_lt_writeSeries (fun y hy => h y (List.mem_cons_of_mem x hy)) rest
    have hfuel : more.length < cs.length + 1 := by omega
    have hread := readSeries_writeSeries hclose h hfuel [] rest
    rw [writeContents]
    rw [heq] at hread ⊢
    simp only [readContents, skipBlanks_cons hblank]
    rw [if_neg hne, hread]
    rfl

end Series

/-! ### Values -/

/-- The text of one member, then `rest`. -/
def writeMember (member : String × Json) (rest : List Char) : List Char :=
  writeString member.1 (':' :: member.2.write rest)

theorem writeItems_eq_series (items : List Json) (rest : List Char) :
    writeItems items rest = writeSeries write ']' items rest := by
  induction items with
  | nil => rfl
  | cons item more ih =>
    rw [writeItems, ih]
    rfl

theorem writeMembers_eq_series (members : List (String × Json)) (rest : List Char) :
    writeMembers members rest = writeSeries writeMember '}' members rest := by
  induction members with
  | nil => rfl
  | cons member more ih =>
    obtain ⟨key, value⟩ := member
    rw [writeMembers, ih]
    rfl

theorem write_array (items : List Json) (rest : List Char) :
    (array items).write rest = '[' :: writeContents write ']' items rest := by
  cases items with
  | nil => rw [write, writeContents]
  | cons item more => rw [write, writeContents, writeItems_eq_series]

theorem write_object (members : List (String × Json)) (rest : List Char) :
    (object members).write rest = '{' :: writeContents writeMember '}' members rest := by
  cases members with
  | nil => rw [write, writeContents]
  | cons member more => rw [write, writeContents, writeMembers_eq_series, writeMember]

/-- A value that its text determines: every number is whole and held by 64 bits, and containers nest
at most `depth` deep. -/
inductive Plain : Nat → Json → Prop where
  | null {depth : Nat} : Plain depth .null
  | bool {depth : Nat} {b : Bool} : Plain depth (.bool b)
  | whole {depth : Nat} {i : Int} (h : Range64.Signed i ∨ Range64.Unsigned i) :
    Plain depth (.number (.whole i))
  | string {depth : Nat} {s : String} : Plain depth (.string s)
  | array {depth : Nat} {items : List Json} (h : ∀ v ∈ items, Plain depth v) :
    Plain (depth + 1) (.array items)
  | object {depth : Nat} {members : List (String × Json)} (h : ∀ m ∈ members, Plain depth m.2) :
    Plain (depth + 1) (.object members)

theorem Plain.mono {depth deeper : Nat} {v : Json} (h : Plain depth v) (hle : depth ≤ deeper) :
    Plain deeper v := by
  induction h generalizing deeper with
  | null => exact .null
  | bool => exact .bool
  | whole hi => exact .whole hi
  | string => exact .string
  | array _ ih =>
    obtain ⟨n, rfl⟩ : ∃ n, deeper = n + 1 := ⟨deeper - 1, by omega⟩
    exact .array fun v hv => ih v hv (by omega)
  | object _ ih =>
    obtain ⟨n, rfl⟩ : ∃ n, deeper = n + 1 := ⟨deeper - 1, by omega⟩
    exact .object fun m hm => ih m hm (by omega)

/-- The first character of a whole number is a sign or a digit, so it is none of those that start
something else. -/
theorem writeInt_head (i : Int) :
    ∃ c cs, Number.writeInt i = c :: cs ∧ ∀ d, d ≠ '-' → d.isDigit = false → c ≠ d := by
  cases i with
  | ofNat n =>
    cases hdigits : Nat.toDigits 10 n with
    | nil => exact absurd hdigits Nat.toDigits_ne_nil
    | cons c cs =>
      have hc : c.isDigit = true := isDigit_toDigits n c (hdigits ▸ List.mem_cons_self)
      refine ⟨c, cs, hdigits, ?_⟩
      rintro d - hd rfl
      simp [hc] at hd
  | negSucc n => exact ⟨'-', Nat.toDigits 10 (n + 1), rfl, fun d hd _ => hd.symm⟩

theorem not_blank_of_head {c : Char} (h : ∀ d, d ≠ '-' → d.isDigit = false → c ≠ d) :
    isBlank c = false := by
  simp [isBlank, h ' ' (by decide) rfl, h '\t' (by decide) rfl, h '\n' (by decide) rfl,
    h '\r' (by decide) rfl]

theorem length_le_escaped (cs tail : List Char) :
    tail.length ≤ (cs.foldr (fun c tail => escapeChar c ++ tail) tail).length := by
  induction cs with
  | nil => exact Nat.le_refl _
  | cons c cs ih =>
    rw [List.foldr_cons, List.length_append]
    omega

theorem opens_writeString {close : Char} (hclose : IsClose close) (s : String)
    {tail rest : List Char} (h : rest.length ≤ tail.length) : Opens close (writeString s tail) rest := by
  refine ⟨'"', _, rfl, rfl, ?_, ?_⟩
  · rcases hclose with rfl | rfl <;> decide
  · have hle := length_le_escaped s.toList ('"' :: tail)
    simp only [List.length_cons] at hle
    omega

/-! ### Reading one value -/

theorem readValue_scalar {c : Char} (hblank : isBlank c = false) (harray : c ≠ '[')
    (hobject : c ≠ '{') (depth : Nat) (more : List Char) :
    readValue depth (c :: more) = readScalar (c :: more) := by
  cases depth with
  | zero => rw [readValue, skipBlanks_cons hblank]
  | succ depth =>
    rw [readValue, skipBlanks_cons hblank]
    split
    · rename_i heq
      cases heq
      exact absurd rfl harray
    · rename_i heq
      cases heq
      exact absurd rfl hobject
    · rfl

theorem readScalar_number {c : Char} (h : ∀ d, d ≠ '-' → d.isDigit = false → c ≠ d)
    (cs : List Char) : readScalar (c :: cs) =
      (readNumber (c :: cs)).map fun r => (.number r.1, r.2) := by
  rw [readScalar]
  · intro more heq
    exact h 'n' (by decide) rfl (List.cons.inj heq).1
  · intro more heq
    exact h 't' (by decide) rfl (List.cons.inj heq).1
  · intro more heq
    exact h 'f' (by decide) rfl (List.cons.inj heq).1
  · intro more heq
    exact h '"' (by decide) rfl (List.cons.inj heq).1

theorem readValue_writeInt {i : Int} (hi : Range64.Signed i ∨ Range64.Unsigned i) (depth : Nat)
    {rest : List Char} (hr : Closed rest) :
    readValue depth (Number.writeInt i ++ rest) = some (.number (.whole i), rest) := by
  obtain ⟨c, cs, heq, hc⟩ := writeInt_head i
  have hread := readNumber_writeInt hi hr
  rw [heq, List.cons_append] at hread ⊢
  rw [readValue_scalar (not_blank_of_head hc) (hc '[' (by decide) rfl) (hc '{' (by decide) rfl),
    readScalar_number hc, hread]
  rfl

theorem readMember_writeMember {value : List Char → Reading Json} {m : String × Json}
    {rest : List Char} (h : value (m.2.write rest) = some (m.2, rest)) :
    readMember value (writeMember m rest) = some (m, rest) := by
  obtain ⟨key, v⟩ := m
  have hquote : skipBlanks (writeMember (key, v) rest) = writeMember (key, v) rest :=
    skipBlanks_cons rfl _
  have hcolon : skipBlanks (':' :: v.write rest) = ':' :: v.write rest := skipBlanks_cons rfl _
  rw [readMember, hquote, writeMember, writeString]
  simp only [readChars_string, hcolon, h]
  rfl

theorem takenBack_member {value : List Char → Reading Json} {m : String × Json}
    (h : TakenBack value write ']' m.2) : TakenBack (readMember value) writeMember '}' m where
  opens rest := by
    have hlen := (h.opens rest).length_lt
    exact opens_writeString (.inr rfl) m.1 (Nat.le_succ_of_le (Nat.le_of_lt hlen))
  reads rest hr := readMember_writeMember (h.reads rest hr)

theorem takenBack_writeInt {i : Int} (hi : Range64.Signed i ∨ Range64.Unsigned i) (depth : Nat) :
    TakenBack (readValue depth) write ']' (number (.whole i)) where
  opens rest := by
    obtain ⟨c, cs, heq, hc⟩ := writeInt_head i
    refine ⟨c, cs ++ rest, ?_, not_blank_of_head hc, hc ']' (by decide) rfl, by simp⟩
    rw [write, Number.write, heq, List.cons_append]
  reads rest hr := readValue_writeInt hi depth hr

/-- A value is read back from its text, whatever follows. -/
theorem Plain.takenBack {depth : Nat} {v : Json} (h : Plain depth v) :
    TakenBack (readValue depth) write ']' v := by
  induction h with
  | null =>
    constructor
    · exact fun rest => opens_cons rfl (by decide) (by simp; omega)
    · exact fun rest _ => readValue_scalar rfl (by decide) (by decide) _ _
  | @bool depth b =>
    constructor
    · cases b <;> exact fun rest => opens_cons rfl (by decide) (by simp; omega)
    · cases b <;> exact fun rest _ => readValue_scalar rfl (by decide) (by decide) _ _
  | @whole depth i hi => exact takenBack_writeInt hi depth
  | @string depth s =>
    constructor
    · exact fun rest => opens_writeString (.inl rfl) s (Nat.le_refl _)
    · intro rest _
      rw [write, writeString, readValue_scalar rfl (by decide) (by decide), readScalar,
        readChars_string]
      rfl
  | @array depth items _ ih =>
    constructor
    · intro rest
      rw [write_array]
      exact opens_cons rfl (by decide) (Nat.le_of_lt (length_lt_writeContents ih rest))
    · intro rest _
      rw [write_array, readValue, skipBlanks_cons rfl]
      simp only [readContents_writeContents (.inl rfl) ih]
      rfl
  | @object depth members _ ih =>
    have hmembers (m : String × Json) (hm : m ∈ members) := takenBack_member (ih m hm)
    constructor
    · intro rest
      rw [write_object]
      exact opens_cons rfl (by decide) (Nat.le_of_lt (length_lt_writeContents hmembers rest))
    · intro rest _
      rw [write_object, readValue, skipBlanks_cons rfl]
      simp only [readContents_writeContents (.inr rfl) hmembers]
      rfl

/-- A whole text stands for the value that was written, in canonical order. -/
theorem ofText?_text {v : Json} (h : Plain maxDepth v) : ofText? v.text = some v.canonical := by
  have hread := h.takenBack.reads [] .nil
  have hwritten : ofWritten? v.text = some v := by
    rw [ofWritten?, text, String.toList_ofList, hread]
    rfl
  rw [ofText?, hwritten]
  rfl

end Json

end ContextServer
