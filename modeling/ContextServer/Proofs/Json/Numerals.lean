import ContextServer.Proofs.Json.Reading
import Mathlib.Algebra.Field.Rat
import Mathlib.Tactic.FieldSimp
import Mathlib.Tactic.Ring

/-!
Number literals by their parts, and the exact numbers that they stand for. The reader takes a literal
apart before it looks for a number to keep, and what it took is a text that reads the same on its own.
-/

namespace ContextServer

/-- The number that a decimal stands for. -/
def Decimal.value (d : Decimal) : ℚ := d.significand * 10 ^ d.exponent

namespace Json

/-! ### Literals -/

/-- A number literal: its sign, the digits before and after the point, and the exponent. -/
structure Numeral where
  negative : Bool
  whole : List Char
  fraction : Option (List Char)
  exponent : Option Int

namespace Numeral

/-- What the literal spells, sign apart. -/
def decimal (n : Numeral) : Decimal :=
  ⟨Decimal.ofDigits (n.whole ++ n.fraction.getD []),
    n.exponent.getD 0 - ((n.fraction.getD []).length : Nat)⟩

/-- The number that the literal stands for. -/
def value (n : Numeral) : ℚ := if n.negative then -n.decimal.value else n.decimal.value

/-- The number that the reader keeps for the literal. -/
def number? (n : Numeral) : Option Number := literal? n.negative n.whole n.fraction n.exponent

/-- Whether the literal is a whole number that 64 bits hold; `-0`, a fraction and an exponent are
none. -/
def Fits (n : Numeral) : Prop :=
  n.fraction = none ∧ n.exponent = none ∧
    if n.negative then
      Decimal.ofDigits n.whole ≠ 0 ∧ Range64.Signed (-(Decimal.ofDigits n.whole : Int))
    else Range64.Unsigned (Decimal.ofDigits n.whole : Int)

instance (n : Numeral) : Decidable n.Fits := by unfold Fits; infer_instance

/-- A literal that fits is kept as it is. -/
theorem number?_of_fits {n : Numeral} (h : n.Fits) :
    ∃ i : Int, n.number? = some (.whole i) ∧ (i : ℚ) = n.value := by
  obtain ⟨hfraction, hexponent, hfits⟩ := h
  have hvalue : n.decimal.value = (Decimal.ofDigits n.whole : ℚ) := by
    simp [decimal, Decimal.value, hfraction, hexponent]
  refine ⟨if n.negative then -(Decimal.ofDigits n.whole : Int) else Decimal.ofDigits n.whole, ?_, ?_⟩
  · cases hnegative : n.negative with
    | false =>
      rw [hnegative] at hfits
      simp only [number?, literal?, hfraction, hexponent, hnegative, Bool.false_eq_true, if_false,
        true_and]
      rw [if_pos (by simpa using hfits)]
    | true =>
      rw [hnegative] at hfits
      simp only [number?, literal?, hfraction, hexponent, hnegative, if_true, true_and]
      rw [if_pos (by simpa using hfits)]
  · rw [value, hvalue]
    split <;> simp

/-- Any other literal is kept as a float. -/
theorem number?_of_not_fits {n : Numeral} (h : ¬n.Fits) :
    n.number? = (Decimal.ofLiteral n.whole (n.fraction.getD []) (n.exponent.getD 0)).toFloat?.map
      fun x => .real (if n.negative then -x else x) := by
  rw [number?, literal?, if_neg]
  · rintro ⟨hfraction, hexponent, hfits⟩
    refine h ⟨hfraction, hexponent, ?_⟩
    cases hnegative : n.negative <;> simpa [hnegative] using hfits

end Numeral

/-- Takes a literal apart. -/
def readNumeral (cs : List Char) : Reading Numeral :=
  let negative := cs.head? == some '-'
  (readWhole (if negative then cs.drop 1 else cs)).bind fun (whole, cs) =>
  (readFraction cs).bind fun (fraction, cs) =>
  (readExponent cs).map fun (exponent, cs) => (⟨negative, whole, fraction, exponent⟩, cs)

theorem readNumber_eq (cs : List Char) :
    readNumber cs = (readNumeral cs).bind fun r => r.1.number?.map (·, r.2) := by
  simp only [readNumber, readNumeral, Option.bind_assoc, Option.bind_map]
  rfl

/-- A literal starts with a sign or a digit. -/
theorem readNumeral_head {c : Char} {cs rest : List Char} {n : Numeral}
    (h : readNumeral (c :: cs) = some (n, rest)) :
    ∀ d, d ≠ '-' → d.isDigit = false → c ≠ d := by
  rintro d hminus hdigit rfl
  have hdigits : readDigits (c :: cs) = none := by simp [readDigits, hdigit]
  have hwhole : readWhole (c :: cs) = none := by
    rw [readWhole.eq_def]
    split
    · rename_i heq
      cases heq
      exact absurd hdigit (by decide)
    · exact hdigits
  simp [readNumeral, hminus, hwhole] at h

/-! ### Texts of the parts -/

/-- What cannot go on with digits and does not start a fraction. -/
def NoPoint (rest : List Char) : Prop :=
  ∀ c more, rest = c :: more → c.isDigit = false ∧ c ≠ '.'

theorem NoPoint.noDigit {rest : List Char} (h : NoPoint rest) : NoDigit rest :=
  fun c more heq => (h c more heq).1

theorem Closed.noPoint {rest : List Char} (h : Closed rest) : NoPoint rest :=
  fun c more heq => ⟨(h c more heq).1, (h c more heq).2.1⟩

/-- A text of the digits before a point. -/
def WholeText (text : List Char) : Prop :=
  ∀ rest, NoDigit rest → readWhole (text ++ rest) = some (text, rest)

/-- A text of a fraction, the empty one if there is none. -/
structure FractionText (fraction : Option (List Char)) (text : List Char) : Prop where
  reads : ∀ rest, NoPoint rest → readFraction (text ++ rest) = some (fraction, rest)
  noDigit : ∀ rest, NoPoint rest → NoDigit (text ++ rest)

/-- A text of an exponent, the empty one if there is none. -/
structure ExponentText (exponent : Option Int) (text : List Char) : Prop where
  reads : ∀ rest, Closed rest → readExponent (text ++ rest) = some (exponent, rest)
  noPoint : ∀ rest, Closed rest → NoPoint (text ++ rest)

def NumeralText (n : Numeral) (text : List Char) : Prop :=
  ∀ rest, Closed rest → readNumeral (text ++ rest) = some (n, rest)

/-- What is read as digits is digits, at least one. -/
theorem readDigits_taken {cs digits rest : List Char} (h : readDigits cs = some (digits, rest)) :
    cs = digits ++ rest ∧ digits ≠ [] ∧ ∀ c ∈ digits, c.isDigit = true := by
  unfold readDigits at h
  split at h
  · cases h
  · rename_i hne
    obtain ⟨rfl, rfl⟩ := Prod.mk.inj (Option.some.inj h)
    exact ⟨(List.takeWhile_append_dropWhile).symm, hne, List.all_eq_true.mp List.all_takeWhile⟩

theorem WholeText.zero : WholeText ['0'] := fun _ _ => rfl

theorem WholeText.digits {d : Char} {ds : List Char} (hd : d ≠ '0')
    (hall : ∀ c ∈ d :: ds, c.isDigit = true) : WholeText (d :: ds) :=
  fun _ hr => readWhole_digits hd hall hr

theorem readWhole_taken {cs text rest : List Char} (h : readWhole cs = some (text, rest)) :
    cs = text ++ rest ∧ WholeText text := by
  unfold readWhole at h
  split at h
  · obtain ⟨rfl, rfl⟩ := Prod.mk.inj (Option.some.inj h)
    exact ⟨rfl, .zero⟩
  · rename_i hzero
    obtain ⟨rfl, hne, hall⟩ := readDigits_taken h
    cases text with
    | nil => exact absurd rfl hne
    | cons d ds =>
      refine ⟨rfl, .digits ?_ hall⟩
      rintro rfl
      exact hzero (ds ++ rest) rfl

theorem FractionText.none : FractionText none [] where
  reads rest hr := by
    rw [List.nil_append, readFraction.eq_def]
    split
    · rename_i more
      exact absurd rfl (hr '.' more rfl).2
    · rfl
  noDigit rest hr := hr.noDigit

theorem FractionText.some {digits : List Char} (hne : digits ≠ [])
    (hall : ∀ c ∈ digits, c.isDigit = true) : FractionText (some digits) ('.' :: digits) where
  reads rest hr := by
    rw [List.cons_append, readFraction, readDigits_append hne hall hr.noDigit]
    rfl
  noDigit rest hr := by
    intro c more heq
    cases heq
    rfl

theorem readFraction_taken {cs rest : List Char} {fraction : Option (List Char)}
    (h : readFraction cs = some (fraction, rest)) :
    ∃ text, cs = text ++ rest ∧ FractionText fraction text := by
  unfold readFraction at h
  split at h
  · obtain ⟨⟨digits, left⟩, hread, heq⟩ := Option.map_eq_some_iff.mp h
    obtain ⟨rfl, rfl⟩ := Prod.mk.inj heq
    obtain ⟨rfl, hne, hall⟩ := readDigits_taken hread
    exact ⟨'.' :: digits, rfl, .some hne hall⟩
  · obtain ⟨rfl, rfl⟩ := Prod.mk.inj (Option.some.inj h)
    exact ⟨[], rfl, .none⟩

theorem ExponentText.none : ExponentText none [] where
  reads _ hr := readExponent_closed hr
  noPoint _ hr := hr.noPoint

theorem ExponentText.some {mark : Char} {sign digits : List Char} (hmark : mark = 'e' ∨ mark = 'E')
    (hsign : sign = [] ∨ sign = ['+'] ∨ sign = ['-']) (hne : digits ≠ [])
    (hall : ∀ c ∈ digits, c.isDigit = true) :
    ExponentText (some (if sign = ['-'] then -(Decimal.ofDigits digits : Int)
      else Decimal.ofDigits digits)) (mark :: (sign ++ digits)) where
  reads rest hr := by
    have hread := readDigits_append hne hall hr.noDigit
    unfold readExponent
    rw [List.cons_append, List.append_assoc]
    dsimp only
    rw [if_pos hmark]
    rcases hsign with rfl | rfl | rfl
    · -- without a sign the digits come first, and no digit is a sign
      cases digits with
      | nil => exact absurd rfl hne
      | cons d ds =>
        have hd := hall d List.mem_cons_self
        rw [List.nil_append]
        split
        · rename_i heq
          cases heq
          cases hd
        · rename_i heq
          cases heq
          cases hd
        · rw [hread]
          rfl
    · simp only [List.cons_append, List.nil_append, hread]
      rfl
    · simp only [List.cons_append, List.nil_append, hread]
      rfl
  noPoint rest hr := by
    intro c more heq
    cases heq
    rcases hmark with rfl | rfl <;> decide

theorem readExponent_taken {cs rest : List Char} {exponent : Option Int}
    (h : readExponent cs = some (exponent, rest)) :
    ∃ text, cs = text ++ rest ∧ ExponentText exponent text := by
  unfold readExponent at h
  split at h
  · rename_i mark tail
    split at h
    · rename_i hmark
      split at h
      all_goals
        obtain ⟨⟨digits, left⟩, hread, heq⟩ := Option.map_eq_some_iff.mp h
        obtain ⟨rfl, rfl⟩ := Prod.mk.inj heq
        obtain ⟨rfl, hne, hall⟩ := readDigits_taken hread
      · exact ⟨mark :: (['-'] ++ digits), by simp, .some hmark (.inr (.inr rfl)) hne hall⟩
      · exact ⟨mark :: (['+'] ++ digits), by simp, .some hmark (.inr (.inl rfl)) hne hall⟩
      · exact ⟨mark :: ([] ++ digits), by simp, .some hmark (.inl rfl) hne hall⟩
    · obtain ⟨rfl, rfl⟩ := Prod.mk.inj (Option.some.inj h)
      exact ⟨[], rfl, .none⟩
  · obtain ⟨rfl, rfl⟩ := Prod.mk.inj (Option.some.inj h)
    exact ⟨[], rfl, .none⟩

/-! ### Texts of literals -/

/-- The digits before the point come first in a literal without a sign. -/
theorem WholeText.head {text : List Char} (h : WholeText text) (rest : List Char) :
    ((text ++ rest).head? == some '-') = false := by
  cases text with
  | nil => exact absurd (h [] fun _ _ heq => by cases heq) (by decide)
  | cons c cs =>
    have hc : c ≠ '-' := by
      rintro rfl
      exact absurd (h [] fun _ _ heq => by cases heq) (by simp [readWhole, readDigits])
    simpa using hc

theorem numeralText {whole fraction exponent : List Char} {f : Option (List Char)} {e : Option Int}
    (hw : WholeText whole) (hf : FractionText f fraction) (he : ExponentText e exponent)
    (negative : Bool) :
    NumeralText ⟨negative, whole, f, e⟩
      ((if negative then ['-'] else []) ++ (whole ++ (fraction ++ exponent))) := by
  intro rest hr
  have hexponent := he.reads rest hr
  have hfraction := hf.reads _ (he.noPoint rest hr)
  have hwhole := hw _ (hf.noDigit _ (he.noPoint rest hr))
  have hhead := hw.head (fraction ++ (exponent ++ rest))
  cases negative with
  | false =>
    simp only [readNumeral, Bool.false_eq_true, if_false, List.nil_append, List.append_assoc, hhead,
      hwhole, Option.bind_some, hfraction, hexponent, Option.map_some]
  | true =>
    simp only [readNumeral, if_true, List.cons_append, List.nil_append, List.append_assoc,
      List.head?_cons, beq_self_eq_true, List.drop_succ_cons, List.drop_zero, hwhole,
      Option.bind_some, hfraction, hexponent, Option.map_some]

/-- What was taken as a literal is a text of it. -/
theorem readNumeral_taken {cs rest : List Char} {n : Numeral}
    (h : readNumeral cs = some (n, rest)) : ∃ text, cs = text ++ rest ∧ NumeralText n text := by
  unfold readNumeral at h
  obtain ⟨⟨whole, left⟩, hwhole, h⟩ := Option.bind_eq_some_iff.mp h
  obtain ⟨⟨fraction, left'⟩, hfraction, h⟩ := Option.bind_eq_some_iff.mp h
  obtain ⟨⟨exponent, left''⟩, hexponent, heq⟩ := Option.map_eq_some_iff.mp h
  obtain ⟨rfl, rfl⟩ := Prod.mk.inj heq
  obtain ⟨hcs, hw⟩ := readWhole_taken hwhole
  obtain ⟨f, rfl, hf⟩ := readFraction_taken hfraction
  obtain ⟨e, rfl, he⟩ := readExponent_taken hexponent
  refine ⟨_, ?_, numeralText hw hf he _⟩
  cases cs with
  | nil => simpa using hcs
  | cons c cs =>
    by_cases hc : c = '-'
    · subst hc
      simpa using hcs
    · simpa [hc] using hcs

end Json

end ContextServer
