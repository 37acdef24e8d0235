import ContextServer.Proofs.Decimal.Rounding
import ContextServer.Proofs.Decimal.Writing
import Mathlib.Algebra.Order.Field.Basic

/-!
What the shortest decimal of a float is good for: it has at most seventeen digits, and it rounds to the
float. A number of seventeen digits is always near enough, since the decimals of so many digits stand closer
together than the floats.
-/

namespace ContextServer

open Binary64

namespace Decimal

theorem ten_zpow_pos (k : Int) : (0 : ℚ) < 10 ^ k := zpow_pos (by norm_num) k

theorem zpow_eq_div (b : ℚ) (k : Int) : b ^ k = b ^ k.toNat / b ^ (-k).toNat := by
  rcases Int.le_total 0 k with h | h
  · obtain ⟨n, rfl⟩ := Int.eq_ofNat_of_zero_le h
    simp
  · obtain ⟨n, hn⟩ := Int.eq_ofNat_of_zero_le (Int.neg_nonneg_of_nonpos h)
    obtain rfl : k = -(n : Int) := by omega
    simp

theorem value_nonneg (d : Decimal) : 0 ≤ d.value :=
  mul_nonneg (Nat.cast_nonneg _) (ten_zpow_pos _).le

/-- The number of digits tells between which powers of ten a number lies. -/
theorem digitCount_spec {n : Nat} (h : 0 < n) :
    (10 : ℚ) ^ ((digitCount n : Int) - 1) ≤ n ∧ (n : ℚ) < 10 ^ (digitCount n : Int) := by
  have hpos : 0 < digitCount n := by
    rw [digitCount, if_neg h.ne']
    exact Nat.length_toDigits_pos
  have hlow : 10 ^ (digitCount n - 1) ≤ n := by
    rcases Nat.eq_zero_or_pos (digitCount n - 1) with hone | hmore
    · rw [hone]
      exact h
    · by_contra hlt
      have hle := (Nat.length_toDigits_le_iff (by decide) hmore).mpr (Nat.lt_of_not_le hlt)
      rw [digitCount, if_neg h.ne'] at hle hmore
      omega
  have hhigh : n < 10 ^ digitCount n := by
    rw [digitCount, if_neg h.ne']
    exact (Nat.length_toDigits_le_iff (by decide) Nat.length_toDigits_pos).mp le_rfl
  have hsub : (digitCount n : Int) - 1 = ((digitCount n - 1 : Nat) : Int) := by omega
  rw [hsub, zpow_natCast, zpow_natCast]
  exact ⟨by exact_mod_cast hlow, by exact_mod_cast hhigh⟩

theorem trimmed_value (fuel : Nat) (d : Decimal) : (trimmed fuel d).value = d.value := by
  induction fuel generalizing d with
  | zero => rfl
  | succ fuel ih =>
    rw [trimmed]
    split
    · rename_i h
      have hten : (d.significand : ℚ) = (d.significand / 10 : Nat) * 10 := by
        exact_mod_cast (Nat.div_mul_cancel (Nat.dvd_of_mod_eq_zero h.2)).symm
      rw [ih, value, value, hten, zpow_add_one₀ (by norm_num)]
      ring
    · rfl

namespace Interval

/-! ### Intervals -/

/-- A fraction over the interval's denominator. -/
def fraction (i : Interval) (n : Nat) : ℚ := n / i.denominator

/-- Whether a number lies in the interval. -/
def Holds (i : Interval) (q : ℚ) : Prop :=
  if i.closed then i.fraction i.low ≤ q ∧ q ≤ i.fraction i.high
  else i.fraction i.low < q ∧ q < i.fraction i.high

section Units

variable {i : Interval} (hden : 0 < i.denominator) (k : Int)
include hden

theorem scale_pos : (0 : ℚ) < i.denominator * 10 ^ (-k).toNat := by
  have hcast : (0 : ℚ) < i.denominator := by exact_mod_cast hden
  positivity

theorem cast_numerator (n : Nat) :
    ((n * Nat.pow 10 (-k).toNat : Nat) : ℚ) =
      i.fraction n * (i.denominator * 10 ^ (-k).toNat) := by
  have hcast : (i.denominator : ℚ) ≠ 0 := by exact_mod_cast hden.ne'
  rw [fraction, Nat.pow_eq]
  push_cast
  field_simp

theorem cast_multiple (m : Nat) :
    ((m * (i.inUnits k).denominator : Nat) : ℚ) =
      m * 10 ^ k * (i.denominator * 10 ^ (-k).toNat) := by
  rw [zpow_eq_div 10 k, inUnits]
  simp only [Nat.pow_eq]
  push_cast
  field_simp

theorem numerator_le {n m : Nat} :
    n * Nat.pow 10 (-k).toNat ≤ m * (i.inUnits k).denominator ↔ i.fraction n ≤ m * 10 ^ k := by
  rw [← mul_le_mul_iff_of_pos_right (scale_pos hden k), ← cast_numerator hden, ← cast_multiple hden,
    Nat.cast_le]

theorem multiple_le {n m : Nat} :
    m * (i.inUnits k).denominator ≤ n * Nat.pow 10 (-k).toNat ↔ m * 10 ^ k ≤ i.fraction n := by
  rw [← mul_le_mul_iff_of_pos_right (scale_pos hden k), ← cast_numerator hden, ← cast_multiple hden,
    Nat.cast_le]

/-- A multiple of `10^k` is tried without rounding. -/
theorem holds_inUnits {m : Nat} :
    (i.inUnits k).holds (m * (i.inUnits k).denominator) = true ↔ i.Holds (m * 10 ^ k) := by
  have hlow : ((i.inUnits k).low ≤ m * (i.inUnits k).denominator) ↔ _ := numerator_le hden k
  have hhigh : (m * (i.inUnits k).denominator ≤ (i.inUnits k).high) ↔ _ := multiple_le hden k
  have hlow' : ((i.inUnits k).low < m * (i.inUnits k).denominator) ↔ i.fraction i.low < m * 10 ^ k := by
    rw [← not_le, ← not_le]
    exact not_congr (multiple_le hden k)
  have hhigh' : (m * (i.inUnits k).denominator < (i.inUnits k).high) ↔ m * 10 ^ k < i.fraction i.high := by
    rw [← not_le, ← not_le]
    exact not_congr (numerator_le hden k)
  have hclosed : (i.inUnits k).closed = i.closed := rfl
  unfold holds Holds
  rw [hclosed]
  split
  · rw [Bool.and_eq_true, decide_eq_true_iff, decide_eq_true_iff, hlow, hhigh]
  · rw [Bool.and_eq_true, decide_eq_true_iff, decide_eq_true_iff, hlow', hhigh']

end Units

section Search

variable {i : Interval} {tie : Tie} {k : Int}

/-- What is found is a multiple of `10^k` in the interval, at most one more than the value. -/
theorem nearest?_spec (hden : 0 < i.denominator) {d : Decimal} (h : i.nearest? tie k = some d) :
    d.exponent = k ∧ i.Holds d.value ∧ d.value ≤ i.fraction i.value + 10 ^ k := by
  have hdown : ((i.inUnits k).value / (i.inUnits k).denominator : Nat) * 10 ^ k ≤
      i.fraction i.value :=
    (multiple_le hden k).mp (Nat.div_mul_le_self _ _)
  unfold nearest? at h
  dsimp only at h
  split at h
  · rename_i hup
    obtain rfl := Option.some.inj h
    rw [Bool.and_eq_true] at hup
    refine ⟨rfl, (holds_inUnits hden k).mp hup.1, ?_⟩
    rw [Decimal.value]
    push_cast at hdown ⊢
    linarith
  · split at h
    · rename_i hfits
      obtain rfl := Option.some.inj h
      refine ⟨rfl, (holds_inUnits hden k).mp hfits, ?_⟩
      exact hdown.trans (le_add_of_nonneg_right (ten_zpow_pos k).le)
    · cases h

theorem holds_of_between {x : Nat} (hlow : i.low < x) (hhigh : x < i.high) : i.holds x = true := by
  unfold holds
  split <;> simp [hlow, hhigh, hlow.le, hhigh.le]

/-- An interval wider than `10^k` has a multiple of it next to the value. -/
theorem nearest?_isSome (hden : 0 < i.denominator) (hlow : i.low < i.value) (hhigh : i.value < i.high)
    (wide : i.fraction i.low + 10 ^ k < i.fraction i.high) : (i.nearest? tie k).isSome := by
  have hwide : (i.inUnits k).low + (i.inUnits k).denominator < (i.inUnits k).high := by
    have hone := cast_multiple hden k 1
    rw [one_mul, Nat.cast_one, one_mul] at hone
    have hcast : (((i.inUnits k).low + (i.inUnits k).denominator : Nat) : ℚ) <
        ((i.inUnits k).high : Nat) := by
      rw [Nat.cast_add, hone, inUnits, cast_numerator hden, cast_numerator hden, ← add_mul]
      exact mul_lt_mul_of_pos_right wide (scale_pos hden k)
    exact_mod_cast hcast
  have hup : 0 < Nat.pow 10 (-k).toNat := Nat.pow_pos (by decide)
  have hlow' : (i.inUnits k).low < (i.inUnits k).value := Nat.mul_lt_mul_of_pos_right hlow hup
  have hhigh' : (i.inUnits k).value < (i.inUnits k).high := Nat.mul_lt_mul_of_pos_right hhigh hup
  have hunit : 0 < (i.inUnits k).denominator := Nat.mul_pos hden (Nat.pow_pos (by decide))
  unfold nearest?
  generalize i.inUnits k = u at hwide hlow' hhigh' hunit ⊢
  have hdown : u.value / u.denominator * u.denominator ≤ u.value := Nat.div_mul_le_self _ _
  have hnext : u.value < u.value / u.denominator * u.denominator + u.denominator := by
    rw [← Nat.add_one_mul, Nat.mul_comm]
    exact Nat.lt_mul_div_succ u.value hunit
  -- the value lies between the two multiples, and one of the steps to them stays inside
  have hfits : u.holds (u.value / u.denominator * u.denominator) = true ∨
      u.holds ((u.value / u.denominator + 1) * u.denominator) = true := by
    rw [Nat.add_one_mul]
    by_cases h : u.low < u.value / u.denominator * u.denominator
    · exact .inl (holds_of_between h (by omega))
    · exact .inr (holds_of_between (by omega) (by omega))
  dsimp only
  split
  · rfl
  · rename_i hup
    rw [if_pos]
    · rfl
    · rcases hfits with h | h
      · exact h
      · rw [h, Bool.true_and, Bool.or_eq_true, not_or, Bool.not_eq_true', Bool.not_eq_false] at hup
        exact hup.2

/-- The value starts at its leading exponent. -/
theorem leading_spec (hden : 0 < i.denominator) (hvalue : 0 < i.value) :
    10 ^ i.leading ≤ i.fraction i.value ∧ i.fraction i.value < 10 ^ (i.leading + 1) := by
  have hd : (0 : ℚ) < i.denominator := by exact_mod_cast hden
  obtain ⟨hvlow, hvhigh⟩ := digitCount_spec hvalue
  obtain ⟨hdlow, hdhigh⟩ := digitCount_spec hden
  have hlow : 10 ^ ((digitCount i.value : Int) - digitCount i.denominator - 1) ≤
      i.fraction i.value := by
    rw [fraction, le_div_iff₀ hd]
    calc (10 : ℚ) ^ ((digitCount i.value : Int) - digitCount i.denominator - 1) * i.denominator
      _ ≤ 10 ^ ((digitCount i.value : Int) - digitCount i.denominator - 1) *
          10 ^ (digitCount i.denominator : Int) :=
        mul_le_mul_of_nonneg_left hdhigh.le (ten_zpow_pos _).le
      _ = 10 ^ ((digitCount i.value : Int) - 1) := by
        rw [← zpow_add₀ (by norm_num)]
        congr 1
        omega
      _ ≤ i.value := hvlow
  have hhigh : i.fraction i.value <
      10 ^ ((digitCount i.value : Int) - digitCount i.denominator + 1) := by
    rw [fraction, div_lt_iff₀ hd]
    calc (i.value : ℚ)
      _ < 10 ^ (digitCount i.value : Int) := hvhigh
      _ = 10 ^ ((digitCount i.value : Int) - digitCount i.denominator + 1) *
          10 ^ ((digitCount i.denominator : Int) - 1) := by
        rw [← zpow_add₀ (by norm_num)]
        congr 1
        omega
      _ ≤ _ := mul_le_mul_of_nonneg_left hdlow (ten_zpow_pos _).le
  have hguess := multiple_le hden (digitCount i.value - digitCount i.denominator) (n := i.value) (m := 1)
  rw [one_mul, Nat.cast_one, one_mul] at hguess
  unfold leading
  dsimp only
  split
  · rename_i h
    exact ⟨hguess.mp h, hhigh⟩
  · rename_i h
    rw [sub_add_cancel]
    exact ⟨hlow, lt_of_not_ge (mt hguess.mpr h)⟩

end Search

/-! ### The interval of a float -/

section Float

variable {d : Binary64.Dyadic} (hd : d.significand ≠ 0)

theorem denominator_ofDyadic_pos (m : Nat) (q : Int) : 0 < (ofDyadic m q).denominator := by
  show 0 < 1 <<< (2 - q).toNat
  rw [Nat.one_shiftLeft]
  exact Nat.two_pow_pos _

theorem fraction_ofDyadic (m n : Nat) (q : Int) :
    (ofDyadic m q).fraction (n * 1 <<< (q - 2).toNat) = n / 4 * 2 ^ q := by
  have hneg : 2 - q = -(q - 2) := by omega
  have hsub : (2 : ℚ) ^ q = 4 * 2 ^ (q - 2) := by
    rw [zpow_sub₀ (by norm_num)]
    norm_num
    ring
  rw [hsub, zpow_eq_div 2 (q - 2), fraction]
  show ((n * 1 <<< (q - 2).toNat : Nat) : ℚ) / (1 <<< (2 - q).toNat : Nat) = _
  rw [hneg, Nat.one_shiftLeft, Nat.one_shiftLeft]
  push_cast
  field_simp

theorem fraction_value (d : Binary64.Dyadic) :
    (ofDyadic d.significand d.exponent).fraction (ofDyadic d.significand d.exponent).value =
      d.magnitude := by
  refine (fraction_ofDyadic _ _ _).trans ?_
  rw [Binary64.Dyadic.magnitude]
  push_cast
  ring

theorem fraction_high (d : Binary64.Dyadic) :
    (ofDyadic d.significand d.exponent).fraction (ofDyadic d.significand d.exponent).high =
      d.magnitude + 2 ^ d.exponent / 2 := by
  refine (fraction_ofDyadic _ _ _).trans ?_
  rw [Binary64.Dyadic.magnitude]
  push_cast
  ring

include hd in
theorem fraction_low :
    (ofDyadic d.significand d.exponent).fraction (ofDyadic d.significand d.exponent).low =
      d.magnitude - d.gapBelow / 2 := by
  refine (fraction_ofDyadic _ _ _).trans ?_
  have hbit : leadingBit = 2 ^ 52 := rfl
  rw [Binary64.Dyadic.magnitude, Binary64.Dyadic.gapBelow, hbit]
  split
  · rw [Nat.cast_sub (by omega)]
    push_cast
    ring
  · rw [Nat.cast_sub (by omega)]
    push_cast
    ring

include hd in
theorem low_lt_value :
    (ofDyadic d.significand d.exponent).low < (ofDyadic d.significand d.exponent).value ∧
      (ofDyadic d.significand d.exponent).value < (ofDyadic d.significand d.exponent).high := by
  have hscale : 0 < 1 <<< (d.exponent - 2).toNat := by
    rw [Nat.one_shiftLeft]
    exact Nat.two_pow_pos _
  constructor
  · refine Nat.mul_lt_mul_of_pos_right ?_ hscale
    split <;> omega
  · exact Nat.mul_lt_mul_of_pos_right (by omega) hscale

include hd in
/-- What lies in the interval of a float rounds to it. -/
theorem Holds.rounds {q : ℚ} (h : (ofDyadic d.significand d.exponent).Holds q) : d.Rounds q := by
  have hclosed : (ofDyadic d.significand d.exponent).closed = decide (d.significand % 2 = 0) := rfl
  unfold Holds at h
  rw [fraction_low hd, fraction_high, hclosed] at h
  split at h
  · rename_i heven
    exact ⟨h.1, h.2, .inl (of_decide_eq_true heven)⟩
  · exact ⟨h.1.le, h.2.le, .inr h⟩

include hd in
/-- Numbers of seventeen digits stand closer together than the interval is wide. -/
theorem wide_ofDyadic (hn : d.Normal) :
    (ofDyadic d.significand d.exponent).fraction (ofDyadic d.significand d.exponent).low +
        10 ^ ((ofDyadic d.significand d.exponent).leading - 16) <
      (ofDyadic d.significand d.exponent).fraction (ofDyadic d.significand d.exponent).high := by
  have hvalue : 0 < (ofDyadic d.significand d.exponent).value := (low_lt_value hd).1.pos
  have hlead := (leading_spec (denominator_ofDyadic_pos _ _) hvalue).1
  have hunit := d.unit_pos
  rw [fraction_value, Binary64.Dyadic.magnitude] at hlead
  rw [fraction_low hd, fraction_high, zpow_sub₀ (by norm_num), Binary64.Dyadic.gapBelow]
  generalize (10 : ℚ) ^ (ofDyadic d.significand d.exponent).leading = t at hlead
  split
  · rename_i hpower
    rw [hpower.1] at hlead
    norm_num at hlead ⊢
    linarith
  · have hmost : (d.significand : ℚ) * 2 ^ d.exponent ≤ 2 ^ 53 * 2 ^ d.exponent := by
      have hcast : (d.significand : ℚ) ≤ 2 ^ 53 := by exact_mod_cast hn.below.le
      exact mul_le_mul_of_nonneg_right hcast hunit.le
    norm_num at hmost ⊢
    linarith

end Float

end Interval

/-! ### The search -/

/-- A number that so many decimal digits write, a point and an exponent apart. -/
def HasDigits (count : Nat) (q : ℚ) : Prop :=
  ∃ (m : Nat) (k : Int), m < 10 ^ count ∧ |q| = m * 10 ^ k

/-- `n` digits behind the leading one write a decimal up to the next power of ten. -/
theorem hasDigits_of_lt {d : Decimal} {lead : Int} {n count : Nat} (hcount : n < count)
    (hk : d.exponent = lead - n) (h : d.value < 10 ^ (lead + 1) + 10 ^ d.exponent) :
    HasDigits count d.value := by
  have hpos := ten_zpow_pos d.exponent
  have hpower : (10 : ℚ) ^ (lead + 1) = 10 ^ (n + 1) * 10 ^ d.exponent := by
    rw [← zpow_natCast, ← zpow_add₀ (by norm_num), hk]
    congr 1
    omega
  have hle : d.significand ≤ 10 ^ count := by
    have hlt : (d.significand : ℚ) < 10 ^ (n + 1) + 1 := by
      rw [value, hpower] at h
      nlinarith
    have hnat : d.significand < 10 ^ (n + 1) + 1 := by exact_mod_cast hlt
    exact (Nat.le_of_lt_succ hnat).trans (Nat.pow_le_pow_right (by decide) hcount)
  rw [HasDigits, abs_of_nonneg d.value_nonneg]
  rcases hle.lt_or_eq with hlt | heq
  · exact ⟨d.significand, d.exponent, hlt, rfl⟩
  · -- a carry through all digits leaves a one
    refine ⟨1, count + d.exponent, Nat.one_lt_pow (by omega) (by decide), ?_⟩
    rw [value, heq, zpow_add₀ (by norm_num), zpow_natCast]
    push_cast
    ring

/-- The search ends within seventeen digits. -/
theorem Interval.findSome?_nearest? {i : Interval} (tie : Tie) (hden : 0 < i.denominator)
    (hlow : i.low < i.value) (hhigh : i.value < i.high)
    (wide : i.fraction i.low + 10 ^ (i.leading - 16) < i.fraction i.high) :
    ∃ d, ((List.range 17).findSome? fun (n : Nat) => i.nearest? tie (i.leading - n)) = some d ∧
      i.Holds d.value ∧ HasDigits 17 d.value := by
  have hsome : ((List.range 17).findSome? fun (n : Nat) =>
      i.nearest? tie (i.leading - n)).isSome := by
    rw [List.findSome?_isSome_iff]
    exact ⟨16, by decide, nearest?_isSome hden hlow hhigh wide⟩
  obtain ⟨d, hd⟩ := Option.isSome_iff_exists.mp hsome
  obtain ⟨n, hn, hfound⟩ := List.exists_of_findSome?_eq_some hd
  obtain ⟨hexponent, hholds, hle⟩ := nearest?_spec hden hfound
  have hlead := (leading_spec hden hlow.pos).2
  refine ⟨d, hd, hholds, hasDigits_of_lt (List.mem_range.mp hn) hexponent ?_⟩
  rw [hexponent]
  linarith

theorem shortest_spec (tie : Tie) (x : Float) :
    (Binary64.Dyadic.ofFloat x).Rounds (shortest tie x).value ∧
      HasDigits 17 (shortest tie x).value := by
  have hnormal := Binary64.Dyadic.normal_ofFloat x
  unfold shortest
  generalize Binary64.Dyadic.ofFloat x = d at hnormal ⊢
  dsimp only
  split
  · rename_i hzero
    have hvalue : (⟨0, 0⟩ : Decimal).value = 0 := by simp [value]
    rw [hvalue]
    exact ⟨Binary64.Dyadic.rounds_zero hzero, 0, 0, by decide, by simp⟩
  · rename_i hd
    obtain ⟨hlow, hhigh⟩ := Interval.low_lt_value hd
    obtain ⟨found, hfound, hholds, hdigits⟩ := Interval.findSome?_nearest? tie
      (Interval.denominator_ofDyadic_pos _ _) hlow hhigh (Interval.wide_ofDyadic hd hnormal)
    rw [hfound, Option.getD_some, trimmed_value]
    exact ⟨hholds.rounds hd, hdigits⟩

end Decimal

/-- A real is written as a number of seventeen digits that rounds to it. -/
theorem Number.printed_real {x : Float} (h : x.isFinite = true) :
    RoundsTo (Number.real x).printed x ∧ Decimal.HasDigits 17 (Number.real x).printed := by
  obtain ⟨hrounds, hdigits⟩ := Decimal.shortest_spec .toEven x
  have hprinted : (Number.real x).printed =
      signed (Binary64.Dyadic.ofFloat x).negative (Decimal.shortest .toEven x).value := rfl
  rw [hprinted]
  refine ⟨roundsTo_signed h (Decimal.value_nonneg _) hrounds, ?_⟩
  obtain ⟨m, k, hm, heq⟩ := hdigits
  exact ⟨m, k, hm, by rw [← heq, abs_signed]⟩

end ContextServer
