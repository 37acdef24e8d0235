import Mathlib
import ContextServer.Binary64

/-!
Which numbers round to a float. A finite float is `±m · 2^e` with `m` below `2^53`. Its neighbours lie one
last place away, or half of one below a power of two, and whatever is no further than halfway to them
rounds to it.
-/

namespace ContextServer.Binary64

open Float.Model Float.Model.UnpackedFloat

def signed (negative : Bool) (q : ℚ) : ℚ := if negative then -q else q

/-- The exact number of a finite float; one that is not finite counts as zero. -/
def value (x : Float) : ℚ :=
  match x.toModel.unpack with
  | .finite sign m e _ => signed (sign == .negative) (m * 2 ^ e)
  | _ => 0

/-- A number rounds to a float: no float is nearer, and where another one is as near this one ends in an
even bit. What is half a last place past the largest float rounds to none. -/
structure RoundsTo (q : ℚ) (x : Float) : Prop where
  finite : x.isFinite = true
  inRange : |q| < 2 ^ 1024 - 2 ^ 970
  nearest : ∀ y : Float, y.isFinite = true → |q - value x| ≤ |q - value y|
  even : ∀ y : Float, y.isFinite = true → value y ≠ value x → |q - value y| = |q - value x| →
    x.toBits.toNat % 2 = 0

/-! ### Fields of a float -/

theorem toNat_unpackMantissa (x : Float) :
    (@unpackMantissa .binary64 x.toModel.toBits.toBitVec).toNat = x.toBits.toNat % leadingBit := by
  simp [unpackMantissa, Float.toBits, leadingBit]

theorem toNat_unpackExponent (x : Float) :
    (@unpackExponent .binary64 x.toModel.toBits.toBitVec).toNat = (x.toBits.toNat >>> 52) % 2048 := by
  simp [unpackExponent, Float.toBits]

theorem toNat_unpackSign (x : Float) :
    (@unpackSign .binary64 x.toModel.toBits.toBitVec).toNat = x.toBits.toNat >>> 63 := by
  have hlt := x.toModel.toBits.toNat_lt
  simp [unpackSign, Float.toBits]
  omega

theorem ofBitVec_beq_negative (v : BitVec 1) :
    (Sign.ofBitVec v == .negative) = (v.toNat == 1) := by
  revert v
  decide

theorem toNat_one_append (v : BitVec 52) : (1#1 ++ v).toNat = leadingBit + v.toNat := by
  rw [BitVec.toNat_append, ← Nat.shiftLeft_add_eq_or_of_lt v.isLt]
  rfl

namespace Dyadic

/-- The number without its sign. -/
def magnitude (d : Dyadic) : ℚ := d.significand * 2 ^ d.exponent

/-- The significand is full, or the exponent is the least one. -/
structure Normal (d : Dyadic) : Prop where
  below : d.significand < 2 ^ 53
  least : -1074 ≤ d.exponent
  full : 2 ^ 52 ≤ d.significand ∨ d.exponent = -1074

theorem normal_ofFloat (x : Float) : (ofFloat x).Normal := by
  have hfraction : x.toBits.toNat % leadingBit < 2 ^ 52 := Nat.mod_lt _ (by decide)
  unfold ofFloat
  dsimp only
  split
  · exact ⟨by dsimp only; omega, le_rfl, .inr rfl⟩
  · rename_i hfield
    refine ⟨?_, by dsimp only; omega, .inl (Nat.le_add_right _ _)⟩
    have hbit : leadingBit = 2 ^ 52 := rfl
    dsimp only
    omega

theorem significand_ofFloat_mod_two (x : Float) :
    (ofFloat x).significand % 2 = x.toBits.toNat % 2 := by
  have hbit : leadingBit = 2 ^ 52 := rfl
  unfold ofFloat
  dsimp only
  rw [hbit]
  split
  · exact Nat.mod_mod_of_dvd _ (by decide)
  · dsimp only
    omega

end Dyadic

theorem value_eq {x : Float} (h : x.isFinite = true) :
    value x = signed (Dyadic.ofFloat x).negative (Dyadic.ofFloat x).magnitude := by
  have hfinite : x.toModel.unpack.isFinite = true := h
  unfold value Dyadic.ofFloat
  unfold Float.Model.unpack UnpackedFloat.unpack at hfinite ⊢
  dsimp only at hfinite ⊢
  rw [← toNat_unpackMantissa x, ← toNat_unpackExponent x, ← toNat_unpackSign x]
  by_cases hones : @unpackExponent .binary64 x.toModel.toBits.toBitVec = -1#11
  · rw [if_pos hones] at hfinite
    split at hfinite <;> cases hfinite
  · rw [if_neg hones]
    by_cases hzeros : @unpackExponent .binary64 x.toModel.toBits.toBitVec = 0#11
    · rw [if_pos hzeros, hzeros]
      by_cases hnone : @unpackMantissa .binary64 x.toModel.toBits.toBitVec = 0#52
      · rw [dif_pos hnone, hnone]
        simp [Dyadic.magnitude, signed]
      · rw [dif_neg hnone]
        simp [Dyadic.magnitude, ofBitVec_beq_negative, Format.exponentBias]
    · have hfield : (@unpackExponent .binary64 x.toModel.toBits.toBitVec).toNat ≠ 0 :=
        fun hzero => hzeros (BitVec.eq_of_toNat_eq hzero)
      rw [if_neg hzeros, if_neg hfield]
      simp [Dyadic.magnitude, ofBitVec_beq_negative, Format.exponentBias, toNat_one_append]

theorem isFinite_unpack_iff {format : Format} (bits : BitVec format.numBits) :
    (UnpackedFloat.unpack format bits).isFinite = true ↔ unpackExponent bits ≠ -1#_ := by
  unfold UnpackedFloat.unpack
  dsimp only
  split
  · rename_i h
    simp only [h, ne_eq, not_true, iff_false]
    split <;> exact nofun
  · rename_i h
    simp only [ne_eq, h, not_false_iff, iff_true]
    split
    · split <;> rfl
    · rfl

theorem unpackExponent_pack_neg (format : Format) {u : UnpackedFloat} (h : u.isFinite = true) :
    unpackExponent (UnpackedFloat.pack format u.neg) =
      unpackExponent (UnpackedFloat.pack format u) := by
  cases u with
  | notANumber | infinity => cases h
  | zero => simp [UnpackedFloat.neg, UnpackedFloat.pack, packedZero]
  | finite =>
    simp only [UnpackedFloat.neg, UnpackedFloat.pack]
    split
    · simp [packedInfinity]
    · split <;> simp

theorem isFinite_neg {x : Float} (h : x.isFinite = true) : (-x).isFinite = true := by
  have hfinite : x.toModel.unpack.isFinite = true := h
  have hexponent := (isFinite_unpack_iff _).mp hfinite
  have hnumber : ¬@isNaNBits .binary64 x.toModel.toBits.toBitVec = true :=
    fun hnan => hexponent (of_decide_eq_true hnan).1
  refine (isFinite_unpack_iff (UnpackedFloat.pack .binary64 _)).mpr ?_
  rw [unpackExponent_pack_neg _ hfinite, Float.Model.unpack, UnpackedFloat.pack_unpack,
    if_neg hnumber]
  exact hexponent

theorem Dyadic.exponent_ofFloat_le {x : Float} (h : x.isFinite = true) :
    (ofFloat x).exponent ≤ 971 := by
  have hfinite : x.toModel.unpack.isFinite = true := h
  have hfield : (x.toBits.toNat >>> 52) % 2048 ≠ 2047 := by
    intro hones
    refine (isFinite_unpack_iff _).mp hfinite (BitVec.eq_of_toNat_eq ?_)
    exact (toNat_unpackExponent x).trans hones
  unfold ofFloat
  dsimp only
  split <;> dsimp only <;> omega

/-! ### Neighbours -/

/-- The nearer of two numbers is the one on the same side of their middle. -/
theorem abs_sub_le_of_side {q a b : ℚ} (h : 0 ≤ (a - b) * (2 * q - a - b)) : |q - a| ≤ |q - b| := by
  have hsquares : (q - b) ^ 2 - (q - a) ^ 2 = (a - b) * (2 * q - a - b) := by ring
  rw [← sq_le_sq]
  linarith

theorem middle_of_abs_eq {q a b : ℚ} (hne : b ≠ a) (h : |q - b| = |q - a|) : 2 * q = a + b := by
  rcases abs_eq_abs.mp h with hsame | hopposite
  · exact absurd (by linarith) hne
  · linarith

namespace Dyadic

theorem unit_pos (d : Dyadic) : (0 : ℚ) < 2 ^ d.exponent := zpow_pos (by norm_num) _

theorem magnitude_nonneg (d : Dyadic) : 0 ≤ d.magnitude :=
  mul_nonneg (Nat.cast_nonneg _) d.unit_pos.le

/-- The distance to the next smaller float. -/
def gapBelow (d : Dyadic) : ℚ :=
  if d.significand = 2 ^ 52 ∧ -1074 < d.exponent then 2 ^ d.exponent / 2 else 2 ^ d.exponent

theorem gapBelow_le (d : Dyadic) : d.gapBelow ≤ 2 ^ d.exponent := by
  have hpos := d.unit_pos
  unfold gapBelow
  split <;> linarith

theorem gapBelow_pos (d : Dyadic) : 0 < d.gapBelow := by
  have hpos := d.unit_pos
  unfold gapBelow
  split <;> linarith

/-- No float lies between a float and its neighbours. -/
theorem Normal.apart {d e : Dyadic} (hd : d.Normal) (he : e.Normal) (hne : e.magnitude ≠ d.magnitude) :
    e.magnitude + d.gapBelow ≤ d.magnitude ∨ d.magnitude + 2 ^ d.exponent ≤ e.magnitude := by
  have hpos := d.unit_pos
  rcases le_or_gt d.exponent e.exponent with hle | hlt
  · -- the other one is a multiple of the last place
    obtain ⟨k, hk⟩ := Int.le.dest hle
    have hmultiple : e.magnitude = ((e.significand * 2 ^ k : Nat) : ℚ) * 2 ^ d.exponent := by
      rw [magnitude, ← hk, zpow_add₀ (by norm_num), zpow_natCast]
      push_cast
      ring
    rw [hmultiple] at hne ⊢
    have hgap := d.gapBelow_le
    unfold magnitude at hne ⊢
    rcases Nat.lt_trichotomy (e.significand * 2 ^ k) d.significand with h | h | h
    · have hcast : ((e.significand * 2 ^ k : Nat) : ℚ) + 1 ≤ d.significand := by exact_mod_cast h
      left
      nlinarith
    · exact absurd (by rw [h]) hne
    · have hcast : (d.significand : ℚ) + 1 ≤ ((e.significand * 2 ^ k : Nat) : ℚ) := by exact_mod_cast h
      right
      nlinarith
  · -- the other one is below every full significand of this exponent
    left
    have hfull := hd.full.resolve_right (by have := he.least; omega)
    have hunit : (2 : ℚ) ^ e.exponent ≤ 2 ^ d.exponent / 2 := by
      rw [div_eq_mul_inv, ← zpow_sub_one₀ (by norm_num)]
      exact zpow_le_zpow_right₀ (by norm_num) (by omega)
    have hbelow : (e.significand : ℚ) ≤ 2 ^ 53 - 1 := by
      have := he.below
      have hcast : (e.significand : ℚ) + 1 ≤ 2 ^ 53 := by exact_mod_cast this
      linarith
    have hmost : e.magnitude ≤ (2 ^ 53 - 1) * (2 ^ d.exponent / 2) :=
      mul_le_mul hbelow hunit e.unit_pos.le (by norm_num)
    unfold gapBelow
    split
    · rename_i hpower
      have heq : d.magnitude = 2 ^ 52 * 2 ^ d.exponent := by
        rw [magnitude, hpower.1]
        norm_num
      linarith
    · rename_i hpower
      have hmore : 2 ^ 52 + 1 ≤ d.significand := by
        have := he.least
        omega
      have hcast : (2 ^ 52 + 1 : ℚ) ≤ d.significand := by exact_mod_cast hmore
      have hleast : (2 ^ 52 + 1) * 2 ^ d.exponent ≤ d.magnitude :=
        mul_le_mul_of_nonneg_right hcast hpos.le
      linarith

/-- A number lies no further than halfway to the neighbours, and at the middle only by an even
significand. -/
structure Rounds (d : Dyadic) (q : ℚ) : Prop where
  low : d.magnitude - d.gapBelow / 2 ≤ q
  high : q ≤ d.magnitude + 2 ^ d.exponent / 2
  inside : d.significand % 2 = 0 ∨
    d.magnitude - d.gapBelow / 2 < q ∧ q < d.magnitude + 2 ^ d.exponent / 2

/-- Half a last place past the greatest significand is too far. -/
theorem Rounds.lt {d : Dyadic} {q : ℚ} (h : d.Rounds q) (hd : d.Normal) :
    q < (2 ^ 53 - 1 / 2) * 2 ^ d.exponent := by
  have hpos := d.unit_pos
  have hhigh := h.high
  rcases h.inside with heven | ⟨-, hstrict⟩
  · have hbelow : d.significand + 2 ≤ 2 ^ 53 := by
      have := hd.below
      omega
    have hcast : (d.significand : ℚ) + 2 ≤ 2 ^ 53 := by exact_mod_cast hbelow
    rw [magnitude] at hhigh
    nlinarith
  · have hcast : (d.significand : ℚ) + 1 ≤ 2 ^ 53 := by exact_mod_cast hd.below
    rw [magnitude] at hstrict
    nlinarith

theorem Rounds.inRange {x : Float} {q : ℚ} (h : (ofFloat x).Rounds q) (hx : x.isFinite = true) :
    q < 2 ^ 1024 - 2 ^ 970 := by
  have hunit : (2 : ℚ) ^ (ofFloat x).exponent ≤ 2 ^ (971 : Int) :=
    zpow_le_zpow_right₀ (by norm_num) (exponent_ofFloat_le hx)
  have hfirst : (2 : ℚ) ^ 1024 = 2 ^ 54 * 2 ^ 970 := pow_add 2 54 970
  have hlast : (2 : ℚ) ^ (971 : Int) = 2 * 2 ^ 970 := (zpow_natCast 2 971).trans (pow_succ' 2 970)
  calc q < (2 ^ 53 - 1 / 2) * 2 ^ (ofFloat x).exponent := h.lt (normal_ofFloat x)
    _ ≤ (2 ^ 53 - 1 / 2) * 2 ^ (971 : Int) := mul_le_mul_of_nonneg_left hunit (by norm_num)
    _ = 2 ^ 1024 - 2 ^ 970 := by
      rw [hfirst, hlast]
      generalize (2 : ℚ) ^ 970 = place
      ring

theorem Rounds.nearest {d e : Dyadic} {q : ℚ} (h : d.Rounds q) (hd : d.Normal) (he : e.Normal) :
    |q - d.magnitude| ≤ |q - e.magnitude| ∧
      (e.magnitude ≠ d.magnitude → |q - e.magnitude| = |q - d.magnitude| → d.significand % 2 = 0) := by
  by_cases hne : e.magnitude = d.magnitude
  · exact ⟨by rw [hne], fun h => absurd hne h⟩
  have hlow := h.low
  have hhigh := h.high
  have hgap := d.gapBelow_pos
  have hpos := d.unit_pos
  have hapart := hd.apart he hne
  refine ⟨abs_sub_le_of_side ?_, fun _ htie => ?_⟩
  · rcases hapart with hbelow | habove
    · exact mul_nonneg (by linarith) (by linarith)
    · exact mul_nonneg_of_nonpos_of_nonpos (by linarith) (by linarith)
  · have hmiddle := middle_of_abs_eq hne htie
    refine h.inside.resolve_right fun ⟨hstrict, hstrict'⟩ => ?_
    rcases hapart with hbelow | habove <;> linarith

theorem rounds_zero {d : Dyadic} (h : d.significand = 0) : d.Rounds 0 := by
  have hmagnitude : d.magnitude = 0 := by rw [magnitude, h, Nat.cast_zero, zero_mul]
  have hgap := d.gapBelow_pos
  have hpos := d.unit_pos
  refine ⟨?_, ?_, .inl (by rw [h])⟩ <;> rw [hmagnitude] <;> linarith

/-- Zero rounds to nothing but zero. -/
theorem Rounds.magnitude_eq_zero {d : Dyadic} (h : d.Rounds 0) : d.magnitude = 0 := by
  have hlow := h.low
  have hgap := d.gapBelow_le
  have hpos := d.unit_pos
  rcases Nat.eq_zero_or_pos d.significand with hzero | hone
  · rw [magnitude, hzero, Nat.cast_zero, zero_mul]
  · have hcast : (1 : ℚ) ≤ d.significand := by exact_mod_cast hone
    have hleast : 1 * 2 ^ d.exponent ≤ d.magnitude := mul_le_mul_of_nonneg_right hcast hpos.le
    linarith

end Dyadic

/-! ### Signs -/

theorem abs_signed (negative : Bool) (q : ℚ) : |signed negative q| = |q| := by
  cases negative with
  | false => rfl
  | true => exact abs_neg q

theorem abs_signed_sub_signed (negative : Bool) (a b : ℚ) :
    |signed negative a - signed negative b| = |a - b| := by
  cases negative with
  | false => rfl
  | true =>
    have hneg : signed true a - signed true b = -(a - b) := by
      simp only [signed, if_true]
      ring
    rw [hneg, abs_neg]

theorem abs_signed_sub_of_ne {negative other : Bool} (h : negative ≠ other) {a b : ℚ} (ha : 0 ≤ a)
    (hb : 0 ≤ b) : |signed negative a - signed other b| = a + b := by
  cases negative <;> cases other
  · exact absurd rfl h
  · simp only [signed, Bool.false_eq_true, if_false, if_true, sub_neg_eq_add]
    exact abs_of_nonneg (add_nonneg ha hb)
  · simp only [signed, Bool.false_eq_true, if_false, if_true, ← neg_add', abs_neg]
    exact abs_of_nonneg (add_nonneg ha hb)
  · exact absurd rfl h

/-- Signs only add to the distance of two magnitudes. -/
theorem abs_sub_le_signed (negative other : Bool) {a b : ℚ} (ha : 0 ≤ a) (hb : 0 ≤ b) :
    |a - b| ≤ |signed negative a - signed other b| := by
  by_cases h : negative = other
  · rw [h, abs_signed_sub_signed]
  · rw [abs_signed_sub_of_ne h ha hb, abs_le]
    constructor <;> linarith

/-- What rounds to the magnitude of a float rounds with its sign to the float. -/
theorem roundsTo_signed {x : Float} {q : ℚ} (hx : x.isFinite = true) (hq : 0 ≤ q)
    (h : (Dyadic.ofFloat x).Rounds q) : RoundsTo (signed (Dyadic.ofFloat x).negative q) x := by
  have hnearest (y : Float) := h.nearest (Dyadic.normal_ofFloat x) (Dyadic.normal_ofFloat y)
  have hsigned (y : Float) := abs_sub_le_signed (Dyadic.ofFloat x).negative
    (Dyadic.ofFloat y).negative hq (Dyadic.ofFloat y).magnitude_nonneg
  refine ⟨hx, ?_, fun y hy => ?_, fun y hy hne htie => ?_⟩
  · rw [abs_signed, abs_of_nonneg hq]
    exact h.inRange hx
  · rw [value_eq hx, value_eq hy, abs_signed_sub_signed]
    exact (hnearest y).1.trans (hsigned y)
  · rw [value_eq hx, value_eq hy] at hne htie
    rw [abs_signed_sub_signed] at htie
    rw [← Dyadic.significand_ofFloat_mod_two]
    by_cases heq : (Dyadic.ofFloat y).magnitude = (Dyadic.ofFloat x).magnitude
    · -- the other float is the opposite, so that the number must be zero
      exfalso
      rw [heq] at hne htie
      have hsign : (Dyadic.ofFloat x).negative ≠ (Dyadic.ofFloat y).negative := by
        intro hsame
        exact hne (by rw [hsame])
      have hnonneg := (Dyadic.ofFloat x).magnitude_nonneg
      rw [abs_signed_sub_of_ne hsign hq hnonneg] at htie
      have hzero : (Dyadic.ofFloat x).magnitude = 0 := by
        rcases abs_cases (q - (Dyadic.ofFloat x).magnitude) with ⟨habs, -⟩ | ⟨habs, -⟩
        · linarith
        · obtain rfl : q = 0 := by linarith
          exact h.magnitude_eq_zero
      rw [hzero] at hne
      simp [signed] at hne
    · exact (hnearest y).2 heq (le_antisymm (htie ▸ hsigned y) (hnearest y).1)

end ContextServer.Binary64
