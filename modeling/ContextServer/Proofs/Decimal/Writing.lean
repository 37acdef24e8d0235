import ContextServer.Proofs.Json.Numerals

/-!
What a written number stands for. A whole number is written by its digits; a real is written by its
shortest decimal, and each form of the layout spells just that decimal.
-/

namespace ContextServer

open Binary64

/-- The number that the text of a number stands for: of a real, its shortest decimal. -/
def Number.printed : Number → ℚ
  | .whole i => i
  | .real x =>
    if (Dyadic.ofFloat x).negative then -(Decimal.shortest .toEven x).value
    else (Decimal.shortest .toEven x).value

namespace Decimal

/-! ### Digits -/

theorem foldl_digits (n : Nat) (digits : List Char) :
    digits.foldl (fun n c => 10 * n + (c.toNat - '0'.toNat)) n =
      n * 10 ^ digits.length + ofDigits digits := by
  induction digits generalizing n with
  | nil => simp [ofDigits]
  | cons c cs ih =>
    have hcons : ofDigits (c :: cs) = (c.toNat - '0'.toNat) * 10 ^ cs.length + ofDigits cs := by
      rw [ofDigits, List.foldl_cons, ih, Nat.mul_zero, Nat.zero_add]
    rw [List.foldl_cons, ih, hcons, List.length_cons]
    ring

theorem ofDigits_append (xs ys : List Char) :
    ofDigits (xs ++ ys) = ofDigits xs * 10 ^ ys.length + ofDigits ys := by
  rw [ofDigits, List.foldl_append, foldl_digits]
  rfl

theorem ofDigits_zeros (k : Nat) : ofDigits (List.replicate k '0') = 0 := by
  induction k with
  | zero => rfl
  | succ k ih =>
    rw [List.replicate_succ', ofDigits_append, ih]
    rfl

/-! ### The shortest decimal -/

theorem low_ofDyadic_pos {m : Nat} (hm : m ≠ 0) (q : Int) : 0 < (Interval.ofDyadic m q).low := by
  unfold Interval.ofDyadic
  dsimp only
  apply Nat.mul_pos
  · split <;> omega
  · simp [Nat.one_shiftLeft]

/-- Zero lies in no interval of another float. -/
theorem nearest?_ne_zero {i : Interval} (hlow : 0 < i.low) {tie : Tie} {k : Int} {d : Decimal}
    (h : i.nearest? tie k = some d) : d.significand ≠ 0 := by
  have hunits : 0 < (i.inUnits k).low := Nat.mul_pos hlow (Nat.pow_pos (by decide))
  have hzero : (i.inUnits k).holds 0 = false := by
    simp [Interval.holds, Nat.not_le.mpr hunits]
  unfold Interval.nearest? at h
  dsimp only at h
  split at h
  · cases h
    exact Nat.succ_ne_zero _
  · split at h
    · rename_i hdown
      cases h
      intro hd
      dsimp only at hd
      rw [hd, Nat.zero_mul, hzero] at hdown
      cases hdown
    · cases h

theorem trimmed_ne_zero {fuel : Nat} {d : Decimal} (h : d.significand ≠ 0) :
    (trimmed fuel d).significand ≠ 0 := by
  induction fuel generalizing d with
  | zero => exact h
  | succ fuel ih =>
    rw [trimmed]
    split
    · exact ih (by dsimp only; omega)
    · exact h

theorem trimmed_zero (fuel : Nat) : trimmed fuel ⟨0, 0⟩ = ⟨0, 0⟩ := by
  cases fuel with
  | zero => rfl
  | succ fuel => rw [trimmed, if_neg (by simp)]

/-- The shortest decimal is not zero, or it is zero without an exponent. -/
theorem shortest_significand (tie : Tie) (x : Float) :
    (shortest tie x).significand ≠ 0 ∨ shortest tie x = ⟨0, 0⟩ := by
  unfold shortest
  dsimp only
  split
  · exact .inr rfl
  · rename_i hm
    cases hfound : (List.range 17).findSome? fun (n : Nat) =>
        (Interval.ofDyadic (Dyadic.ofFloat x).significand (Dyadic.ofFloat x).exponent).nearest? tie
          ((Interval.ofDyadic (Dyadic.ofFloat x).significand
            (Dyadic.ofFloat x).exponent).leading - n) with
    | none => exact .inr (trimmed_zero 20)
    | some d =>
      obtain ⟨n, -, hd⟩ := List.exists_of_findSome?_eq_some hfound
      exact .inl (trimmed_ne_zero (nearest?_ne_zero (low_ofDyadic_pos hm _) hd))

/-! ### Layouts -/

open Json

/-- The text spells the decimal, without a sign. -/
def Spelled (text : List Char) (d : Decimal) : Prop :=
  ∃ whole fraction exponent f e, text = whole ++ (fraction ++ exponent) ∧ WholeText whole ∧
    FractionText f fraction ∧ ExponentText e exponent ∧
      ∀ negative, (Numeral.mk negative whole f e).decimal.value = d.value

theorem wholeText_toDigits (m : Nat) : WholeText (Nat.toDigits 10 m) :=
  fun _ hr => readWhole_toDigits m hr

theorem isDigit_zeros (k : Nat) : ∀ c ∈ List.replicate k '0', c.isDigit = true := by
  intro c hc
  rw [List.eq_of_mem_replicate hc]
  rfl

theorem isDigit_append {xs ys : List Char} (hx : ∀ c ∈ xs, c.isDigit = true)
    (hy : ∀ c ∈ ys, c.isDigit = true) : ∀ c ∈ xs ++ ys, c.isDigit = true := by
  intro c hc
  rcases List.mem_append.mp hc with h | h
  · exact hx c h
  · exact hy c h

theorem spelled_below (m k : Nat) :
    Spelled ('0' :: '.' :: (List.replicate k '0' ++ Nat.toDigits 10 m))
      ⟨m, -((k + (Nat.toDigits 10 m).length : Nat) : Int)⟩ := by
  have hall := isDigit_append (isDigit_zeros k) (isDigit_toDigits m)
  have hne : List.replicate k '0' ++ Nat.toDigits 10 m ≠ [] := by simp [Nat.toDigits_ne_nil]
  refine ⟨['0'], _, [], _, _, by simp, .zero, .some hne hall, .none, fun negative => ?_⟩
  have hdigits : ofDigits (['0'] ++ (List.replicate k '0' ++ Nat.toDigits 10 m)) = m := by
    rw [ofDigits_append, ofDigits_append, ofDigits_zeros, ofDigits_toDigits]
    simp [ofDigits]
  simp only [Numeral.decimal, Option.getD_some, Option.getD_none, hdigits, List.length_append,
    List.length_replicate, zero_sub]

theorem spelled_whole {m k : Nat} (h : m ≠ 0 ∨ k = 0) :
    Spelled (Nat.toDigits 10 m ++ List.replicate k '0' ++ ['.', '0']) ⟨m, k⟩ := by
  have hwhole : WholeText (Nat.toDigits 10 m ++ List.replicate k '0') := by
    rcases Nat.eq_zero_or_pos m with hm | hm
    · have hk : k = 0 := h.resolve_left (not_not_intro hm)
      rw [hk, List.replicate_zero, List.append_nil]
      exact wholeText_toDigits m
    · obtain ⟨c, cs, hdigits, hc⟩ := toDigits_head hm
      have hall := isDigit_append (isDigit_toDigits m) (isDigit_zeros k)
      rw [hdigits, List.cons_append] at hall ⊢
      exact .digits hc hall
  refine ⟨_, _, [], _, _, by rw [List.append_nil], hwhole,
    .some (List.cons_ne_nil '0' []) (isDigit_zeros 1), .none, fun negative => ?_⟩
  have hdigits : ofDigits (Nat.toDigits 10 m ++ List.replicate k '0' ++ ['0']) = m * 10 ^ k * 10 := by
    rw [ofDigits_append, ofDigits_append, ofDigits_zeros, ofDigits_toDigits, List.length_replicate]
    simp [ofDigits]
  simp only [Numeral.decimal, Decimal.value, Option.getD_some, Option.getD_none, hdigits,
    List.length_singleton, Nat.cast_mul, Nat.cast_pow, Nat.cast_ofNat, Nat.cast_one, zero_sub,
    zpow_neg_one, zpow_natCast]
  field_simp

theorem spelled_parted {m w : Nat} (hw : 0 < w) (hlen : w < (Nat.toDigits 10 m).length) :
    Spelled ((Nat.toDigits 10 m).take w ++ '.' :: (Nat.toDigits 10 m).drop w)
      ⟨m, -(((Nat.toDigits 10 m).length - w : Nat) : Int)⟩ := by
  have hm : 0 < m := by
    rcases Nat.eq_zero_or_pos m with rfl | hm
    · exact absurd hlen (by simp; omega)
    · exact hm
  have hall := isDigit_toDigits m
  have hwhole : WholeText ((Nat.toDigits 10 m).take w) := by
    obtain ⟨c, cs, hdigits, hc⟩ := toDigits_head hm
    obtain ⟨w, rfl⟩ : ∃ n, w = n + 1 := ⟨w - 1, by omega⟩
    have htake : (Nat.toDigits 10 m).take (w + 1) = c :: cs.take w := by
      rw [hdigits, List.take_succ_cons]
    rw [htake]
    exact .digits hc fun d hd => hall d (List.mem_of_mem_take (htake ▸ hd))
  have hne : (Nat.toDigits 10 m).drop w ≠ [] := by
    rw [Ne, List.drop_eq_nil_iff]
    omega
  refine ⟨_, _, [], _, _, by rw [List.append_nil], hwhole,
    .some hne fun c hc => hall c (List.mem_of_mem_drop hc), .none, fun negative => ?_⟩
  simp only [Numeral.decimal, Option.getD_some, Option.getD_none, List.take_append_drop,
    ofDigits_toDigits, List.length_drop, zero_sub]

theorem exponentText_toDigits (leading : Int) :
    ExponentText (some leading)
      ('e' :: (if leading < 0 then '-' else '+') :: Nat.toDigits 10 leading.natAbs) := by
  have hall := isDigit_toDigits leading.natAbs
  rcases Int.lt_or_le leading 0 with h | h
  · have htext := ExponentText.some (.inl rfl) (.inr (.inr rfl)) Nat.toDigits_ne_nil hall
    have hvalue : -(leading.natAbs : Int) = leading := by omega
    rw [if_pos rfl, ofDigits_toDigits, hvalue] at htext
    rw [if_pos h]
    exact htext
  · have htext := ExponentText.some (.inl rfl) (.inr (.inl rfl)) Nat.toDigits_ne_nil hall
    have hvalue : (leading.natAbs : Int) = leading := by omega
    rw [if_neg (by decide), ofDigits_toDigits, hvalue] at htext
    rw [if_neg (by omega)]
    exact htext

theorem spelled_scientific {m : Nat} (hm : m ≠ 0) (leading : Int) :
    Spelled (Layout.writeScientific (Nat.toDigits 10 m) leading)
      ⟨m, leading - (((Nat.toDigits 10 m).length - 1 : Nat) : Int)⟩ := by
  obtain ⟨c, cs, hdigits, hc⟩ := toDigits_head (Nat.pos_of_ne_zero hm)
  have hall := isDigit_toDigits m
  have hvalue := ofDigits_toDigits m
  rw [hdigits] at hall hvalue ⊢
  have hwhole : WholeText [c] := .digits hc (by simpa using hall c List.mem_cons_self)
  cases cs with
  | nil =>
    refine ⟨[c], [], _, _, _, rfl, hwhole, .none, exponentText_toDigits leading, fun negative => ?_⟩
    simp [Numeral.decimal, hvalue]
  | cons d ds =>
    have hfraction : FractionText (some (d :: ds)) ('.' :: d :: ds) :=
      .some (List.cons_ne_nil d ds) fun e he => hall e (List.mem_cons_of_mem c he)
    refine ⟨[c], _, _, _, _, rfl, hwhole, hfraction, exponentText_toDigits leading,
      fun negative => ?_⟩
    simp [Numeral.decimal, hvalue]

/-- Every form of the layout spells its decimal. -/
theorem spelled_write {d : Decimal} (h : d.significand ≠ 0 ∨ d = ⟨0, 0⟩) :
    Spelled (Number.layout.write d) d := by
  obtain ⟨m, e⟩ := d
  have hlen : 0 < (Nat.toDigits 10 m).length := List.length_pos_of_ne_nil Nat.toDigits_ne_nil
  unfold Layout.write
  dsimp only
  split
  · unfold Layout.writePositional
    dsimp only
    split
    · -- below one: a zero, the point, zeros and the digits
      have hspelled := spelled_below m (-(e + (Nat.toDigits 10 m).length - 1) - 1).toNat
      have he : -(((-(e + (Nat.toDigits 10 m).length - 1) - 1).toNat +
          (Nat.toDigits 10 m).length : Nat) : Int) = e := by omega
      rwa [he] at hspelled
    · split
      · -- a whole number: the digits, zeros and `.0`
        have hzeros : m ≠ 0 ∨ (e + (Nat.toDigits 10 m).length - 1).toNat + 1 -
            (Nat.toDigits 10 m).length = 0 := by
          rcases h with hm | hzero
          · exact .inl hm
          · cases hzero
            exact .inr rfl
        have he : (((e + (Nat.toDigits 10 m).length - 1).toNat + 1 -
            (Nat.toDigits 10 m).length : Nat) : Int) = e := by omega
        have hspelled := spelled_whole hzeros
        rwa [he] at hspelled
      · -- digits on both sides of the point
        rename_i hlong
        have he : -(((Nat.toDigits 10 m).length -
            ((e + (Nat.toDigits 10 m).length - 1).toNat + 1) : Nat) : Int) = e := by omega
        have hspelled := spelled_parted (Nat.succ_pos _) (Nat.lt_of_not_le hlong)
        rwa [he] at hspelled
  · rename_i hscientific
    have hm : m ≠ 0 := by
      rcases h with hm | hzero
      · exact hm
      · cases hzero
        exact absurd rfl hscientific
    have hspelled := spelled_scientific hm (e + (Nat.toDigits 10 m).length - 1)
    have he : e + ((Nat.toDigits 10 m).length : Int) - 1 -
        (((Nat.toDigits 10 m).length - 1 : Nat) : Int) = e := by omega
    rwa [he] at hspelled

/-- A text that spells a decimal is, after its sign, a literal of the decimal's value. -/
theorem Spelled.numeral {text : List Char} {d : Decimal} (h : Spelled text d) (negative : Bool) :
    ∃ n, NumeralText n ((if negative then ['-'] else []) ++ text) ∧
      n.value = if negative then -d.value else d.value := by
  obtain ⟨whole, fraction, exponent, f, e, rfl, hw, hf, he, hvalue⟩ := h
  refine ⟨_, numeralText hw hf he negative, ?_⟩
  rw [Numeral.value, hvalue]

end Decimal

/-! ### Numbers -/

open Json

theorem numeralText_writeInt (i : Int) :
    ∃ n, NumeralText n (Number.writeInt i) ∧ n.value = i := by
  have hspelled (m : Nat) : Decimal.Spelled (Nat.toDigits 10 m) ⟨m, 0⟩ := by
    refine ⟨_, [], [], _, _, by simp, Decimal.wholeText_toDigits m, .none, .none, fun negative => ?_⟩
    simp [Numeral.decimal, Decimal.ofDigits_toDigits]
  cases i with
  | ofNat m =>
    obtain ⟨n, htext, hvalue⟩ := (hspelled m).numeral false
    exact ⟨n, htext, by simpa [Decimal.value] using hvalue⟩
  | negSucc m =>
    obtain ⟨n, htext, hvalue⟩ := (hspelled (m + 1)).numeral true
    refine ⟨n, htext, ?_⟩
    rw [hvalue, if_pos rfl, Int.cast_negSucc]
    simp [Decimal.value]

/-- The text of a number is a literal of the number that it stands for. -/
theorem numeralText_write (number : Number) :
    ∃ n, NumeralText n number.write ∧ n.value = number.printed := by
  cases number with
  | whole i => exact numeralText_writeInt i
  | real x =>
    have hspelled := Decimal.spelled_write (Decimal.shortest_significand .toEven x)
    obtain ⟨n, htext, hvalue⟩ := hspelled.numeral (Dyadic.ofFloat x).negative
    refine ⟨n, ?_, hvalue⟩
    have hwrite : (Number.real x).write = (if (Dyadic.ofFloat x).negative then ['-'] else []) ++
        Number.layout.write (Decimal.shortest .toEven x) := by
      rw [Number.write, Decimal.Layout.writeFloat]
      cases (Dyadic.ofFloat x).negative <;> rfl
    rw [hwrite]
    exact htext

end ContextServer
