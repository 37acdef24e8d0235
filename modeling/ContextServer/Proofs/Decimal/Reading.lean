import ContextServer.Proofs.Decimal.Writing

/-!
What float a literal is taken for. Its digits count as far as 64 bits hold them, the rest of the whole part
as places. The number that is kept becomes a float, and a product or a quotient with a power of ten is
rounded once more.
-/

namespace ContextServer

open Json

/-- The longest run of digits that 64 bits hold behind a number. -/
structure LongestRun (n : Nat) (digits run left : List Char) (m : Nat) : Prop where
  split : digits = run ++ left
  number : m = n * 10 ^ run.length + Decimal.ofDigits run
  fits : run ≠ [] → m < 2 ^ 64
  longest : ∀ c more, left = c :: more → 2 ^ 64 ≤ m * 10 + Decimal.ofDigits [c]

/-- A float over `10^k`, by quotients that are rounded one after the other: as long as the quotient is not
zero, `10^308` is divided off until no more than that is left. -/
inductive Quotient : Float → Nat → Float → Prop where
  | last {x : Float} {k : Nat} (near : k ≤ 308) : Quotient x k (x / Float.ofScientific 1 false k)
  | zero {x : Float} {k : Nat} (far : 308 < k) (zero : (x == 0) = true) : Quotient x k x
  | step {x y : Float} {k : Nat} (far : 308 < k) (more : (x == 0) = false)
    (rest : Quotient (x / Float.ofScientific 1 false 308) (k - 308) y) : Quotient x k y

/-- The float that is taken for `m · 10^e`, never an infinite one. -/
inductive Scaled : Nat → Int → Float → Prop where
  | zero {e : Int} : Scaled 0 e 0
  | product {m k : Nat} (pos : 0 < m) (near : k ≤ 308)
    (finite : (Float.ofNat m * Float.ofScientific 1 false k).isFinite = true) :
    Scaled m k (Float.ofNat m * Float.ofScientific 1 false k)
  | quotient {m k : Nat} {x : Float} (pos : 0 < m) (below : 0 < k)
    (quotient : Quotient (Float.ofNat m) k x) (finite : x.isFinite = true) : Scaled m (-k) x

/-- The float that a literal is taken for, its sign apart. -/
def Json.Numeral.TakenFor (n : Numeral) (x : Float) : Prop :=
  ∃ run left kept run' left' kept', LongestRun 0 n.whole run left kept ∧
    LongestRun kept (n.fraction.getD []) run' left' kept' ∧
    Scaled kept' (n.exponent.getD 0 + left.length - run'.length) x

theorem Scaled.isFinite {m : Nat} {e : Int} {x : Float} (h : Scaled m e x) : x.isFinite = true := by
  cases h with
  | zero => decide +kernel
  | product _ _ finite => exact finite
  | quotient _ _ _ finite => exact finite

theorem Json.Numeral.TakenFor.isFinite {n : Numeral} {x : Float} (h : n.TakenFor x) :
    x.isFinite = true := by
  obtain ⟨_, _, _, _, _, _, -, -, hscaled⟩ := h
  exact hscaled.isFinite

namespace Decimal

theorem ofDigits_singleton (c : Char) : ofDigits [c] = c.toNat - '0'.toNat := Nat.zero_add _

theorem longestRun_extend (n : Nat) (digits : List Char) :
    ∃ run, LongestRun n digits run (extend n digits).2 (extend n digits).1 := by
  induction digits generalizing n with
  | nil => exact ⟨[], rfl, by simp [extend, ofDigits], nofun, nofun⟩
  | cons c cs ih =>
    have hmax : Range64.maxUnsigned = 2 ^ 64 - 1 := rfl
    rw [extend]
    split
    · rename_i hfits
      obtain ⟨run, hrun⟩ := ih (10 * n + (c.toNat - '0'.toNat))
      refine ⟨c :: run, ?_, ?_, fun _ => ?_, hrun.longest⟩
      · rw [List.cons_append, ← hrun.split]
      · have happend := ofDigits_append [c] run
        rw [List.singleton_append, ofDigits_singleton] at happend
        rw [hrun.number, happend, List.length_cons, pow_succ]
        ring
      · by_cases hnil : run = []
        · rw [hrun.number, hnil]
          simp only [List.length_nil, pow_zero, Nat.mul_one, ofDigits, List.foldl_nil]
          omega
        · exact hrun.fits hnil
    · rename_i hover
      refine ⟨[], rfl, by simp [ofDigits], nofun, fun d more heq => ?_⟩
      cases heq
      rw [ofDigits_singleton]
      omega

theorem quotient_scaledDown (x : Float) (k : Nat) : Quotient x k (scaledDown x k) := by
  fun_induction scaledDown x k with
  | case1 x k near => exact .last near
  | case2 x k far zero => exact .zero (Nat.lt_of_not_le far) zero
  | case3 x k far more ih => exact .step (Nat.lt_of_not_le far) (Bool.eq_false_iff.mpr more) ih

theorem scaled_toFloat? {d : Decimal} {x : Float} (h : d.toFloat? = some x) :
    Scaled d.significand d.exponent x := by
  obtain ⟨m, e⟩ := d
  unfold toFloat? at h
  dsimp only at h ⊢
  split at h
  · rename_i hzero
    obtain rfl := Option.some.inj h
    rw [hzero]
    exact .zero
  · rename_i hm
    have hpos := Nat.pos_of_ne_zero hm
    split at h
    · cases h
    · by_cases hneg : e < 0
      · have he : e = -(e.natAbs : Int) := by omega
        rw [if_pos hneg] at h
        split at h
        · rename_i hfinite
          obtain rfl := Option.some.inj h
          rw [he, Int.natAbs_neg, Int.natAbs_natCast]
          exact .quotient hpos (by omega) (quotient_scaledDown _ _) hfinite
        · cases h
      · have he : e = (e.toNat : Int) := by omega
        rw [if_neg hneg] at h
        split at h
        · rename_i hfinite
          obtain rfl := Option.some.inj h
          rw [he, Int.toNat_natCast]
          exact .product hpos (by omega) hfinite
        · cases h

end Decimal

/-- A literal that 64 bits do not hold is kept as the float that it is taken for. -/
theorem Json.Numeral.takenFor_of_number? {n : Numeral} {number : Number} (hfits : ¬n.Fits)
    (h : n.number? = some number) :
    ∃ x, n.TakenFor x ∧ number = .real (if n.negative then -x else x) := by
  rw [n.number?_of_not_fits hfits] at h
  obtain ⟨x, hx, rfl⟩ := Option.map_eq_some_iff.mp h
  obtain ⟨run, hrun⟩ := Decimal.longestRun_extend 0 n.whole
  obtain ⟨run', hrun'⟩ := Decimal.longestRun_extend (Decimal.extend 0 n.whole).1 (n.fraction.getD [])
  refine ⟨x, ⟨run, _, _, run', _, _, hrun, hrun', ?_⟩, rfl⟩
  have hscaled := Decimal.scaled_toFloat? hx
  have hlength : ((n.fraction.getD []).length - (Decimal.extend (Decimal.extend 0 n.whole).1
      (n.fraction.getD [])).2.length : Nat) = run'.length := by
    have hsplit := congrArg List.length hrun'.split
    rw [List.length_append] at hsplit
    omega
  rw [← hlength]
  exact hscaled

end ContextServer
