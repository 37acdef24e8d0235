import Mathlib
import ContextServer.Proofs.Json.Canonical
import ContextServer.Proofs.Json.Spelling
import ContextServer.Proofs.Server.Echo

/-!
When numbers and identifiers agree. Agreement is symmetric and transitive, and every value agrees with
itself but the float that is no number. A text yields no such float, so the identifier of a message that
is read off a text agrees with itself.
-/

namespace ContextServer

open Float.Model Float.Model.UnpackedFloat

/-! ### Floats -/

theorem float_eq_nan_iff {x : Float} : x = Float.nan ↔ x.toModel.unpack = .notANumber :=
  calc x = Float.nan
    _ ↔ x.isNaN = true := by simp
    _ ↔ x.toModel.unpack = .notANumber := UnpackedFloat.isNaN_iff

theorem unpack_ne_notANumber {format : Format} {bits : BitVec format.numBits}
    (h : unpackMantissa bits = 0#_ ∨ unpackExponent bits ≠ -1#_) :
    unpack format bits ≠ .notANumber := by
  unfold UnpackedFloat.unpack
  dsimp only
  split
  · rename_i hexponent
    rw [if_pos (h.resolve_right fun hne => hne hexponent)]
    simp
  · split
    · split <;> simp
    · simp

theorem unpack_pack_ne_notANumber (format : Format) {u : UnpackedFloat} (h : u ≠ .notANumber) :
    unpack format (pack format u) ≠ .notANumber := by
  apply unpack_ne_notANumber
  fun_cases UnpackedFloat.pack format u with
  | case1 => exact absurd rfl h
  | case2 sign => exact .inl (by simp [packedInfinity])
  | case3 sign => exact .inl (by simp [packedZero])
  | case4 sign mantissa exponent hm biased hbig => exact .inl (by simp [packedInfinity])
  | case5 sign mantissa exponent hm places biased hsmall hnormal =>
    -- the exponent of a number stays below the one of all ones
    have hlt : biased < 2 ^ format.exponentBits := by omega
    refine .inr ?_
    rw [unpackExponent_packComponents, BitVec.neg_one_eq_allOnes, ne_eq, ← BitVec.toNat_inj,
      BitVec.toNat_ofNat, BitVec.toNat_allOnes, Nat.mod_eq_of_lt hlt]
    omega
  | case6 sign mantissa exponent hm places biased hsmall hnormal =>
    have hbits := format.he
    exact .inr (by simp [Nat.pos_iff_ne_zero.mp hbits])

theorem float_neg_ne_nan {x : Float} (h : x ≠ Float.nan) : -x ≠ Float.nan := by
  rw [ne_eq, float_eq_nan_iff] at h ⊢
  refine unpack_pack_ne_notANumber .binary64 ?_
  generalize x.toModel.unpack = u at h ⊢
  cases u with
  | notANumber => exact absurd rfl h
  | _ => exact nofun

theorem float_ne_nan_of_isFinite {x : Float} (h : x.isFinite = true) : x ≠ Float.nan := by
  rw [ne_eq, float_eq_nan_iff]
  have hfinite : x.toModel.unpack.isFinite = true := h
  intro hnan
  rw [hnan] at hfinite
  cases hfinite

theorem roundWithAccuracy_ne_notANumber (format : Format) (sign : Sign) (mantissa : Nat)
    (exponent : Int) (accuracy : Accuracy) :
    roundWithAccuracy format sign mantissa exponent accuracy ≠ .notANumber := by
  unfold UnpackedFloat.roundWithAccuracy
  dsimp only
  split <;> exact nofun

/-- A product with a number other than zero and the infinities is a number. -/
theorem mul_finite_ne_notANumber (format : Format) {u : UnpackedFloat} (h : u ≠ .notANumber)
    (sign : Sign) (mantissa : Nat) (exponent : Int) (pos : 0 < mantissa) :
    UnpackedFloat.mul format u (.finite sign mantissa exponent pos) ≠ .notANumber := by
  cases u with
  | notANumber => exact absurd rfl h
  | finite => exact roundWithAccuracy_ne_notANumber _ _ _ _ _
  | infinity | zero => exact nofun

theorem ofInt_ne_notANumber (format : Format) (n : Int) :
    UnpackedFloat.ofInt format n ≠ .notANumber := by
  unfold UnpackedFloat.ofInt UnpackedFloat.normalize UnpackedFloat.round
  split
  · exact roundWithAccuracy_ne_notANumber _ _ _ _ _
  · exact nofun
  · exact roundWithAccuracy_ne_notANumber _ _ _ _ _

theorem ofScientific_ne_notANumber (format : Format) (n : Nat) :
    UnpackedFloat.ofScientific format n 0 ≠ .notANumber := by
  unfold UnpackedFloat.ofScientific
  split
  · exact nofun
  · split
    · exact nofun
    · split
      · exact nofun
      · rw [if_pos le_rfl]
        refine mul_finite_ne_notANumber format ?_ _ _ _ _
        exact nofun

theorem float_ofNat_ne_nan (n : Nat) : Float.ofNat n ≠ Float.nan := by
  rw [ne_eq, float_eq_nan_iff]
  change ¬(Float.ofScientific n false 0).toModel.unpack = .notANumber
  unfold Float.ofScientific
  split
  · -- what fits a significand is converted and multiplied by one
    have hone : Float.exactlyRepresentablePowersOfTen[0].toModel.unpack =
        .finite .positive (2 ^ 52) (-52) (by decide) := rfl
    have hcount : n.toUInt64.toFloat.toModel.unpack ≠ .notANumber :=
      unpack_pack_ne_notANumber .binary64 (ofInt_ne_notANumber _ _)
    have hproduct :=
      mul_finite_ne_notANumber .binary64 hcount .positive (2 ^ 52) (-52) (by decide)
    rw [← hone] at hproduct
    exact unpack_pack_ne_notANumber .binary64 hproduct
  · exact unpack_pack_ne_notANumber .binary64 (ofScientific_ne_notANumber _ n)

theorem float_ofInt_ne_nan (i : Int) : Float.ofInt i ≠ Float.nan := by
  cases i with
  | ofNat n => exact float_ofNat_ne_nan n
  | negSucc n => exact float_neg_ne_nan (float_ofNat_ne_nan (n + 1))

theorem float_pos_of_not_nonpos {x : Float} (h : x ≠ Float.nan) (hx : ¬x ≤ 0) : 0 < x := by
  rw [ne_eq, float_eq_nan_iff] at h
  have hzero : (0 : Float).toModel.unpack = .zero .positive := rfl
  by_contra hpos
  have hle : x.toModel.unpack.le (0 : Float).toModel.unpack = false :=
    Bool.eq_false_iff.mpr fun hle => hx (decide_eq_true hle)
  have hlt : (0 : Float).toModel.unpack.lt x.toModel.unpack = false :=
    Bool.eq_false_iff.mpr fun hlt => hpos (decide_eq_true hlt)
  rw [hzero] at hle hlt
  generalize x.toModel.unpack = u at h hle hlt
  cases u with
  | notANumber => exact h rfl
  | zero => cases hle
  | infinity sign | finite sign =>
    cases sign with
    | negative => cases hle
    | positive => cases hlt

/-! ### Numbers and identifiers -/

theorem Number.toFloat_ne_nan {n : Number} (h : n.agrees n = true) : n.toFloat ≠ Float.nan := by
  cases n with
  | whole i => exact float_ofInt_ne_nan i
  | real x => exact Float.beq_self_iff.mp h

theorem Number.agrees_symm {a b : Number} (h : a.agrees b = true) : b.agrees a = true := by
  cases a <;> cases b <;> simp only [Number.agrees, Bool.false_eq_true, beq_iff_eq] at h ⊢
  · exact h.symm
  · exact PartialEquivBEq.symm h

theorem Number.agrees_trans {a b c : Number} (hab : a.agrees b = true) (hbc : b.agrees c = true) :
    a.agrees c = true := by
  cases a <;> cases b <;> cases c <;>
    simp only [Number.agrees, Bool.false_eq_true, beq_iff_eq] at hab hbc ⊢
  · exact hab.trans hbc
  · exact PartialEquivBEq.trans hab hbc

theorem RequestId.agrees_symm {a b : RequestId} (h : a.agrees b = true) : b.agrees a = true := by
  cases a <;> cases b <;> simp only [RequestId.agrees, Bool.false_eq_true, beq_iff_eq] at h ⊢
  · exact Number.agrees_symm h
  · exact h.symm

theorem RequestId.agrees_trans {a b c : RequestId} (hab : a.agrees b = true)
    (hbc : b.agrees c = true) : a.agrees c = true := by
  cases a <;> cases b <;> cases c <;>
    simp only [RequestId.agrees, Bool.false_eq_true, beq_iff_eq] at hab hbc ⊢
  · exact Number.agrees_trans hab hbc
  · exact hab.trans hbc

instance : PartialEquivBEq RequestId where
  symm := RequestId.agrees_symm
  trans := RequestId.agrees_trans

/-! ### What a text yields -/

namespace Json

/-- A value that is read, on its own or inside of another. -/
def IsRead (v : Json) : Prop := ∃ depth cs rest, readValue depth cs = some (v, rest)

section Series

variable {α : Type} {entry : List Char → Reading α} {close : Char}

theorem readSeries_entries {fuel : Nat} {acc xs : List α} {cs rest : List Char}
    (h : readSeries entry close fuel acc cs = some (xs, rest)) :
    ∀ x ∈ xs, x ∈ acc ∨ ∃ cs rest, entry cs = some (x, rest) := by
  induction fuel generalizing acc cs with
  | zero => cases h
  | succ fuel ih =>
    rw [readSeries] at h
    split at h
    · cases h
    · rename_i y left hy
      have hlast : ∀ x ∈ y :: acc, x ∈ acc ∨ ∃ cs rest, entry cs = some (x, rest) := by
        intro x hx
        rcases List.mem_cons.mp hx with rfl | hold
        · exact .inr ⟨_, _, hy⟩
        · exact .inl hold
      split at h
      · split at h
        · obtain ⟨rfl, rfl⟩ := Prod.mk.inj (Option.some.inj h)
          exact fun x hx => hlast x (List.mem_reverse.mp hx)
        · split at h
          · exact fun x hx => (ih h x hx).elim (hlast x) .inr
          · cases h
      · cases h

theorem readContents_entries {xs : List α} {cs rest : List Char}
    (h : readContents entry close cs = some (xs, rest)) :
    ∀ x ∈ xs, ∃ cs rest, entry cs = some (x, rest) := by
  unfold readContents at h
  split at h
  · cases h
  · split at h
    · obtain ⟨rfl, rfl⟩ := Prod.mk.inj (Option.some.inj h)
      exact nofun
    · exact fun x hx => (readSeries_entries h x hx).resolve_left List.not_mem_nil

end Series

theorem IsRead.items {items : List Json} (h : IsRead (.array items)) :
    ∀ item ∈ items, IsRead item := by
  obtain ⟨depth, cs, rest, hread⟩ := h
  cases depth with
  | zero => cases isContainer_of_readScalar hread
  | succ depth =>
    rw [readValue] at hread
    split at hread
    · obtain ⟨⟨xs, left⟩, hitems, heq⟩ := Option.map_eq_some_iff.mp hread
      cases heq
      exact fun item hitem => ⟨depth, readContents_entries hitems item hitem⟩
    · obtain ⟨r, -, heq⟩ := Option.map_eq_some_iff.mp hread
      cases heq
    · cases isContainer_of_readScalar hread

theorem IsRead.members {members : List (String × Json)} (h : IsRead (.object members)) :
    ∀ member ∈ members, IsRead member.2 := by
  obtain ⟨depth, cs, rest, hread⟩ := h
  cases depth with
  | zero => cases isContainer_of_readScalar hread
  | succ depth =>
    rw [readValue] at hread
    split at hread
    · obtain ⟨r, -, heq⟩ := Option.map_eq_some_iff.mp hread
      cases heq
    · obtain ⟨⟨xs, left⟩, hmembers, heq⟩ := Option.map_eq_some_iff.mp hread
      cases heq
      intro member hmember
      obtain ⟨cs', rest', hentry⟩ := readContents_entries hmembers member hmember
      unfold readMember at hentry
      split at hentry
      · split at hentry
        · cases hentry
        · split at hentry
          · obtain ⟨⟨v, left'⟩, hvalue, heq⟩ := Option.map_eq_some_iff.mp hentry
            cases heq
            exact ⟨depth, _, _, hvalue⟩
          · cases hentry
      · cases hentry
    · cases isContainer_of_readScalar hread

theorem Numeral.number?_agrees {numeral : Numeral} {n : Number} (h : numeral.number? = some n) :
    n.agrees n = true := by
  by_cases hfits : numeral.Fits
  · obtain ⟨i, hwhole, -⟩ := numeral.number?_of_fits hfits
    obtain rfl := Option.some.inj (h.symm.trans hwhole)
    exact beq_self_eq_true i
  · obtain ⟨x, htaken, rfl⟩ := numeral.takenFor_of_number? hfits h
    have hnumber := float_ne_nan_of_isFinite htaken.isFinite
    cases numeral.negative with
    | true => exact Float.beq_self_iff.mpr (float_neg_ne_nan hnumber)
    | false => exact Float.beq_self_iff.mpr hnumber

theorem readNumber_agrees {cs rest : List Char} {n : Number} (h : readNumber cs = some (n, rest)) :
    n.agrees n = true := by
  rw [readNumber_eq] at h
  obtain ⟨⟨numeral, left⟩, -, hvalue⟩ := Option.bind_eq_some_iff.mp h
  obtain ⟨number, hnumber, heq⟩ := Option.map_eq_some_iff.mp hvalue
  cases heq
  exact Numeral.number?_agrees hnumber

/-- A number that is read agrees with itself. -/
theorem IsRead.agrees {n : Number} (h : IsRead (.number n)) : n.agrees n = true := by
  obtain ⟨depth, cs, rest, hread⟩ := h
  have hscalar := readScalar_of_readValue hread rfl
  unfold readScalar at hscalar
  split at hscalar
  · cases hscalar
  · cases hscalar
  · cases hscalar
  · obtain ⟨r, -, heq⟩ := Option.map_eq_some_iff.mp hscalar
    cases heq
  · obtain ⟨⟨number, left⟩, hnumber, heq⟩ := Option.map_eq_some_iff.mp hscalar
    cases heq
    exact readNumber_agrees hnumber

theorem isRead_of_ofWritten? {text : String} {v : Json} (h : ofWritten? text = some v) : IsRead v := by
  unfold ofWritten? at h
  split at h
  · rename_i w rest hread
    split at h
    · obtain rfl := Option.some.inj h
      exact ⟨maxDepth, _, _, hread⟩
    · cases h
  · cases h

end Json

/-- The messages of a text are values that were read, in canonical order. -/
theorem isRead_of_mem_messages? {text : String} {messages : List Json} {v : Json}
    (h : messages? text = some messages) (hv : v ∈ messages) :
    ∃ w : Json, w.IsRead ∧ v = w.canonical := by
  obtain ⟨canonical, hcanonical, hmessages⟩ := Option.bind_eq_some_iff.mp h
  obtain ⟨w, hw, rfl⟩ := Option.map_eq_some_iff.mp hcanonical
  have hread := Json.isRead_of_ofWritten? hw
  cases w with
  | array items =>
    rw [Json.canonical, Json.canonicalItems_eq_map] at hmessages
    obtain rfl := Option.some.inj hmessages
    obtain ⟨item, hitem, rfl⟩ := List.mem_map.mp hv
    exact ⟨item, hread.items item hitem, rfl⟩
  | object members =>
    rw [Json.canonical] at hmessages
    obtain rfl := Option.some.inj hmessages
    refine ⟨.object members, hread, ?_⟩
    rw [Json.canonical]
    exact List.mem_singleton.mp hv
  | _ => cases hmessages

/-- The identifier of a message that is read off a text agrees with itself. -/
theorem RequestId.beq_self_of_read {text : String} {messages : List Json} {v : Json} {id : RequestId}
    (h : messages? text = some messages) (hv : v ∈ messages)
    (hid : v.member? "id" = some id.toJson) : (id == id) = true := by
  obtain ⟨w, hread, rfl⟩ := isRead_of_mem_messages? h hv
  cases id with
  | null => rfl
  | text s => exact beq_self_eq_true s
  | number n =>
    cases w with
    | object members =>
      rw [Json.member?_canonical_object] at hid
      obtain ⟨raw, hraw, hcanonical⟩ := Option.map_eq_some_iff.mp hid
      obtain ⟨before, after, hsplit, -⟩ := List.lookup_eq_some_iff.mp hraw
      have hmember : ("id", raw) ∈ members := by
        rw [← List.mem_reverse, hsplit]
        exact List.mem_append_right before List.mem_cons_self
      have hnumber := hread.members _ hmember
      rw [eq_toJson_of_canonical hcanonical] at hnumber
      exact hnumber.agrees
    | _ => cases hid

end ContextServer
