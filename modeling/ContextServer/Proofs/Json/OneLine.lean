import ContextServer.Proofs.Json.Reading

/-!
Printed values stay on one line. Whatever characters the strings of a value hold, its text has none
below the space: strings escape them, and everything else that is printed is a mark, a letter or a digit.
-/

namespace ContextServer

/-- No character below U+0020, and so no line feed. -/
def InLine (text : List Char) : Prop := ∀ c ∈ text, 0x20 ≤ c.toNat

/-- A text that can be sent as a line: it has characters, and all of them stand on one line. -/
def OneLine (text : String) : Prop := text ≠ "" ∧ InLine text.toList

instance (text : List Char) : Decidable (InLine text) :=
  List.decidableBAll (fun c : Char => 0x20 ≤ c.toNat) text

instance (text : String) : Decidable (OneLine text) :=
  inferInstanceAs (Decidable (text ≠ "" ∧ InLine text.toList))

/-! ### Pieces of a line -/

@[simp]
theorem inLine_nil : InLine [] := by simp [InLine]

@[simp]
theorem inLine_cons {c : Char} {text : List Char} :
    InLine (c :: text) ↔ 0x20 ≤ c.toNat ∧ InLine text := by simp [InLine]

@[simp]
theorem inLine_append {xs ys : List Char} : InLine (xs ++ ys) ↔ InLine xs ∧ InLine ys := by
  simp [InLine, or_imp, forall_and]

theorem InLine.sublist {xs ys : List Char} (h : InLine ys) (hsub : xs.Sublist ys) : InLine xs :=
  fun c hc => h c (hsub.subset hc)

theorem inLine_of_isDigit {digits : List Char} (h : ∀ c ∈ digits, c.isDigit = true) :
    InLine digits := by
  intro c hc
  have hlow : '0'.toNat ≤ c.toNat := (Char.isDigit_iff_toNat.mp (h c hc)).1
  exact Nat.le_trans (by decide) hlow

theorem inLine_toDigits (n : Nat) : InLine (Nat.toDigits 10 n) :=
  inLine_of_isDigit (isDigit_toDigits n)

theorem inLine_zeros (k : Nat) : InLine (List.replicate k '0') := by
  intro c hc
  rw [List.eq_of_mem_replicate hc]
  decide

/-! ### Numbers -/

namespace Decimal.Layout

theorem inLine_writePositional {l : Layout} (hend : InLine l.wholeEnd) {digits : List Char}
    (h : InLine digits) (leading : Int) : InLine (l.writePositional digits leading) := by
  unfold writePositional
  dsimp only
  split
  · simp [inLine_zeros, h]
  · split
    · simp [inLine_zeros, h, hend]
    · simp [h.sublist (List.take_sublist _ _), h.sublist (List.drop_sublist _ _)]

theorem inLine_writeScientific {digits : List Char} (h : InLine digits) (leading : Int) :
    InLine (writeScientific digits leading) := by
  have hsign : 0x20 ≤ (if leading < 0 then '-' else '+').toNat := by split <;> decide
  have hfraction : InLine (if digits.length ≤ 1 then [] else '.' :: digits.drop 1) := by
    split
    · exact inLine_nil
    · exact inLine_cons.mpr ⟨by decide, h.sublist (List.drop_sublist 1 digits)⟩
  simp only [writeScientific, inLine_append, inLine_cons]
  exact ⟨⟨h.sublist (List.take_sublist 1 digits), hfraction⟩, by decide, hsign, inLine_toDigits _⟩

theorem inLine_writeFloat {l : Layout} (hend : InLine l.wholeEnd) (x : Float) :
    InLine (l.writeFloat x) := by
  have hwrite (d : Decimal) : InLine (l.write d) := by
    unfold Layout.write
    dsimp only
    split
    · exact inLine_writePositional hend (inLine_toDigits _) _
    · exact inLine_writeScientific (inLine_toDigits _) _
  unfold writeFloat
  dsimp only
  split
  · simp [hwrite]
  · exact hwrite _

end Decimal.Layout

theorem Number.inLine_writeInt (i : Int) : InLine (Number.writeInt i) := by
  cases i with
  | ofNat n => exact inLine_toDigits n
  | negSucc n => simp [Number.writeInt, inLine_toDigits]

theorem Number.inLine_write (n : Number) : InLine n.write := by
  cases n with
  | whole i => exact Number.inLine_writeInt i
  | real x => exact Decimal.Layout.inLine_writeFloat (by decide) x

/-! ### Strings and values -/

namespace Json

theorem inLine_escapeChar (c : Char) : InLine (escapeChar c) := by
  have hhex : ∀ n < 16, 0x20 ≤ (hexDigit n).toNat := by decide
  obtain ⟨he, -, -, hspace⟩ | ⟨letter, he, hletter⟩ | ⟨hcontrol, he⟩ := escapeChar_cases c
  · simp [he, hspace]
  · have hvisible : 0x20 ≤ letter.toNat := by
      unfold shortEscape? at hletter
      split at hletter
      case h_9 => cases hletter
      all_goals decide
    simp [he, hvisible]
  · have hhigh := hhex (c.toNat / 16) (by omega)
    have hlow := hhex (c.toNat % 16) (by omega)
    simp [he, hhigh, hlow]

theorem inLine_writeString (s : String) {rest : List Char} (h : InLine rest) :
    InLine (writeString s rest) := by
  have hescaped (cs : List Char) :
      InLine (cs.foldr (fun c tail => escapeChar c ++ tail) ('"' :: rest)) := by
    induction cs with
    | nil => simp [h]
    | cons c cs ih =>
      rw [List.foldr_cons, inLine_append]
      exact ⟨inLine_escapeChar c, ih⟩
  exact inLine_cons.mpr ⟨by decide, hescaped s.toList⟩

mutual

theorem inLine_write : ∀ (v : Json) {rest : List Char}, InLine rest → InLine (v.write rest)
  | .null, _, h => by simp [write, h]
  | .bool true, _, h => by simp [write, h]
  | .bool false, _, h => by simp [write, h]
  | .number n, _, h => by simp [write, n.inLine_write, h]
  | .string s, _, h => inLine_writeString s h
  | .array [], _, h => by simp [write, h]
  | .array (item :: items), _, h => by
    simp [write, inLine_write item (inLine_writeItems items h)]
  | .object [], _, h => by simp [write, h]
  | .object ((key, value) :: members), _, h => by
    have hvalue := inLine_write value (inLine_writeMembers members h)
    have hkey := inLine_writeString key (inLine_cons.mpr ⟨(by decide : 0x20 ≤ ':'.toNat), hvalue⟩)
    simp [write, hkey]

theorem inLine_writeItems : ∀ (items : List Json) {rest : List Char}, InLine rest →
    InLine (writeItems items rest)
  | [], _, h => by simp [writeItems, h]
  | item :: items, _, h => by
    simp [writeItems, inLine_write item (inLine_writeItems items h)]

theorem inLine_writeMembers : ∀ (members : List (String × Json)) {rest : List Char}, InLine rest →
    InLine (writeMembers members rest)
  | [], _, h => by simp [writeMembers, h]
  | (key, value) :: members, _, h => by
    have hvalue := inLine_write value (inLine_writeMembers members h)
    have hkey := inLine_writeString key (inLine_cons.mpr ⟨(by decide : 0x20 ≤ ':'.toNat), hvalue⟩)
    simp [writeMembers, hkey]

end

theorem inLine_text (v : Json) : InLine v.text.toList := by
  rw [text, String.toList_ofList]
  exact v.inLine_write inLine_nil

theorem oneLine_text {v : Json} (h : v.isContainer = true) : OneLine v.text :=
  ⟨text_ne_empty_of_isContainer h, v.inLine_text⟩

example : OneLine (Json.object [("a\nb", .string "\r\u0001")]).text ∧ ¬OneLine "a\nb" := by
  decide

end Json

end ContextServer
