import ContextServer.Proofs.Decimal.Writing
import ContextServer.Proofs.Json.Canonical
import ContextServer.Proofs.Json.Extension

/-!
How scalars are spelled. A literal is a scalar as its text has it, and denotes it exactly, whatever
the reader keeps of it. Each member of an object has its spelling in the text, and where the reader
found a string, a number or `null`, the spelling is a literal that it keeps as that value.
-/

namespace ContextServer

/-- A string, an exact number, or `null`. -/
inductive Scalar where
  | null
  | text (value : String)
  | number (value : ℚ)

namespace Json

/-! ### Literals -/

inductive Literal where
  | null
  | text (value : String)
  | number (n : Numeral)

namespace Literal

/-- The scalar that the literal denotes. -/
def scalar : Literal → Scalar
  | null => .null
  | text s => .text s
  | number n => .number n.value

/-- The value that the reader keeps for the literal. -/
def value? : Literal → Option Json
  | null => some .null
  | text s => some (.string s)
  | number n => n.number?.map .number

end Literal

def readLiteral : List Char → Reading Literal
  | 'n' :: 'u' :: 'l' :: 'l' :: rest => some (.null, rest)
  | '"' :: rest => (readChars [] rest).map fun (s, rest) => (.text s, rest)
  | cs => (readNumeral cs).map fun (n, rest) => (.number n, rest)

/-- The literal that a whole text is, if it is one. -/
def Literal.ofText? (text : String) : Option Literal :=
  match readLiteral text.toList with
  | some (literal, []) => some literal
  | _ => none

def LiteralText (l : Literal) (text : List Char) : Prop :=
  ∀ rest, Closed rest → readLiteral (text ++ rest) = some (l, rest)

theorem LiteralText.ofText? {l : Literal} {text : List Char} (h : LiteralText l text) :
    Literal.ofText? (String.ofList text) = some l := by
  have hread := h [] .nil
  rw [List.append_nil] at hread
  rw [Literal.ofText?, String.toList_ofList, hread]

theorem NumeralText.literal {n : Numeral} {text : List Char} (h : NumeralText n text) :
    LiteralText (.number n) text := by
  intro rest hr
  have hread := h rest hr
  cases text with
  | nil => exact absurd (h [] .nil) (by simp [readNumeral, readWhole, readDigits])
  | cons c cs =>
    rw [List.cons_append] at hread ⊢
    have hhead := readNumeral_head hread
    rw [readLiteral, hread]
    · rfl
    · intro more heq
      exact hhead 'n' (by decide) rfl (List.cons.inj heq).1
    · intro more heq
      exact hhead '"' (by decide) rfl (List.cons.inj heq).1

theorem CharsText.literal {s : String} {text : List Char} (h : CharsText [] s text) :
    LiteralText (.text s) ('"' :: text) := by
  intro rest _
  rw [List.cons_append, readLiteral, h rest]
  rfl

theorem LiteralText.null : LiteralText .null ['n', 'u', 'l', 'l'] := fun _ _ => rfl

/-! ### What was read -/

/-- Where a string, a number or `null` was read, a literal of it was. -/
theorem readScalar_taken {cs rest : List Char} {v : Json} (h : readScalar cs = some (v, rest))
    (hv : ∀ b, v ≠ .bool b) :
    ∃ text l, cs = text ++ rest ∧ LiteralText l text ∧ l.value? = some v := by
  unfold readScalar at h
  split at h
  · obtain ⟨rfl, rfl⟩ := Prod.mk.inj (Option.some.inj h)
    exact ⟨_, _, rfl, .null, rfl⟩
  · obtain ⟨rfl, rfl⟩ := Prod.mk.inj (Option.some.inj h)
    exact absurd rfl (hv true)
  · obtain ⟨rfl, rfl⟩ := Prod.mk.inj (Option.some.inj h)
    exact absurd rfl (hv false)
  · obtain ⟨⟨s, left⟩, hread, heq⟩ := Option.map_eq_some_iff.mp h
    obtain ⟨rfl, rfl⟩ := Prod.mk.inj heq
    obtain ⟨text, rfl, htext⟩ := readChars_taken hread
    exact ⟨'"' :: text, .text s, rfl, htext.literal, rfl⟩
  · obtain ⟨⟨number, left⟩, hread, heq⟩ := Option.map_eq_some_iff.mp h
    obtain ⟨rfl, rfl⟩ := Prod.mk.inj heq
    rw [readNumber_eq] at hread
    obtain ⟨⟨n, left'⟩, hnumeral, hnumber⟩ := Option.bind_eq_some_iff.mp hread
    obtain ⟨number', hkept, heq⟩ := Option.map_eq_some_iff.mp hnumber
    obtain ⟨rfl, rfl⟩ := Prod.mk.inj heq
    obtain ⟨text, rfl, htext⟩ := readNumeral_taken hnumeral
    refine ⟨text, .number n, rfl, htext.literal, ?_⟩
    rw [Literal.value?, hkept]
    rfl

/-! ### Spellings of members -/

/-- Reads as another reader does, and gives the text that it took, without the blanks in front. -/
def readSpelling (value : List Char → Reading Json) (cs : List Char) : Reading Json :=
  (value cs).map fun r =>
    (.string (String.ofList ((skipBlanks cs).take ((skipBlanks cs).length - r.2.length))), r.2)

/-- How the member of a key is spelled in the text of an object; of equal keys the last counts. -/
def spelling? (text key : String) : Option String :=
  match skipBlanks text.toList with
  | '{' :: rest =>
    (readContents (readMember (readSpelling (readValue (maxDepth - 1)))) '}' rest).bind fun r =>
      (r.1.reverse.lookup key).bind string?
  | _ => none

/-- Wherever one reader gives a value, another leaves the same rest and gives a related value. -/
def Accompanied {α β : Type} (R : α → β → Prop) (read : List Char → Reading α)
    (read' : List Char → Reading β) : Prop :=
  ∀ cs x rest, read cs = some (x, rest) → ∃ y, read' cs = some (y, rest) ∧ R x y

section Containers

variable {α β : Type} {R : α → β → Prop} {entry : List Char → Reading α}
  {entry' : List Char → Reading β} {close : Char}

theorem Accompanied.series (h : Accompanied R entry entry') {fuel : Nat} {acc xs : List α}
    {acc' : List β} {cs rest : List Char} (hacc : List.Forall₂ R acc acc')
    (hread : readSeries entry close fuel acc cs = some (xs, rest)) :
    ∃ ys, readSeries entry' close fuel acc' cs = some (ys, rest) ∧ List.Forall₂ R xs ys := by
  induction fuel generalizing acc acc' cs with
  | zero => cases hread
  | succ fuel ih =>
    rw [readSeries] at hread ⊢
    split at hread
    · cases hread
    · rename_i x left hx
      obtain ⟨y, hy, hxy⟩ := h cs x left hx
      rw [hy]
      dsimp only
      split at hread
      · split at hread
        · rename_i hclose
          obtain ⟨rfl, rfl⟩ := Prod.mk.inj (Option.some.inj hread)
          rw [if_pos hclose]
          exact ⟨_, rfl, List.forall₂_reverse_iff.mpr (.cons hxy hacc)⟩
        · rename_i hclose
          rw [if_neg hclose]
          split at hread
          · rename_i hcomma
            rw [if_pos hcomma]
            exact ih (.cons hxy hacc) hread
          · cases hread
      · cases hread

theorem Accompanied.contents (h : Accompanied R entry entry') :
    Accompanied (List.Forall₂ R) (readContents entry close) (readContents entry' close) := by
  intro cs xs rest hread
  unfold readContents at hread ⊢
  split at hread
  · cases hread
  · split at hread
    · rename_i hclose
      obtain ⟨rfl, rfl⟩ := Prod.mk.inj (Option.some.inj hread)
      rw [if_pos hclose]
      exact ⟨[], rfl, .nil⟩
    · rename_i hclose
      rw [if_neg hclose]
      exact h.series .nil hread

theorem Accompanied.member {R : Json → Json → Prop} {value value' : List Char → Reading Json}
    (h : Accompanied R value value') :
    Accompanied (fun m m' : String × Json => m.1 = m'.1 ∧ R m.2 m'.2) (readMember value)
      (readMember value') := by
  intro cs m rest hread
  unfold readMember at hread ⊢
  split at hread
  · split at hread
    · cases hread
    · rename_i key left hkey
      split at hread
      · rename_i after hcolon
        obtain ⟨⟨v, left'⟩, hv, heq⟩ := Option.map_eq_some_iff.mp hread
        obtain ⟨rfl, rfl⟩ := Prod.mk.inj heq
        obtain ⟨v', hv', hR⟩ := h after v _ hv
        rw [hv']
        exact ⟨(key, v'), rfl, rfl, hR⟩
      · cases hread
  · cases hread

end Containers

theorem lookup_related {R : Json → Json → Prop} {members members' : List (String × Json)}
    (h : List.Forall₂ (fun m m' => m.1 = m'.1 ∧ R m.2 m'.2) members members') {key : String}
    {v : Json} (hv : members.lookup key = some v) :
    ∃ v', members'.lookup key = some v' ∧ R v v' := by
  induction h with
  | nil => cases hv
  | @cons m m' rest rest' hm _ ih =>
    obtain ⟨k, w⟩ := m
    obtain ⟨k', w'⟩ := m'
    obtain ⟨rfl, hR⟩ := hm
    rw [lookup_cons_ite] at hv ⊢
    split at hv
    · rename_i hkey
      obtain rfl := Option.some.inj hv
      exact ⟨w', by rw [if_pos hkey], hR⟩
    · rename_i hkey
      rw [if_neg hkey]
      exact ih hv

/-- The text that a reader took for a value stands in the value's place. -/
def SpelledAs (value : List Char → Reading Json) (v v' : Json) : Prop :=
  ∃ cs rest, value cs = some (v, rest) ∧ v' =
    .string (String.ofList ((skipBlanks cs).take ((skipBlanks cs).length - rest.length)))

theorem accompanied_readSpelling (value : List Char → Reading Json) :
    Accompanied (SpelledAs value) value (readSpelling value) := by
  intro cs v rest hread
  refine ⟨_, ?_, cs, rest, hread, rfl⟩
  rw [readSpelling, hread]
  rfl

theorem isContainer_of_readScalar {cs rest : List Char} {v : Json}
    (h : readScalar cs = some (v, rest)) : v.isContainer = false := by
  unfold readScalar at h
  split at h
  · cases h
    rfl
  · cases h
    rfl
  · cases h
    rfl
  all_goals
    obtain ⟨r, -, heq⟩ := Option.map_eq_some_iff.mp h
    cases heq
    rfl

theorem readScalar_of_readValue {depth : Nat} {cs rest : List Char} {v : Json}
    (h : readValue depth cs = some (v, rest)) (hv : v.isContainer = false) :
    readScalar (skipBlanks cs) = some (v, rest) := by
  cases depth with
  | zero => exact h
  | succ depth =>
    rw [readValue] at h
    split at h
    · obtain ⟨r, -, heq⟩ := Option.map_eq_some_iff.mp h
      cases heq
      cases hv
    · obtain ⟨r, -, heq⟩ := Option.map_eq_some_iff.mp h
      cases heq
      cases hv
    · exact h

theorem readContents_of_ofWritten? {text : String} {members : List (String × Json)}
    (h : ofWritten? text = some (.object members)) :
    ∃ tail rest, skipBlanks text.toList = '{' :: tail ∧
      readContents (readMember (readValue (maxDepth - 1))) '}' tail = some (members, rest) := by
  unfold ofWritten? at h
  split at h
  · rename_i v rest hread
    split at h
    · obtain rfl := Option.some.inj h
      rw [show maxDepth = maxDepth - 1 + 1 from rfl, readValue] at hread
      split at hread
      · obtain ⟨r, -, heq⟩ := Option.map_eq_some_iff.mp hread
        cases heq
      · rename_i tail hskip
        obtain ⟨⟨members, left⟩, hmembers, heq⟩ := Option.map_eq_some_iff.mp hread
        cases heq
        exact ⟨tail, _, hskip, hmembers⟩
      · cases isContainer_of_readScalar hread
    · cases h
  · cases h

/-- A member that is a string, a number or `null` is spelled by a literal that is kept as it. -/
theorem spelling?_of_lookup {text key : String} {members : List (String × Json)} {v : Json}
    (hwritten : ofWritten? text = some (.object members))
    (hv : members.reverse.lookup key = some v) (hcontainer : v.isContainer = false)
    (hbool : ∀ b, v ≠ .bool b) :
    ∃ spelling l, spelling? text key = some spelling ∧ Literal.ofText? spelling = some l ∧
      l.value? = some v := by
  obtain ⟨tail, rest, hskip, hmembers⟩ := readContents_of_ofWritten? hwritten
  obtain ⟨spelled, hspelled, hrelated⟩ :=
    (accompanied_readSpelling (readValue (maxDepth - 1))).member.contents tail members rest hmembers
  obtain ⟨v', hv', cs, left, hread, rfl⟩ :=
    lookup_related (List.forall₂_reverse_iff.mpr hrelated) hv
  obtain ⟨taken, l, hcs, htext, hvalue⟩ :=
    readScalar_taken (readScalar_of_readValue hread hcontainer) hbool
  have hspelling : (skipBlanks cs).take ((skipBlanks cs).length - left.length) = taken := by
    rw [hcs, List.length_append, Nat.add_sub_cancel, List.take_left]
  rw [hspelling] at hv'
  refine ⟨String.ofList taken, l, ?_, htext.ofText?, hvalue⟩
  unfold spelling?
  simp only [hskip, hspelled, Option.bind_some, hv']
  rfl

example : spelling? "\x7b\"id\":1,\"id\" : 2.50e1 \x7d" "id" = some "2.50e1" := by decide +kernel

end Json

end ContextServer
