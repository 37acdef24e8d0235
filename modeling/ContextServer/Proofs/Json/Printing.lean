import ContextServer.Outbound

/-!
The shape of printed values: what follows a value is written after its text, the text of a container
is not empty, whole numbers are told apart by their digits, and requests to the client by the
identifier that they bear.
-/

namespace ContextServer

/-! ### Texts in pieces -/

namespace Json

theorem writeString_append (s : String) (rest more : List Char) :
    writeString s (rest ++ more) = writeString s rest ++ more := by
  have hescaped (cs tail : List Char) :
      cs.foldr (fun c tail => escapeChar c ++ tail) (tail ++ more) =
        cs.foldr (fun c tail => escapeChar c ++ tail) tail ++ more := by
    induction cs with
    | nil => rfl
    | cons c cs ih => rw [List.foldr_cons, List.foldr_cons, ih, List.append_assoc]
  rw [writeString, writeString, ← List.cons_append, hescaped, List.cons_append]

mutual

/-- What follows a value is written after it. -/
theorem write_append : ∀ (v : Json) (rest more : List Char),
    v.write (rest ++ more) = v.write rest ++ more
  | .null, _, _ => rfl
  | .bool true, _, _ => rfl
  | .bool false, _, _ => rfl
  | .number n, rest, more => (List.append_assoc n.write rest more).symm
  | .string s, rest, more => writeString_append s rest more
  | .array [], _, _ => rfl
  | .array (item :: items), rest, more => by
    rw [write, write, writeItems_append items rest more, write_append item, List.cons_append]
  | .object [], _, _ => rfl
  | .object ((key, value) :: members), rest, more => by
    rw [write, write, writeMembers_append members rest more, write_append value, ← List.cons_append,
      writeString_append, List.cons_append]

theorem writeItems_append : ∀ (items : List Json) (rest more : List Char),
    writeItems items (rest ++ more) = writeItems items rest ++ more
  | [], _, _ => rfl
  | item :: items, rest, more => by
    rw [writeItems, writeItems, writeItems_append items rest more, write_append item,
      List.cons_append]

theorem writeMembers_append : ∀ (members : List (String × Json)) (rest more : List Char),
    writeMembers members (rest ++ more) = writeMembers members rest ++ more
  | [], _, _ => rfl
  | (key, value) :: members, rest, more => by
    rw [writeMembers, writeMembers, writeMembers_append members rest more, write_append value,
      ← List.cons_append, writeString_append, List.cons_append]

end

theorem write_eq_text_append (v : Json) (rest : List Char) :
    v.write rest = v.text.toList ++ rest := by
  rw [text, String.toList_ofList]
  exact write_append v [] rest

end Json

/-! ### Containers -/

theorem Json.write_ne_nil_of_isContainer {v : Json} (h : v.isContainer = true) (rest : List Char) :
    v.write rest ≠ [] := by
  cases v with
  | array items => cases items <;> simp [Json.write]
  | object members =>
    cases members with
    | nil => simp [Json.write]
    | cons member more => obtain ⟨key, value⟩ := member; simp [Json.write]
  | _ => simp [Json.isContainer] at h

theorem Json.text_ne_empty_of_isContainer {v : Json} (h : v.isContainer = true) : v.text ≠ "" := by
  intro he
  have hl := congrArg String.toList he
  simp only [Json.text, String.toList_ofList] at hl
  exact Json.write_ne_nil_of_isContainer h [] hl

/-! ### Whole numbers -/

theorem toDigits_inj {m n : Nat} (h : Nat.toDigits 10 m = Nat.toDigits 10 n) : m = n := by
  have hm := Nat.ofDigitChars_ten_toDigits (n := m)
  rw [h, Nat.ofDigitChars_ten_toDigits] at hm
  exact hm.symm

theorem minus_not_mem_toDigits (n : Nat) : '-' ∉ Nat.toDigits 10 n := by
  intro h
  exact absurd (Nat.isDigit_of_mem_toDigits (by decide) (by decide) h) (by decide)

theorem Number.writeInt_inj {i j : Int} (h : Number.writeInt i = Number.writeInt j) : i = j := by
  cases i with
  | ofNat m =>
    cases j with
    | ofNat n => exact congrArg Int.ofNat (toDigits_inj h)
    | negSucc n =>
      have hm : '-' ∈ Nat.toDigits 10 m := by
        simp only [Number.writeInt] at h
        rw [h]
        exact List.mem_cons_self
      exact absurd hm (minus_not_mem_toDigits m)
  | negSucc m =>
    cases j with
    | ofNat n =>
      have hn : '-' ∈ Nat.toDigits 10 n := by
        simp only [Number.writeInt] at h
        rw [← h]
        exact List.mem_cons_self
      exact absurd hn (minus_not_mem_toDigits n)
    | negSucc n =>
      simp only [Number.writeInt, List.cons.injEq, true_and] at h
      have hs := toDigits_inj h
      have hmn : m = n := by omega
      rw [hmn]

theorem Number.comma_not_mem_writeInt (i : Int) : ',' ∉ Number.writeInt i := by
  have hdigits (n : Nat) : ',' ∉ Nat.toDigits 10 n := by
    intro h
    exact absurd (Nat.isDigit_of_mem_toDigits (by decide) (by decide) h) (by decide)
  cases i with
  | ofNat n => exact hdigits n
  | negSucc n =>
    simp only [Number.writeInt, List.mem_cons, not_or]
    exact ⟨by decide, hdigits (n + 1)⟩

/-! ### Requests to the client -/

/-- What stands before the first mark is told apart from what stands after it. -/
theorem append_mark_inj {α : Type} [DecidableEq α] {mark : α} {xs ys xs' ys' : List α}
    (hx : mark ∉ xs) (hy : mark ∉ ys) (h : xs ++ mark :: xs' = ys ++ mark :: ys') : xs = ys := by
  have htake (zs zs' : List α) (hz : mark ∉ zs) :
      (zs ++ mark :: zs').takeWhile (fun a => a ≠ mark) = zs := by
    rw [List.takeWhile_append_of_pos]
    · simp
    · intro a ha
      simp only [ne_eq, decide_eq_true_eq]
      intro he
      exact hz (he ▸ ha)
  rw [← htake xs xs' hx, h, htake ys ys' hy]

/-- A request's text begins with its identifier, up to the first comma. -/
theorem Outbound.requestText_eq (id : Int) (request : ClientRequest) :
    ∃ rest, (Outbound.requestText id request).toList =
      ['{', '"', 'i', 'd', '"', ':'] ++ (Number.writeInt id ++ ',' :: rest) := by
  unfold Outbound.requestText Json.text
  rw [String.toList_ofList]
  exact ⟨_, rfl⟩

/-- Requests of one text bear one identifier. -/
theorem Outbound.id_of_requestText {i j : Int} {r q : ClientRequest}
    (h : Outbound.requestText i r = Outbound.requestText j q) : i = j := by
  obtain ⟨rest, hr⟩ := Outbound.requestText_eq i r
  obtain ⟨rest', hq⟩ := Outbound.requestText_eq j q
  rw [h, hq] at hr
  apply Number.writeInt_inj
  exact append_mark_inj (Number.comma_not_mem_writeInt i) (Number.comma_not_mem_writeInt j)
    (List.append_cancel_left hr).symm

end ContextServer
