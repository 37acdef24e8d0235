import ContextServer.Proofs.Json.Numerals
import Mathlib.Data.List.Forall2

/-!
Reading the front of a text. What was read of a text is read of it in front of more text too, as long
as the two do not run together, and also under another bound on the depth, if the value keeps to it.
Hence values that were read one by one are read as the items of one array.
-/

namespace ContextServer

namespace Json

/-! ### Nesting -/

mutual

/-- How many containers of a value lie inside one another. -/
def nesting : Json → Nat
  | .array items => nestingOfItems items + 1
  | .object members => nestingOfMembers members + 1
  | _ => 0

def nestingOfItems : List Json → Nat
  | [] => 0
  | item :: rest => max (nesting item) (nestingOfItems rest)

def nestingOfMembers : List (String × Json) → Nat
  | [] => 0
  | (_, value) :: rest => max (nesting value) (nestingOfMembers rest)

end

theorem nestingOfItems_le {items : List Json} {depth : Nat} (h : nestingOfItems items ≤ depth) :
    ∀ item ∈ items, item.nesting ≤ depth := by
  induction items with
  | nil => simp
  | cons first rest ih =>
    rw [nestingOfItems] at h
    intro item hitem
    rcases List.mem_cons.mp hitem with rfl | hrest
    · omega
    · exact ih (by omega) item hrest

theorem nestingOfMembers_le {members : List (String × Json)} {depth : Nat}
    (h : nestingOfMembers members ≤ depth) : ∀ m ∈ members, m.2.nesting ≤ depth := by
  induction members with
  | nil => simp
  | cons first rest ih =>
    obtain ⟨key, value⟩ := first
    rw [nestingOfMembers] at h
    intro m hm
    rcases List.mem_cons.mp hm with rfl | hrest
    · exact Nat.le_trans (Nat.le_max_left _ _) h
    · exact ih (by omega) m hrest

/-! ### Blanks and strings -/

theorem skipBlanks_append {cs rest : List Char} {c : Char} (h : skipBlanks cs = c :: rest)
    (more : List Char) : skipBlanks (cs ++ more) = c :: (rest ++ more) := by
  unfold skipBlanks at h ⊢
  rw [List.dropWhile_append, h]
  rfl

theorem skipBlanks_of_blank {cs : List Char} (h : skipBlanks cs = []) (more : List Char) :
    skipBlanks (cs ++ more) = skipBlanks more := by
  unfold skipBlanks at h ⊢
  rw [List.dropWhile_append, h]
  rfl

/-- What follows the opening quote of a string, up to the closing one. -/
def CharsText (acc : List Char) (s : String) (text : List Char) : Prop :=
  ∀ rest, readChars acc (text ++ rest) = some (s, rest)

/-- A front that reads as one character keeps what was taken after it a text of a string. -/
theorem charsText_step (front : List Char) {acc tail rest : List Char} {c : Char} {s : String}
    (hfront : ∀ more, readChars acc (front ++ more) = readChars (c :: acc) more)
    (h : ∃ text, tail = text ++ rest ∧ CharsText (c :: acc) s text) :
    ∃ text, front ++ tail = text ++ rest ∧ CharsText acc s text := by
  obtain ⟨text, rfl, htext⟩ := h
  refine ⟨front ++ text, (List.append_assoc front text rest).symm, fun more => ?_⟩
  rw [List.append_assoc, hfront, htext more]

theorem readChars_taken {acc cs rest : List Char} {s : String}
    (h : readChars acc cs = some (s, rest)) : ∃ text, cs = text ++ rest ∧ CharsText acc s text := by
  fun_induction readChars acc cs with
  | case2 acc tail =>
    obtain ⟨rfl, rfl⟩ := Prod.mk.inj (Option.some.inj h)
    exact ⟨['"'], rfl, fun _ => rfl⟩
  | case4 acc a b d e tail unit hunit c hplain ih =>
    refine charsText_step ['\\', 'u', a, b, d, e] (fun more => ?_) (ih h)
    simp only [List.cons_append, List.nil_append, readChars, hunit, hplain]
  | case5 acc a b d e high hhigh hplain f g i j tail c hpair ih =>
    refine charsText_step ['\\', 'u', a, b, d, e, '\\', 'u', f, g, i, j] (fun more => ?_)
      (ih h)
    simp only [List.cons_append, List.nil_append, readChars, hhigh, hplain, hpair]
  | case8 acc letter tail _ c hshort ih =>
    exact charsText_step ['\\', letter] (readChars_short hshort acc) (ih h)
  | case11 acc c tail hquote _ _ hplain ih =>
    rw [not_or] at hplain
    exact charsText_step [c]
      (readChars_plain hquote hplain.1 (Nat.le_of_not_lt hplain.2) acc) (ih h)
  | _ => cases h

theorem readChars_append {acc cs rest : List Char} {s : String}
    (h : readChars acc cs = some (s, rest)) (more : List Char) :
    readChars acc (cs ++ more) = some (s, rest ++ more) := by
  obtain ⟨text, rfl, htext⟩ := readChars_taken h
  rw [List.append_assoc]
  exact htext (rest ++ more)

/-! ### Scalars -/

section Scalars

variable {cs rest more : List Char}

theorem Closed.blank {c : Char} (h : isBlank c = true) (rest : List Char) : Closed (c :: rest) := by
  intro d tail heq
  cases heq
  have hcases : c = ' ' ∨ c = '\t' ∨ c = '\n' ∨ c = '\r' := by
    simpa [isBlank, or_assoc] using h
  rcases hcases with rfl | rfl | rfl | rfl <;> decide

/-- A text whose first character other than blanks is a mark does not go on with a number. -/
theorem closed_of_skipBlanks {c : Char} (h : skipBlanks cs = c :: rest) (hc : c = ',' ∨ IsClose c) :
    Closed cs := by
  cases cs with
  | nil => exact .nil
  | cons d ds =>
    cases hd : isBlank d with
    | false =>
      rw [skipBlanks_cons hd] at h
      cases h
      exact .mark hc rest
    | true => exact .blank hd ds

theorem readNumber_extend {n : Number} (h : readNumber cs = some (n, rest))
    (hclosed : Closed (rest ++ more)) : readNumber (cs ++ more) = some (n, rest ++ more) := by
  rw [readNumber_eq] at h ⊢
  obtain ⟨⟨numeral, left⟩, hnumeral, hnumber⟩ := Option.bind_eq_some_iff.mp h
  obtain ⟨n', hkept, heq⟩ := Option.map_eq_some_iff.mp hnumber
  obtain ⟨rfl, rfl⟩ := Prod.mk.inj heq
  obtain ⟨text, rfl, htext⟩ := readNumeral_taken hnumeral
  rw [List.append_assoc, htext _ hclosed, Option.bind_some, hkept]
  rfl

theorem readNumber_head {c : Char} {n : Number} (h : readNumber (c :: cs) = some (n, rest)) :
    ∀ d, d ≠ '-' → d.isDigit = false → c ≠ d := by
  rw [readNumber_eq] at h
  obtain ⟨r, hread, -⟩ := Option.bind_eq_some_iff.mp h
  exact readNumeral_head hread

theorem readScalar_extend {v : Json} (h : readScalar cs = some (v, rest))
    (hclosed : Closed (rest ++ more)) : readScalar (cs ++ more) = some (v, rest ++ more) := by
  unfold readScalar at h
  split at h
  · obtain ⟨rfl, rfl⟩ := Prod.mk.inj (Option.some.inj h)
    rfl
  · obtain ⟨rfl, rfl⟩ := Prod.mk.inj (Option.some.inj h)
    rfl
  · obtain ⟨rfl, rfl⟩ := Prod.mk.inj (Option.some.inj h)
    rfl
  · obtain ⟨⟨s, left⟩, hread, heq⟩ := Option.map_eq_some_iff.mp h
    obtain ⟨rfl, rfl⟩ := Prod.mk.inj heq
    rw [List.cons_append, readScalar, readChars_append hread]
    rfl
  · obtain ⟨⟨n, left⟩, hread, heq⟩ := Option.map_eq_some_iff.mp h
    obtain ⟨rfl, rfl⟩ := Prod.mk.inj heq
    cases cs with
    | nil => cases hread
    | cons c cs =>
      rw [List.cons_append, readScalar_number (readNumber_head hread), ← List.cons_append,
        readNumber_extend hread hclosed]
      rfl

/-- A scalar does not start as a container does, nor as one ends. -/
theorem readScalar_head {c : Char} {v : Json} (h : readScalar (c :: cs) = some (v, rest)) :
    c ≠ '[' ∧ c ≠ '{' ∧ c ≠ ']' := by
  unfold readScalar at h
  split at h
  · rename_i heq
    cases heq
    cases h
    exact ⟨by decide, by decide, by decide⟩
  · rename_i heq
    cases heq
    cases h
    exact ⟨by decide, by decide, by decide⟩
  · rename_i heq
    cases heq
    cases h
    exact ⟨by decide, by decide, by decide⟩
  · rename_i heq
    cases heq
    obtain ⟨⟨s, left⟩, -, heq⟩ := Option.map_eq_some_iff.mp h
    obtain ⟨rfl, rfl⟩ := Prod.mk.inj heq
    exact ⟨by decide, by decide, by decide⟩
  · obtain ⟨⟨n, left⟩, hread, heq⟩ := Option.map_eq_some_iff.mp h
    obtain ⟨rfl, rfl⟩ := Prod.mk.inj heq
    have hhead := readNumber_head hread
    exact ⟨hhead '[' (by decide) rfl, hhead '{' (by decide) rfl, hhead ']' (by decide) rfl⟩

end Scalars

/-! ### Containers -/

/-- What one reader reads of a text, another reads of it in front of more text. -/
def Carries {α : Type} (allowed : α → Prop) (read read' : List Char → Reading α) : Prop :=
  ∀ cs x rest more, read cs = some (x, rest) → allowed x → Closed (rest ++ more) →
    read' (cs ++ more) = some (x, rest ++ more)

section Containers

variable {α : Type} {allowed : α → Prop} {entry entry' : List Char → Reading α} {close : Char}

/-- The entries that were read before stay. -/
theorem mem_readSeries {fuel : Nat} {acc xs : List α} {cs rest : List Char}
    (h : readSeries entry close fuel acc cs = some (xs, rest)) : ∀ x ∈ acc, x ∈ xs := by
  induction fuel generalizing acc cs with
  | zero => cases h
  | succ fuel ih =>
    rw [readSeries] at h
    split at h
    · cases h
    · rename_i y left hy
      split at h
      · split at h
        · obtain ⟨rfl, rfl⟩ := Prod.mk.inj (Option.some.inj h)
          intro x hx
          exact List.mem_reverse.mpr (List.mem_cons_of_mem y hx)
        · split at h
          · exact fun x hx => ih h x (List.mem_cons_of_mem y hx)
          · cases h
      · cases h

theorem Carries.series (h : Carries allowed entry entry') (hclose : IsClose close)
    {fuel fuel' : Nat} {acc xs : List α} {cs rest : List Char}
    (hread : readSeries entry close fuel acc cs = some (xs, rest))
    (hall : ∀ x ∈ xs, allowed x) (hfuel : fuel ≤ fuel') (more : List Char) :
    readSeries entry' close fuel' acc (cs ++ more) = some (xs, rest ++ more) := by
  induction fuel generalizing fuel' acc cs with
  | zero => cases hread
  | succ fuel ih =>
    obtain ⟨fuel', rfl⟩ : ∃ n, fuel' = n + 1 := ⟨fuel' - 1, by omega⟩
    rw [readSeries] at hread ⊢
    split at hread
    · cases hread
    · rename_i x left hx
      split at hread
      · rename_i c tail hskip
        -- the entry is one of those that are kept, and a mark follows it
        have hentry : x ∈ xs ∧ (c = ',' ∨ IsClose c) := by
          split at hread
          · rename_i hc
            cases hread
            exact ⟨by simp, .inr (hc ▸ hclose)⟩
          · split at hread
            · rename_i hcomma
              exact ⟨mem_readSeries hread x List.mem_cons_self, .inl hcomma⟩
            · cases hread
        have hskip' := skipBlanks_append hskip more
        rw [h cs x left more hx (hall x hentry.1) (closed_of_skipBlanks hskip' hentry.2)]
        dsimp only
        rw [hskip']
        dsimp only
        split at hread
        · rename_i hclose
          rw [if_pos hclose]
          cases hread
          rfl
        · rename_i hclose
          rw [if_neg hclose]
          split at hread
          · rename_i hcomma
            rw [if_pos hcomma]
            exact ih hread (by omega)
          · cases hread
      · cases hread

theorem Carries.contents (h : Carries allowed entry entry') (hmark : IsClose close) {xs : List α}
    {cs rest : List Char} (hread : readContents entry close cs = some (xs, rest)) (hall : ∀ x ∈ xs, allowed x)
    (more : List Char) : readContents entry' close (cs ++ more) = some (xs, rest ++ more) := by
  unfold readContents at hread ⊢
  split at hread
  · cases hread
  · rename_i c tail hskip
    rw [skipBlanks_append hskip]
    dsimp only
    split at hread
    · rename_i hclose
      rw [if_pos hclose]
      cases hread
      rfl
    · rename_i hclose
      rw [if_neg hclose]
      exact h.series hmark hread hall (by simp) more

theorem Carries.member {value value' : List Char → Reading Json} {allowed : Json → Prop}
    (h : Carries allowed value value') :
    Carries (fun m : String × Json => allowed m.2) (readMember value) (readMember value') := by
  intro cs m rest more hread hallowed hclosed
  unfold readMember at hread
  split at hread
  · rename_i tail hquote
    split at hread
    · cases hread
    · rename_i key left hkey
      split at hread
      · rename_i after hcolon
        obtain ⟨⟨v, left'⟩, hv, heq⟩ := Option.map_eq_some_iff.mp hread
        obtain ⟨rfl, rfl⟩ := Prod.mk.inj heq
        simp only [readMember, skipBlanks_append hquote, readChars_append hkey,
          skipBlanks_append hcolon, h _ v _ more hv hallowed hclosed]
        rfl
      · cases hread
  · cases hread

end Containers

/-! ### Values -/

theorem skipBlanks_head {cs rest : List Char} {c : Char} (h : skipBlanks cs = c :: rest) :
    isBlank c = false := by
  have hnot := List.head?_dropWhile_not isBlank cs
  unfold skipBlanks at h
  rw [h] at hnot
  simpa using hnot

/-- Blanks in front of a value do not count. -/
theorem readValue_of_skipBlanks {cs rest : List Char} {c : Char} (h : skipBlanks cs = c :: rest)
    (depth : Nat) : readValue depth cs = readValue depth (c :: rest) := by
  have hself : skipBlanks (c :: rest) = c :: rest := skipBlanks_cons (skipBlanks_head h) rest
  cases depth with
  | zero => rw [readValue, readValue, h, hself]
  | succ depth => rw [readValue, readValue, h, hself]

theorem readScalar_carries {cs rest more : List Char} {c : Char} {v : Json}
    (hread : readScalar (c :: cs) = some (v, rest)) (hblank : isBlank c = false)
    (hclosed : Closed (rest ++ more)) (depth : Nat) :
    readValue depth (c :: (cs ++ more)) = some (v, rest ++ more) := by
  obtain ⟨harray, hobject, -⟩ := readScalar_head hread
  rw [readValue_scalar hblank harray hobject, ← List.cons_append]
  exact readScalar_extend hread hclosed

theorem readValue_carries (depth depth' : Nat) :
    Carries (fun v => v.nesting ≤ depth') (readValue depth) (readValue depth') := by
  induction depth generalizing depth' with
  | zero =>
    intro cs v rest more hread hnesting hclosed
    rw [readValue] at hread
    cases hskip : skipBlanks cs with
    | nil =>
      rw [hskip] at hread
      cases hread
    | cons c tail =>
      rw [hskip] at hread
      rw [readValue_of_skipBlanks (skipBlanks_append hskip more)]
      exact readScalar_carries hread (skipBlanks_head hskip) hclosed depth'
  | succ depth ih =>
    intro cs v rest more hread hnesting hclosed
    rw [readValue] at hread
    split at hread
    · rename_i tail hskip
      obtain ⟨⟨items, left⟩, hitems, heq⟩ := Option.map_eq_some_iff.mp hread
      obtain ⟨rfl, rfl⟩ := Prod.mk.inj heq
      rw [nesting] at hnesting
      obtain ⟨deeper, rfl⟩ : ∃ n, depth' = n + 1 := ⟨depth' - 1, by omega⟩
      have hall := nestingOfItems_le (Nat.le_of_succ_le_succ hnesting)
      rw [readValue_of_skipBlanks (skipBlanks_append hskip more), readValue, skipBlanks_cons rfl]
      simp only [(ih deeper).contents (.inl rfl) hitems hall more]
      rfl
    · rename_i tail hskip
      obtain ⟨⟨members, left⟩, hmembers, heq⟩ := Option.map_eq_some_iff.mp hread
      obtain ⟨rfl, rfl⟩ := Prod.mk.inj heq
      rw [nesting] at hnesting
      obtain ⟨deeper, rfl⟩ : ∃ n, depth' = n + 1 := ⟨depth' - 1, by omega⟩
      have hall := nestingOfMembers_le (Nat.le_of_succ_le_succ hnesting)
      rw [readValue_of_skipBlanks (skipBlanks_append hskip more), readValue, skipBlanks_cons rfl]
      simp only [(ih deeper).member.contents (.inr rfl) hmembers hall more]
      rfl
    · cases hskip : skipBlanks cs with
      | nil =>
        rw [hskip] at hread
        cases hread
      | cons c tail =>
        rw [hskip] at hread
        rw [readValue_of_skipBlanks (skipBlanks_append hskip more)]
        exact readScalar_carries hread (skipBlanks_head hskip) hclosed depth'

theorem readValue_head {depth : Nat} {cs rest : List Char} {v : Json}
    (h : readValue depth cs = some (v, rest)) :
    ∃ c tail, skipBlanks cs = c :: tail ∧ c ≠ ']' := by
  have hscalar (h : readScalar (skipBlanks cs) = some (v, rest)) :
      ∃ c tail, skipBlanks cs = c :: tail ∧ c ≠ ']' := by
    cases hskip : skipBlanks cs with
    | nil =>
      rw [hskip] at h
      cases h
    | cons c tail =>
      rw [hskip] at h
      exact ⟨c, tail, rfl, (readScalar_head h).2.2⟩
  cases depth with
  | zero =>
    rw [readValue] at h
    exact hscalar h
  | succ depth =>
    rw [readValue] at h
    split at h
    · rename_i tail hskip
      exact ⟨'[', tail, hskip, by decide⟩
    · rename_i tail hskip
      exact ⟨'{', tail, hskip, by decide⟩
    · exact hscalar h

/-! ### Texts joined to an array -/

/-- A whole text that stands for a value as it is written, nesting at most `depth` deep. -/
def Whole (depth : Nat) (cs : List Char) (v : Json) : Prop :=
  v.nesting ≤ depth ∧ ∃ rest, readValue maxDepth cs = some (v, rest) ∧ skipBlanks rest = []

theorem whole_of_ofWritten? {depth : Nat} {text : String} {v : Json} (h : ofWritten? text = some v)
    (hnesting : v.nesting ≤ depth) : Whole depth text.toList v := by
  unfold ofWritten? at h
  split at h
  · rename_i v' rest hread
    split at h
    · rename_i hblank
      obtain rfl := Option.some.inj h
      exact ⟨hnesting, rest, hread, List.isEmpty_iff.mp hblank⟩
    · cases h
  · cases h

/-- Further texts, each after a comma, and the closing bracket. -/
def joinedMore (texts : List (List Char)) : List Char :=
  texts.foldr (fun cs tail => ',' :: (cs ++ tail)) [']']

theorem intercalate_comma (cs : List Char) (texts : List (List Char)) :
    List.intercalate [','] (cs :: texts) ++ [']'] = cs ++ joinedMore texts := by
  induction texts generalizing cs with
  | nil => simp [joinedMore]
  | cons next rest ih =>
    rw [List.intercalate_cons_cons, List.append_assoc, ih, List.append_assoc]
    rfl

theorem length_lt_joinedMore (texts : List (List Char)) :
    texts.length < (joinedMore texts).length := by
  induction texts with
  | nil => exact Nat.zero_lt_one
  | cons cs rest ih =>
    have hcons : joinedMore (cs :: rest) = ',' :: (cs ++ joinedMore rest) := rfl
    rw [hcons]
    simp only [List.length_cons, List.length_append]
    omega

/-- Every text is read in front of the later ones. -/
theorem readSeries_joined {depth fuel : Nat} {cs : List Char} {v : Json}
    {texts : List (List Char)} {values : List Json} (first : Whole depth cs v)
    (later : List.Forall₂ (Whole depth) texts values) (hfuel : texts.length < fuel)
    (acc : List Json) :
    readSeries (readValue depth) ']' fuel acc (cs ++ joinedMore texts) =
      some (acc.reverse ++ v :: values, []) := by
  obtain ⟨fuel, rfl⟩ : ∃ n, fuel = n + 1 := ⟨fuel - 1, by omega⟩
  induction later generalizing cs v fuel acc with
  | nil =>
    obtain ⟨hnesting, rest, hread, hblank⟩ := first
    have hskip : skipBlanks (rest ++ [']']) = [']'] := skipBlanks_of_blank hblank _
    have hcarried := readValue_carries maxDepth depth cs v rest [']'] hread hnesting
      (closed_of_skipBlanks hskip (.inr (.inl rfl)))
    have hjoined : joinedMore [] = [']'] := rfl
    rw [hjoined, readSeries]
    simp only [hcarried, hskip, if_true, List.reverse_cons]
  | @cons next w texts values hnext _ ih =>
    obtain ⟨hnesting, rest, hread, hblank⟩ := first
    have hskip : skipBlanks (rest ++ joinedMore (next :: texts)) =
        ',' :: (next ++ joinedMore texts) := skipBlanks_of_blank hblank _
    have hcarried := readValue_carries maxDepth depth cs v rest (joinedMore (next :: texts)) hread
      hnesting (closed_of_skipBlanks hskip (.inl rfl))
    obtain ⟨fuel, rfl⟩ : ∃ n, fuel = n + 1 := ⟨fuel - 1, by simp at hfuel; omega⟩
    have hlater := ih hnext (v :: acc) fuel (by simpa using hfuel)
    rw [readSeries]
    simp only [hcarried, hskip]
    rw [if_neg (by decide), if_pos trivial, hlater]
    simp

theorem readContents_joined {depth : Nat} {texts : List (List Char)} {values : List Json}
    (h : List.Forall₂ (Whole depth) texts values) :
    readContents (readValue depth) ']' (List.intercalate [','] texts ++ [']']) =
      some (values, []) := by
  cases h with
  | nil => rfl
  | @cons cs v texts values first later =>
    obtain ⟨hnesting, rest, hread, hblank⟩ := first
    obtain ⟨c, tail, hskip, hne⟩ := readValue_head hread
    -- the blanks in front of the first text are gone when its reader starts
    have hfirst : Whole depth (c :: tail) v :=
      ⟨hnesting, rest, by rw [← readValue_of_skipBlanks hskip, hread], hblank⟩
    have hfuel : texts.length < (tail ++ joinedMore texts).length + 1 := by
      have hlength := length_lt_joinedMore texts
      rw [List.length_append]
      omega
    have hseries := readSeries_joined hfirst later hfuel []
    rw [intercalate_comma]
    unfold readContents
    rw [skipBlanks_append hskip]
    dsimp only
    rw [if_neg hne, ← List.cons_append, hseries]
    rfl

/-- Texts that are values on their own are the items of one array once they are joined. -/
theorem ofWritten?_joined {texts : List String} {values : List Json}
    (h : List.Forall₂ (fun text v => ofWritten? text = some v ∧ v.nesting < maxDepth) texts values) :
    ofWritten? ("[" ++ ",".intercalate texts ++ "]") = some (.array values) := by
  have hread : readValue maxDepth ("[" ++ ",".intercalate texts ++ "]").toList =
      some (.array values, []) := by
    have htext : ("[" ++ ",".intercalate texts ++ "]").toList =
        '[' :: (List.intercalate [','] (texts.map String.toList) ++ [']']) := by
      simp [String.toList_append, String.toList_intercalate]
    have hwhole : List.Forall₂ (Whole 126) (texts.map String.toList) values := by
      rw [List.forall₂_map_left_iff]
      exact h.imp fun text v hv => whole_of_ofWritten? hv.1 (Nat.le_of_lt_succ hv.2)
    rw [htext, show maxDepth = 126 + 1 from rfl, readValue, skipBlanks_cons rfl]
    simp only [readContents_joined hwhole]
    rfl
  rw [ofWritten?, hread]
  rfl

end Json

end ContextServer
