import ContextServer.Proofs.Json.Extension

/-!
The grammar of JSON texts, apart from what the reader makes of them: numbers of any size, strings with
halves of surrogate pairs, containers of any depth.
-/

namespace ContextServer

namespace Json

/-! ### Scalars -/

def Blanks (text : List Char) : Prop := ∀ c ∈ text, isBlank c = true

def Digits (text : List Char) : Prop := text ≠ [] ∧ ∀ c ∈ text, c.isDigit = true

/-- A number: a sign, digits without a needless zero in front, a fraction and an exponent. -/
inductive NumberText : List Char → Prop where
  | mk {sign whole fraction exponent : List Char} (hsign : sign = [] ∨ sign = ['-'])
    (hwhole : whole = ['0'] ∨ Digits whole ∧ whole.head? ≠ some '0')
    (hfraction : fraction = [] ∨ ∃ digits, Digits digits ∧ fraction = '.' :: digits)
    (hexponent : exponent = [] ∨ ∃ mark sign digits, (mark = 'e' ∨ mark = 'E') ∧
      (sign = [] ∨ sign = ['+'] ∨ sign = ['-']) ∧ Digits digits ∧
      exponent = mark :: (sign ++ digits)) :
    NumberText (sign ++ (whole ++ (fraction ++ exponent)))

def IsHexDigit (c : Char) : Prop :=
  ('0' ≤ c ∧ c ≤ '9') ∨ ('a' ≤ c ∧ c ≤ 'f') ∨ ('A' ≤ c ∧ c ≤ 'F')

/-- A string after its opening quote. The unit of an escape may be half of a pair. -/
inductive StringTail : List Char → Prop where
  | close : StringTail ['"']
  | plain {c : Char} {text : List Char} (hspace : 32 ≤ c.toNat) (hquote : c ≠ '"')
    (hslash : c ≠ '\\') (h : StringTail text) : StringTail (c :: text)
  | short {letter : Char} {text : List Char}
    (hletter : letter ∈ ['"', '\\', '/', 'b', 'f', 'n', 'r', 't']) (h : StringTail text) :
    StringTail ('\\' :: letter :: text)
  | unit {a b c d : Char} {text : List Char} (ha : IsHexDigit a) (hb : IsHexDigit b)
    (hc : IsHexDigit c) (hd : IsHexDigit d) (h : StringTail text) :
    StringTail ('\\' :: 'u' :: a :: b :: c :: d :: text)

inductive ScalarText : List Char → Prop where
  | null : ScalarText ['n', 'u', 'l', 'l']
  | true : ScalarText ['t', 'r', 'u', 'e']
  | false : ScalarText ['f', 'a', 'l', 's', 'e']
  | number {text : List Char} (h : NumberText text) : ScalarText text
  | string {text : List Char} (h : StringTail text) : ScalarText ('"' :: text)

/-! ### Containers -/

/-- Entries with blanks around them and commas between them, at least one. -/
inductive SeriesText : List (List Char) → List Char → Prop where
  | last {before entry after : List Char} (hbefore : Blanks before) (hafter : Blanks after) :
    SeriesText [entry] (before ++ (entry ++ after))
  | more {before entry after text : List Char} {entries : List (List Char)}
    (hbefore : Blanks before) (hafter : Blanks after) (h : SeriesText entries text) :
    SeriesText (entry :: entries) (before ++ (entry ++ (after ++ ',' :: text)))

/-- What stands between the marks of a container. -/
inductive ContentsText : List (List Char) → List Char → Prop where
  | empty {text : List Char} (h : Blanks text) : ContentsText [] text
  | series {entries : List (List Char)} {text : List Char} (h : SeriesText entries text) :
    ContentsText entries text

/-- A member: a key, given after its opening quote, a colon and a value. -/
inductive MemberText (key value : List Char) : List Char → Prop where
  | mk {before after : List Char} (hbefore : Blanks before) (hafter : Blanks after) :
    MemberText key value ('"' :: (key ++ (before ++ ':' :: (after ++ value))))

/-! ### Strings -/

/-- Whether a character may stand for itself in a string. -/
def isPlain (c : Char) : Bool := 32 ≤ c.toNat && c != '"' && c != '\\'

theorem StringTail.of_plain {cs : List Char} (h : cs.all isPlain = true) :
    StringTail (cs ++ ['"']) := by
  induction cs with
  | nil => exact .close
  | cons c cs ih =>
    simp only [List.all_cons, Bool.and_eq_true, isPlain, decide_eq_true_eq, bne_iff_ne] at h
    obtain ⟨⟨⟨hspace, hquote⟩, hslash⟩, hrest⟩ := h
    exact .plain hspace hquote hslash (ih hrest)

theorem hexValue?_isSome {c : Char} (h : IsHexDigit c) : ∃ n, hexValue? c = some n := by
  unfold hexValue?
  split
  · exact ⟨_, rfl⟩
  · split
    · exact ⟨_, rfl⟩
    · rename_i hdigit hsmall
      exact ⟨_, if_pos ((h.resolve_left hdigit).resolve_left hsmall)⟩

theorem unit?_isSome {a b c d : Char} (ha : IsHexDigit a) (hb : IsHexDigit b) (hc : IsHexDigit c)
    (hd : IsHexDigit d) : ∃ n, unit? a b c d = some n := by
  obtain ⟨w, hw⟩ := hexValue?_isSome ha
  obtain ⟨x, hx⟩ := hexValue?_isSome hb
  obtain ⟨y, hy⟩ := hexValue?_isSome hc
  obtain ⟨z, hz⟩ := hexValue?_isSome hd
  exact ⟨_, by simp only [unit?, hw, hx, hy, hz, Option.bind_eq_bind, Option.bind_some]; rfl⟩

theorem shortEscape?_isSome {letter : Char}
    (h : letter ∈ ['"', '\\', '/', 'b', 'f', 'n', 'r', 't']) :
    ∃ c, shortEscape? letter = some c := by
  simp only [List.mem_cons, List.not_mem_nil, or_false] at h
  rcases h with rfl | rfl | rfl | rfl | rfl | rfl | rfl | rfl <;> exact ⟨_, rfl⟩

section Units

variable {a b c d : Char} {n : Nat} (hunit : unit? a b c d = some n)
include hunit

theorem readChars_unit {char : Char} (h : plainUnit? n = some char) (acc rest : List Char) :
    readChars acc ('\\' :: 'u' :: a :: b :: c :: d :: rest) = readChars (char :: acc) rest := by
  rw [readChars, hunit]
  simp only [h]

theorem readChars_pair (h : plainUnit? n = none) (e f g i : Char) (acc rest : List Char) :
    readChars acc ('\\' :: 'u' :: a :: b :: c :: d :: '\\' :: 'u' :: e :: f :: g :: i :: rest) =
      ((unit? e f g i).bind (pair? n)).bind fun char => readChars (char :: acc) rest := by
  rw [readChars, hunit]
  simp only [h]
  cases (unit? e f g i).bind (pair? n) <;> rfl

theorem readChars_half (h : plainUnit? n = none) {rest : List Char}
    (hrest : ∀ more, rest ≠ '\\' :: 'u' :: more) (acc : List Char) :
    readChars acc ('\\' :: 'u' :: a :: b :: c :: d :: rest) = none := by
  rw [readChars, hunit]
  simp only [h]
  split
  · rename_i e f g i more
    exact absurd rfl (hrest _)
  · rfl

end Units

/-- What a reader makes of a text alone. -/
def took {α : Type} (read : List Char → Reading α) (text : List Char) : Option α :=
  (read text).map Prod.fst

/-- A reader makes of a text what it makes of it alone, whatever follows that does not run on with it,
and takes no more than the text. -/
def Settled {α : Type} (read : List Char → Reading α) (text : List Char) : Prop :=
  ∀ rest, Closed rest → read (text ++ rest) = (took read text).map (·, rest)

theorem settled_of {α : Type} {read : List Char → Reading α} {text : List Char} {x : Option α}
    (h : ∀ rest, Closed rest → read (text ++ rest) = x.map (·, rest)) :
    Settled read text ∧ took read text = x := by
  have halone : took read text = x := by
    have hread := h [] .nil
    rw [List.append_nil] at hread
    rw [took, hread]
    cases x <;> rfl
  exact ⟨fun rest hr => halone ▸ h rest hr, halone⟩

/-- The rest of a string is settled whatever follows it. -/
def CharsSettled (text : List Char) : Prop :=
  ∀ acc rest, readChars acc (text ++ rest) = (took (readChars acc) text).map (·, rest)

theorem CharsSettled.plain {c : Char} {text : List Char} (hspace : 32 ≤ c.toNat) (hquote : c ≠ '"')
    (hslash : c ≠ '\\') (h : CharsSettled text) : CharsSettled (c :: text) := by
  intro acc rest
  simp only [took, List.cons_append, readChars_plain hquote hslash hspace]
  exact h (c :: acc) rest

theorem CharsSettled.short {letter : Char} {text : List Char}
    (hletter : letter ∈ ['"', '\\', '/', 'b', 'f', 'n', 'r', 't']) (h : CharsSettled text) :
    CharsSettled ('\\' :: letter :: text) := by
  obtain ⟨c, hc⟩ := shortEscape?_isSome hletter
  intro acc rest
  simp only [took, List.cons_append, readChars_short hc]
  exact h (c :: acc) rest

section Units

variable {a b c d : Char} {n : Nat} {text : List Char} (hunit : unit? a b c d = some n)
include hunit

theorem CharsSettled.unit {char : Char} (hplain : plainUnit? n = some char) (h : CharsSettled text) :
    CharsSettled ('\\' :: 'u' :: a :: b :: c :: d :: text) := by
  intro acc rest
  simp only [took, List.cons_append, readChars_unit hunit hplain]
  exact h (char :: acc) rest

theorem CharsSettled.half (hplain : plainUnit? n = none)
    (hrest : ∀ rest more, text ++ rest ≠ '\\' :: 'u' :: more) :
    CharsSettled ('\\' :: 'u' :: a :: b :: c :: d :: text) := by
  intro acc rest
  have halone := hrest []
  rw [List.append_nil] at halone
  simp only [took, List.cons_append, readChars_half hunit hplain (hrest rest),
    readChars_half hunit hplain halone]
  rfl

theorem CharsSettled.pair (hplain : plainUnit? n = none) (e f g i : Char) (h : CharsSettled text) :
    CharsSettled ('\\' :: 'u' :: a :: b :: c :: d :: '\\' :: 'u' :: e :: f :: g :: i :: text) := by
  intro acc rest
  simp only [took, List.cons_append, readChars_pair hunit hplain]
  cases (unit? e f g i).bind (pair? n) with
  | none => rfl
  | some char => exact h (char :: acc) rest

/-- The other half of a pair has to follow at once. -/
theorem CharsSettled.surrogate (hplain : plainUnit? n = none) (htail : StringTail text)
    (hlater : ∀ e f g i tail, text = '\\' :: 'u' :: e :: f :: g :: i :: tail → CharsSettled tail) :
    CharsSettled ('\\' :: 'u' :: a :: b :: c :: d :: text) := by
  cases htail with
  | close => exact .half hunit hplain fun _ _ h => by cases h
  | plain hspace hquote hslash => exact .half hunit hplain fun _ _ h => hslash (List.cons.inj h).1
  | short hletter =>
    refine .half hunit hplain fun _ _ h => ?_
    cases h
    exact absurd hletter (by decide)
  | @unit e f g i tail => exact .pair hunit hplain e f g i (hlater e f g i tail rfl)

end Units

theorem StringTail.settled {text : List Char} (h : StringTail text) : CharsSettled text := by
  -- behind a half of a pair the text after the other half has to be settled too
  suffices hboth : CharsSettled text ∧ ∀ a b c d tail,
      text = '\\' :: 'u' :: a :: b :: c :: d :: tail → CharsSettled tail from hboth.1
  induction h with
  | close =>
    refine ⟨fun _ _ => rfl, fun a b c d tail heq => ?_⟩
    cases heq
  | plain hspace hquote hslash _ ih =>
    refine ⟨ih.1.plain hspace hquote hslash, fun a b c d tail heq => ?_⟩
    exact absurd (List.cons.inj heq).1 hslash
  | short hletter _ ih =>
    refine ⟨ih.1.short hletter, fun a b c d tail heq => ?_⟩
    cases heq
    exact absurd hletter (by decide)
  | unit ha hb hc hd htail ih =>
    obtain ⟨n, hn⟩ := unit?_isSome ha hb hc hd
    refine ⟨?_, fun a b c d tail heq => ?_⟩
    · cases hplain : plainUnit? n with
      | some char => exact ih.1.unit hn hplain
      | none => exact .surrogate hn hplain htail ih.2
    · cases heq
      exact ih.1

/-! ### Numbers and words -/

theorem NumberText.numeral {text : List Char} (h : NumberText text) :
    ∃ n, NumeralText n text := by
  obtain ⟨hsign, hwhole, hfraction, hexponent⟩ := h
  rename_i sign whole fraction exponent
  have hw : WholeText whole := by
    rcases hwhole with rfl | ⟨⟨hne, hall⟩, hzero⟩
    · exact .zero
    · cases whole with
      | nil => exact absurd rfl hne
      | cons d ds => exact .digits (by simpa using hzero) hall
  have hf : ∃ f, FractionText f fraction := by
    rcases hfraction with rfl | ⟨digits, ⟨hne, hall⟩, rfl⟩
    · exact ⟨_, .none⟩
    · exact ⟨_, .some hne hall⟩
  have he : ∃ e, ExponentText e exponent := by
    rcases hexponent with rfl | ⟨mark, sign, digits, hmark, hmarked, ⟨hne, hall⟩, rfl⟩
    · exact ⟨_, .none⟩
    · exact ⟨_, .some hmark hmarked hne hall⟩
  obtain ⟨f, hf⟩ := hf
  obtain ⟨e, he⟩ := he
  rcases hsign with rfl | rfl
  · exact ⟨_, numeralText hw hf he false⟩
  · exact ⟨_, numeralText hw hf he true⟩

/-- How a text starts that is neither a container nor the end of one. -/
def StartsScalar (text : List Char) : Prop :=
  ∃ c more, text = c :: more ∧ isBlank c = false ∧ c ≠ '[' ∧ c ≠ '{' ∧ c ≠ ']'

theorem NumeralText.head {n : Numeral} {text : List Char} (h : NumeralText n text) :
    ∃ c more, text = c :: more ∧ ∀ d, d ≠ '-' → d.isDigit = false → c ≠ d := by
  have hread := h [] .nil
  rw [List.append_nil] at hread
  cases text with
  | nil => exact absurd hread (by simp [readNumeral, readWhole, readDigits])
  | cons c more => exact ⟨c, more, rfl, readNumeral_head hread⟩

theorem ScalarText.starts {text : List Char} (h : ScalarText text) : StartsScalar text := by
  cases h with
  | null | true | false | string => exact ⟨_, _, rfl, rfl, by decide, by decide, by decide⟩
  | number h =>
    obtain ⟨n, hn⟩ := h.numeral
    obtain ⟨c, more, rfl, hc⟩ := hn.head
    exact ⟨c, more, rfl, not_blank_of_head hc, hc '[' (by decide) rfl, hc '{' (by decide) rfl,
      hc ']' (by decide) rfl⟩

theorem readScalar_numeral {n : Numeral} {text rest : List Char} (h : NumeralText n text)
    (hr : Closed rest) :
    readScalar (text ++ rest) = (n.number?.map Json.number).map (·, rest) := by
  have hread := h rest hr
  obtain ⟨c, more, rfl, hc⟩ := h.head
  rw [List.cons_append] at hread ⊢
  rw [readScalar_number hc, readNumber_eq, hread, Option.bind_some]
  cases n.number? <;> rfl

theorem ScalarText.settled_readScalar {text : List Char} (h : ScalarText text) :
    Settled readScalar text := by
  intro rest hr
  cases h with
  | null | true | false => rfl
  | number h =>
    obtain ⟨n, hn⟩ := h.numeral
    exact (settled_of fun rest hr => readScalar_numeral hn hr).1 rest hr
  | @string tail h =>
    have halone : took readScalar ('"' :: tail) = (took (readChars []) tail).map .string := by
      rw [took, took, readScalar, Option.map_map, Option.map_map]
      rfl
    rw [halone, List.cons_append, readScalar, h.settled]
    cases took (readChars []) tail <;> rfl

theorem ScalarText.settled {text : List Char} (h : ScalarText text) (depth : Nat) :
    Settled (readValue depth) text := by
  obtain ⟨c, more, heq, hblank, harray, hobject, -⟩ := h.starts
  have hsame (rest : List Char) : readValue depth (text ++ rest) = readScalar (text ++ rest) := by
    rw [heq, List.cons_append, readValue_scalar hblank harray hobject]
  have halone := hsame []
  rw [List.append_nil] at halone
  intro rest hr
  rw [took, hsame, halone]
  exact h.settled_readScalar rest hr

/-! ### Entries -/

theorem Blanks.skip {before : List Char} (h : Blanks before) (cs : List Char) :
    skipBlanks (before ++ cs) = skipBlanks cs :=
  List.dropWhile_append_of_pos h

theorem Blanks.closed {after : List Char} (h : Blanks after) {c : Char} (hc : c = ',' ∨ IsClose c)
    (rest : List Char) : Closed (after ++ c :: rest) := by
  have hblank : isBlank c = false := by
    rcases hc with rfl | hc
    · rfl
    · exact hc.not_blank
  exact closed_of_skipBlanks ((h.skip _).trans (skipBlanks_cons hblank rest)) hc

section Entries

variable {α : Type} {entry : List Char → Reading α} {close : Char}

def SkipsBlanks (entry : List Char → Reading α) : Prop :=
  ∀ before cs, Blanks before → entry (before ++ cs) = entry cs

theorem SeriesText.length_le {entries : List (List Char)} {text : List Char}
    (h : SeriesText entries text) : entries.length ≤ text.length + 1 := by
  induction h with
  | last => simp
  | more hbefore hafter _ ih =>
    simp only [List.length_cons, List.length_append]
    omega

theorem SeriesText.read {entries : List (List Char)} {text : List Char}
    (h : SeriesText entries text) (hclose : IsClose close) (hskips : SkipsBlanks entry)
    (hsettled : ∀ e ∈ entries, Settled entry e) {fuel : Nat} (hfuel : entries.length ≤ fuel)
    (acc : List α) (rest : List Char) :
    readSeries entry close fuel acc (text ++ close :: rest) =
      (entries.mapM (took entry)).map fun xs => (acc.reverse ++ xs, rest) := by
  induction h generalizing fuel acc with
  | @last before e after hbefore hafter =>
    obtain ⟨fuel, rfl⟩ : ∃ n, fuel = n + 1 := ⟨fuel - 1, by simp at hfuel; omega⟩
    have hread := hsettled e List.mem_cons_self _ (hafter.closed (.inr hclose) rest)
    have hskip : skipBlanks (after ++ close :: rest) = close :: rest :=
      (hafter.skip _).trans (skipBlanks_cons hclose.not_blank rest)
    rw [readSeries, List.append_assoc, hskips _ _ hbefore, List.append_assoc, hread]
    cases htook : took entry e with
    | none => simp [htook]
    | some x => simp [htook, hskip]
  | @more before e after text entries hbefore hafter _ ih =>
    obtain ⟨fuel, rfl⟩ : ∃ n, fuel = n + 1 := ⟨fuel - 1, by simp at hfuel; omega⟩
    have hread := hsettled e List.mem_cons_self _ (hafter.closed (.inl rfl) (text ++ close :: rest))
    have hskip : skipBlanks (after ++ ',' :: (text ++ close :: rest)) =
        ',' :: (text ++ close :: rest) := (hafter.skip _).trans (skipBlanks_cons rfl _)
    have hlater := ih (fun e he => hsettled e (List.mem_cons_of_mem _ he))
      (Nat.le_of_succ_le_succ hfuel)
    rw [readSeries, List.append_assoc, hskips _ _ hbefore, List.append_assoc, List.append_assoc,
      List.cons_append, hread, List.mapM_cons]
    cases htook : took entry e with
    | none => rfl
    | some x =>
      simp only [Option.map_some, hskip]
      rw [if_neg hclose.ne_comma, if_pos trivial, hlater (x :: acc)]
      cases entries.mapM (took entry) with
      | none => rfl
      | some xs => simp

/-- How an entry starts: the end of the container does not. -/
def StartsEntry (close : Char) (text : List Char) : Prop :=
  ∃ c more, text = c :: more ∧ isBlank c = false ∧ c ≠ close

theorem SeriesText.starts {entries : List (List Char)} {text : List Char}
    (h : SeriesText entries text) (hstarts : ∀ e ∈ entries, StartsEntry close e)
    (rest : List Char) :
    ∃ c more, skipBlanks (text ++ rest) = c :: more ∧ c ≠ close ∧
      entries.length ≤ more.length + 1 := by
  cases h with
  | @last before e after hbefore hafter =>
    obtain ⟨c, more, rfl, hblank, hne⟩ := hstarts e List.mem_cons_self
    refine ⟨c, more ++ (after ++ rest), ?_, hne, by simp⟩
    rw [List.append_assoc, hbefore.skip, List.append_assoc, List.cons_append, skipBlanks_cons hblank]
  | @more before e after text entries hbefore hafter h =>
    obtain ⟨c, more, rfl, hblank, hne⟩ := hstarts e List.mem_cons_self
    refine ⟨c, more ++ ((after ++ ',' :: text) ++ rest), ?_, hne, ?_⟩
    · rw [List.append_assoc, hbefore.skip, List.append_assoc, List.cons_append,
        skipBlanks_cons hblank]
    · have hlength := h.length_le
      simp only [List.length_cons, List.length_append]
      omega

theorem readSeries_skipBlanks (hskips : SkipsBlanks entry) (fuel : Nat) (acc : List α)
    (cs : List Char) :
    readSeries entry close fuel acc (skipBlanks cs) = readSeries entry close fuel acc cs := by
  have hentry : entry cs = entry (skipBlanks cs) := by
    conv_lhs => rw [← List.takeWhile_append_dropWhile (p := isBlank) (l := cs)]
    exact hskips _ _ fun c hc => List.all_eq_true.mp List.all_takeWhile c hc
  cases fuel with
  | zero => rfl
  | succ fuel => rw [readSeries, readSeries, hentry]

/-- A container is read as its entries are read, one by one. -/
theorem ContentsText.read {entries : List (List Char)} {text : List Char}
    (h : ContentsText entries text) (hclose : IsClose close) (hskips : SkipsBlanks entry)
    (hsettled : ∀ e ∈ entries, Settled entry e) (hstarts : ∀ e ∈ entries, StartsEntry close e)
    (rest : List Char) :
    readContents entry close (text ++ close :: rest) =
      (entries.mapM (took entry)).map (·, rest) := by
  cases h with
  | empty hblanks =>
    have hskip : skipBlanks (text ++ close :: rest) = close :: rest :=
      (hblanks.skip _).trans (skipBlanks_cons hclose.not_blank rest)
    simp [readContents, hskip]
  | series h =>
    obtain ⟨c, more, hskip, hne, hfuel⟩ := h.starts hstarts (close :: rest)
    have hread := h.read hclose hskips hsettled hfuel [] rest
    rw [readContents, hskip]
    dsimp only
    rw [if_neg hne, ← hskip, readSeries_skipBlanks hskips, hread]
    rfl

end Entries

/-! ### Members and values -/

theorem skipsBlanks_readValue (depth : Nat) : SkipsBlanks (readValue depth) := by
  intro before cs h
  cases depth with
  | zero => rw [readValue, readValue, h.skip]
  | succ depth => rw [readValue, readValue, h.skip]

theorem skipsBlanks_readMember (value : List Char → Reading Json) :
    SkipsBlanks (readMember value) := by
  intro before cs h
  rw [readMember, readMember, h.skip]

theorem MemberText.startsEntry {key value text : List Char} (h : MemberText key value text) :
    StartsEntry '}' text := by
  cases h
  exact ⟨_, _, rfl, rfl, by decide⟩

theorem MemberText.settled {value : List Char → Reading Json} {key v text : List Char}
    (h : MemberText key v text) (hkey : StringTail key) (hskips : SkipsBlanks value)
    (hsettled : Settled value v) :
    Settled (readMember value) text ∧ took (readMember value) text =
      (took (readChars []) key).bind fun k => (took value v).map (k, ·) := by
  refine settled_of fun rest hr => ?_
  cases h with
  | @mk before after hbefore hafter =>
    have hcolon : skipBlanks (before ++ ':' :: (after ++ (v ++ rest))) =
        ':' :: (after ++ (v ++ rest)) := (hbefore.skip _).trans (skipBlanks_cons rfl _)
    rw [readMember, List.cons_append, skipBlanks_cons rfl, List.append_assoc, List.append_assoc,
      List.cons_append, List.append_assoc]
    simp only [hkey.settled []]
    cases took (readChars []) key with
    | none => rfl
    | some k =>
      simp only [Option.map_some, hcolon, hskips _ _ hafter, hsettled rest hr]
      cases took value v <;> rfl

theorem ContentsText.settled_array {depth : Nat} {entries : List (List Char)} {text : List Char}
    (h : ContentsText entries text) (hsettled : ∀ e ∈ entries, Settled (readValue depth) e)
    (hstarts : ∀ e ∈ entries, StartsEntry ']' e) :
    Settled (readValue (depth + 1)) ('[' :: (text ++ [']'])) ∧
      took (readValue (depth + 1)) ('[' :: (text ++ [']'])) =
        (entries.mapM (took (readValue depth))).map .array := by
  refine settled_of fun rest _ => ?_
  rw [readValue, List.cons_append, skipBlanks_cons rfl, List.append_assoc, List.singleton_append]
  simp only [h.read (.inl rfl) (skipsBlanks_readValue depth) hsettled hstarts]
  cases entries.mapM (took (readValue depth)) <;> rfl

theorem ContentsText.settled_object {depth : Nat} {entries : List (List Char)} {text : List Char}
    (h : ContentsText entries text)
    (hsettled : ∀ e ∈ entries, Settled (readMember (readValue depth)) e)
    (hstarts : ∀ e ∈ entries, StartsEntry '}' e) :
    Settled (readValue (depth + 1)) ('{' :: (text ++ ['}'])) ∧
      took (readValue (depth + 1)) ('{' :: (text ++ ['}'])) =
        (entries.mapM (took (readMember (readValue depth)))).map .object := by
  refine settled_of fun rest _ => ?_
  rw [readValue, List.cons_append, skipBlanks_cons rfl, List.append_assoc, List.singleton_append]
  simp only [h.read (.inr rfl) (skipsBlanks_readMember _) hsettled hstarts]
  cases entries.mapM (took (readMember (readValue depth))) <;> rfl

/-- No container is read where none may be. -/
theorem settled_shallow {mark : Char} (hmark : mark = '[' ∨ mark = '{') (text : List Char) :
    Settled (readValue 0) (mark :: text) ∧ took (readValue 0) (mark :: text) = none := by
  refine settled_of fun rest _ => ?_
  have hblank : isBlank mark = false := by
    rcases hmark with rfl | rfl <;> rfl
  rw [readValue, List.cons_append, skipBlanks_cons hblank]
  cases h : readScalar (mark :: (text ++ rest)) with
  | none => rfl
  | some r =>
    obtain ⟨harray, hobject, -⟩ := readScalar_head h
    exact absurd hmark (not_or.mpr ⟨harray, hobject⟩)

end Json

end ContextServer
