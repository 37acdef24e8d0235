import ContextServer.Proofs.Json.Grammar
import Mathlib.Data.List.Forall2
import Mathlib.Data.List.Perm.Basic

/-!
The order of members. Texts that differ in it, at any level, are read as values that differ in it, or
neither is read.
-/

namespace ContextServer

namespace Json

/-! ### Values and texts -/

inductive SameKey (R : Json → Json → Prop) : String × Json → String × Json → Prop where
  | mk (key : String) {v v' : Json} (h : R v v') : SameKey R (key, v) (key, v')

/-- Two values that differ in the order of members alone. -/
inductive Reordered : Json → Json → Prop where
  | refl (v : Json) : Reordered v v
  | array {items items' : List Json} (h : List.Forall₂ Reordered items items') :
    Reordered (.array items) (.array items')
  | object {members moved members' : List (String × Json)}
    (h : List.Forall₂ (SameKey Reordered) members moved) (hperm : moved.Perm members') :
    Reordered (.object members) (.object members')

/-- A member in two texts: its key, after the opening quote, and its value in either text. -/
structure MemberTexts where
  key : List Char
  value : List Char
  value' : List Char

/-- Two texts of values that differ in the order of members and in blanks alone. -/
inductive RearrangedValue : List Char → List Char → Prop where
  | scalar {text : List Char} (h : ScalarText text) : RearrangedValue text text
  | array {items : List (List Char × List Char)} {text text' : List Char}
    (hitems : ∀ item ∈ items, RearrangedValue item.1 item.2)
    (h : ContentsText (items.map Prod.fst) text) (h' : ContentsText (items.map Prod.snd) text') :
    RearrangedValue ('[' :: (text ++ [']'])) ('[' :: (text' ++ [']']))
  | object {members moved : List MemberTexts} {entries entries' : List (List Char)}
    {text text' : List Char} (hkeys : ∀ m ∈ members, StringTail m.key)
    (hvalues : ∀ m ∈ members, RearrangedValue m.value m.value') (hperm : members.Perm moved)
    (hentries : List.Forall₂ (fun m e => MemberText m.key m.value e) members entries)
    (hentries' : List.Forall₂ (fun m e => MemberText m.key m.value' e) moved entries')
    (h : ContentsText entries text) (h' : ContentsText entries' text') :
    RearrangedValue ('{' :: (text ++ ['}'])) ('{' :: (text' ++ ['}']))

inductive Rearranged : String → String → Prop where
  | mk {before after before' after' text text' : List Char} (hbefore : Blanks before)
    (hafter : Blanks after) (hbefore' : Blanks before') (hafter' : Blanks after')
    (h : RearrangedValue text text') :
    Rearranged (String.ofList (before ++ (text ++ after)))
      (String.ofList (before' ++ (text' ++ after')))

theorem MemberText.bare (key value : List Char) :
    MemberText key value ('"' :: (key ++ ':' :: value)) :=
  @MemberText.mk key value [] [] nofun nofun

theorem ContentsText.pair (entry entry' : List Char) :
    ContentsText [entry, entry'] (entry ++ ',' :: entry') := by
  have hlast := @SeriesText.last [] entry' [] nofun nofun
  have hboth := @SeriesText.more [] entry [] _ _ nofun nofun hlast
  simp only [List.nil_append, List.append_nil] at hboth
  exact .series hboth

theorem RearrangedValue.swap {m m' : MemberTexts} (hkey : StringTail m.key)
    (hkey' : StringTail m'.key) (hvalue : RearrangedValue m.value m.value')
    (hvalue' : RearrangedValue m'.value m'.value') :
    RearrangedValue
      ('{' :: ('"' :: (m.key ++ ':' :: m.value) ++ ',' :: '"' :: (m'.key ++ ':' :: m'.value) ++ ['}']))
      ('{' :: ('"' :: (m'.key ++ ':' :: m'.value') ++ ',' :: '"' :: (m.key ++ ':' :: m.value') ++
        ['}'])) := by
  have hkeys : ∀ x ∈ [m, m'], StringTail x.key := by simp [hkey, hkey']
  have hvalues : ∀ x ∈ [m, m'], RearrangedValue x.value x.value' := by simp [hvalue, hvalue']
  exact .object hkeys hvalues (.swap m' m [])
    (.cons (.bare m.key m.value) (.cons (.bare m'.key m'.value) .nil))
    (.cons (.bare m'.key m'.value') (.cons (.bare m.key m.value') .nil)) (.pair _ _) (.pair _ _)

/-! ### Results that may be missing -/

section Related

variable {α β γ δ : Type} {R : α → β → Prop} {S : γ → δ → Prop}

theorem related_refl {R : α → α → Prop} (h : ∀ x, R x x) (x : Option α) : Option.Rel R x x := by
  cases x with
  | none => exact .none
  | some x => exact .some (h x)

theorem related_bind {x : Option α} {y : Option β} (h : Option.Rel R x y) {f : α → Option γ}
    {g : β → Option δ} (hfg : ∀ a b, R a b → Option.Rel S (f a) (g b)) :
    Option.Rel S (x.bind f) (y.bind g) := by
  cases h with
  | none => exact .none
  | some hR => exact hfg _ _ hR

theorem related_map {x : Option α} {y : Option β} (h : Option.Rel R x y) {f : α → γ} {g : β → δ}
    (hfg : ∀ a b, R a b → S (f a) (g b)) : Option.Rel S (x.map f) (y.map g) := by
  cases h with
  | none => exact .none
  | some hR => exact .some (hfg _ _ hR)

theorem related_trans {T : β → γ → Prop} {U : α → γ → Prop} {x : Option α} {y : Option β}
    {z : Option γ} (h : Option.Rel R x y) (h' : Option.Rel T y z)
    (hRT : ∀ a b c, R a b → T b c → U a c) : Option.Rel U x z := by
  cases h with
  | none =>
    cases h'
    exact .none
  | some hR =>
    cases h' with
    | some hT => exact .some (hRT _ _ _ hR hT)

theorem getElem?_related {xs : List α} {ys : List β} (h : List.Forall₂ R xs ys) (i : Nat) :
    Option.Rel R xs[i]? ys[i]? := by
  induction h generalizing i with
  | nil => exact .none
  | cons hR _ ih =>
    cases i with
    | zero => exact .some hR
    | succ i => exact ih i

theorem mapM_related {f : α → Option γ} {g : β → Option δ} {xs : List α} {ys : List β}
    (h : List.Forall₂ (fun x y => Option.Rel S (f x) (g y)) xs ys) :
    Option.Rel (List.Forall₂ S) (xs.mapM f) (ys.mapM g) := by
  induction h with
  | nil => exact .some .nil
  | cons hxy _ ih =>
    rw [List.mapM_cons, List.mapM_cons]
    exact related_bind hxy fun a b hab => related_bind ih fun as bs habs => .some (.cons hab habs)

theorem mapM_of_forall₂ {f : α → Option γ} {g : β → Option γ} {xs : List α} {ys : List β}
    (h : List.Forall₂ (fun x y => f x = g y) xs ys) : xs.mapM f = ys.mapM g := by
  induction h with
  | nil => rfl
  | cons hxy _ ih => rw [List.mapM_cons, List.mapM_cons, hxy, ih]

theorem mapM_perm (f : α → Option γ) {xs ys : List α} (h : xs.Perm ys) :
    Option.Rel List.Perm (xs.mapM f) (ys.mapM f) := by
  induction h with
  | nil => exact .some .nil
  | cons x _ ih =>
    rw [List.mapM_cons, List.mapM_cons]
    refine related_bind (related_refl Eq.refl (f x)) fun y y' hy => ?_
    exact related_bind ih fun ys ys' hys => .some (hy ▸ hys.cons y)
  | swap x y xs =>
    simp only [List.mapM_cons]
    cases f x with
    | none => cases f y <;> exact .none
    | some a =>
      cases f y with
      | none => exact .none
      | some b =>
        cases xs.mapM f with
        | none => exact .none
        | some as => exact .some (.swap a b as)
  | trans _ _ ih ih' => exact related_trans ih ih' fun _ _ _ => .trans

end Related

/-! ### Readings -/

/-- What is read of two texts: neither runs on, and the values differ in the order of members alone. -/
structure ReadAlike (depth : Nat) (text text' : List Char) : Prop where
  settled : Settled (readValue depth) text
  settled' : Settled (readValue depth) text'
  values : Option.Rel Reordered (took (readValue depth) text) (took (readValue depth) text')

theorem readAlike_shallow {mark : Char} (hmark : mark = '[' ∨ mark = '{') (text text' : List Char) :
    ReadAlike 0 (mark :: text) (mark :: text') := by
  obtain ⟨hs, htook⟩ := settled_shallow hmark text
  obtain ⟨hs', htook'⟩ := settled_shallow hmark text'
  refine ⟨hs, hs', ?_⟩
  rw [htook, htook']
  exact .none

theorem RearrangedValue.starts {text text' : List Char} (h : RearrangedValue text text') :
    StartsEntry ']' text ∧ StartsEntry ']' text' := by
  cases h with
  | scalar h =>
    obtain ⟨c, more, rfl, hblank, -, -, hclose⟩ := h.starts
    exact ⟨⟨c, more, rfl, hblank, hclose⟩, c, more, rfl, hblank, hclose⟩
  | array | object => exact ⟨⟨_, _, rfl, rfl, by decide⟩, _, _, rfl, rfl, by decide⟩

def tookMember (depth : Nat) (key value : List Char) : Option (String × Json) :=
  (took (readChars []) key).bind fun k => (took (readValue depth) value).map (k, ·)

/-- An object is read as its members are, one by one. -/
theorem settled_members {depth : Nat} {members : List MemberTexts} {value : MemberTexts → List Char}
    {entries : List (List Char)} {text : List Char} (hkeys : ∀ m ∈ members, StringTail m.key)
    (hvalues : ∀ m ∈ members, Settled (readValue depth) (value m))
    (hentries : List.Forall₂ (fun m e => MemberText m.key (value m) e) members entries)
    (h : ContentsText entries text) :
    Settled (readValue (depth + 1)) ('{' :: (text ++ ['}'])) ∧
      took (readValue (depth + 1)) ('{' :: (text ++ ['}'])) =
        (members.mapM fun m => tookMember depth m.key (value m)).map .object := by
  have hread : List.Forall₂ (fun e m => StartsEntry '}' e ∧
      Settled (readMember (readValue depth)) e ∧
      took (readMember (readValue depth)) e = tookMember depth m.key (value m)) entries members := by
    refine (List.Forall₂.imp (fun m e hm => ?_) ((List.forall₂_and_left _ _).mpr
      ⟨fun m hm => And.intro (hkeys m hm) (hvalues m hm), hentries⟩)).flip
    obtain ⟨⟨hkey, hvalue⟩, hentry⟩ := hm
    obtain ⟨hsettled, htook⟩ := hentry.settled hkey (skipsBlanks_readValue depth) hvalue
    exact ⟨hentry.startsEntry, hsettled, htook⟩
  rw [List.forall₂_and_left, List.forall₂_and_left] at hread
  obtain ⟨hstarts, hsettled, hsame⟩ := hread
  rw [← mapM_of_forall₂ hsame]
  exact h.settled_object hsettled hstarts

theorem RearrangedValue.read {text text' : List Char} (h : RearrangedValue text text')
    (depth : Nat) : ReadAlike depth text text' := by
  induction h generalizing depth with
  | scalar h => exact ⟨h.settled depth, h.settled depth, related_refl .refl _⟩
  | @array items text text' hitems h h' ih =>
    cases depth with
    | zero => exact readAlike_shallow (.inl rfl) _ _
    | succ depth =>
      have hread : ∀ text ∈ items.map Prod.fst,
          Settled (readValue depth) text ∧ StartsEntry ']' text := by
        simpa using fun _ _ hp => ⟨(ih _ hp depth).settled, (hitems _ hp).starts.1⟩
      have hread' : ∀ text ∈ items.map Prod.snd,
          Settled (readValue depth) text ∧ StartsEntry ']' text := by
        simpa using fun _ _ hp => ⟨(ih _ hp depth).settled', (hitems _ hp).starts.2⟩
      obtain ⟨hs, htook⟩ :=
        h.settled_array (fun text ht => (hread text ht).1) fun text ht => (hread text ht).2
      obtain ⟨hs', htook'⟩ :=
        h'.settled_array (fun text ht => (hread' text ht).1) fun text ht => (hread' text ht).2
      refine ⟨hs, hs', ?_⟩
      rw [htook, htook']
      have hvalues : List.Forall₂ (fun item item' => Option.Rel Reordered
          (took (readValue depth) item) (took (readValue depth) item'))
          (items.map Prod.fst) (items.map Prod.snd) := by
        rw [List.forall₂_map_left_iff, List.forall₂_map_right_iff, List.forall₂_same]
        exact fun item hitem => (ih item hitem depth).values
      exact related_map (mapM_related hvalues) fun _ _ => .array
  | @object members moved entries entries' text text' hkeys hvalues hperm hentries hentries' h h' ih =>
    cases depth with
    | zero => exact readAlike_shallow (.inr rfl) _ _
    | succ depth =>
      obtain ⟨hs, htook⟩ := settled_members hkeys (fun m hm => (ih m hm depth).settled) hentries h
      obtain ⟨hs', htook'⟩ := settled_members (fun m hm => hkeys m (hperm.mem_iff.mpr hm))
        (fun m hm => (ih m (hperm.mem_iff.mpr hm) depth).settled') hentries' h'
      refine ⟨hs, hs', ?_⟩
      rw [htook, htook']
      have hmembers : List.Forall₂ (fun m m' => Option.Rel (SameKey Reordered)
          (tookMember depth m.key m.value) (tookMember depth m'.key m'.value')) members members := by
        rw [List.forall₂_same]
        intro m hm
        refine related_bind (related_refl Eq.refl _) fun k k' hkey => ?_
        exact related_map (ih m hm depth).values fun v v' hv => hkey ▸ .mk k hv
      have hread := related_trans (U := fun ms ms' => Reordered (.object ms) (.object ms'))
        (mapM_related hmembers) (mapM_perm _ hperm) fun _ _ _ => .object
      exact related_map hread fun _ _ => id

/-! ### Whole texts -/

theorem Blanks.closed_nil {after : List Char} (h : Blanks after) : Closed after := by
  cases after with
  | nil => exact .nil
  | cons c more => exact .blank (h c List.mem_cons_self) more

theorem ofWritten?_of_settled {text before after : List Char} (h : Settled (readValue maxDepth) text)
    (hbefore : Blanks before) (hafter : Blanks after) :
    ofWritten? (String.ofList (before ++ (text ++ after))) = took (readValue maxDepth) text := by
  have hskip : skipBlanks after = [] := by
    rw [← List.append_nil after, hafter.skip]
    rfl
  rw [ofWritten?, String.toList_ofList, skipsBlanks_readValue maxDepth before _ hbefore,
    h after hafter.closed_nil]
  cases took (readValue maxDepth) text with
  | none => rfl
  | some v => simp only [Option.map_some, hskip, List.isEmpty_nil, if_true]

theorem ofWritten?_rearranged {text text' : String} (h : Rearranged text text') :
    Option.Rel Reordered (ofWritten? text) (ofWritten? text') := by
  obtain ⟨hbefore, hafter, hbefore', hafter', h⟩ := h
  have hread := h.read maxDepth
  rw [ofWritten?_of_settled hread.settled hbefore hafter,
    ofWritten?_of_settled hread.settled' hbefore' hafter']
  exact hread.values

end Json

end ContextServer
