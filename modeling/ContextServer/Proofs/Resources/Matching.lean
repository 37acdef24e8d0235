import ContextServer.Proofs.Json.Canonical
import ContextServer.Proofs.Json.Printing
import ContextServer.UriTemplate
import Mathlib.Data.List.Infix
import Mathlib.Data.List.Nodup
import Mathlib.Data.List.TakeWhile

/-!
What a match says. The URI is the template written out: each placeholder, in order, has given way to a
text of its own that is not empty. A name is bound to what its last placeholder took, so that the
bindings alone give the URI back where placeholders of one name took one text. A template that leaves
a placeholder open matches nothing.
-/

namespace ContextServer

/-! ### Writing a template out -/

/-- The template written out with the texts taken: the first closed placeholder gives way to the first
of them, and so on; all else stands for itself. -/
inductive Fills : List Char → List (String × String) → List Char → Prop
  | done : Fills [] [] []
  | plain {c : Char} {template uri : List Char} {taken : List (String × String)} (hc : c ≠ '{')
      (rest : Fills template taken uri) : Fills (c :: template) taken (c :: uri)
  | placeholder (name text : List Char) {template uri : List Char} {taken : List (String × String)}
      (hname : '}' ∉ name) (rest : Fills template taken uri) :
      Fills ('{' :: (name ++ '}' :: template)) ((String.ofList name, String.ofList text) :: taken)
        (text ++ uri)

namespace Fills

variable {template uri : List Char} {taken : List (String × String)}

theorem plains {literal : List Char} (hliteral : '{' ∉ literal) (rest : Fills template taken uri) :
    Fills (literal ++ template) taken (literal ++ uri) := by
  induction literal with
  | nil => exact rest
  | cons c literal ih =>
    rw [List.mem_cons, not_or] at hliteral
    exact .plain (Ne.symm hliteral.1) (ih hliteral.2)

/-- In a template that can be written out, every brace that opens is followed by one that closes. -/
theorem closed (h : Fills template taken uri) {after : List Char}
    (hopen : '{' :: after <:+ template) : '}' ∈ after := by
  induction h with
  | done => cases List.suffix_nil.mp hopen
  | plain hc _ ih =>
    rcases List.suffix_cons_iff.mp hopen with heq | hrest
    · exact absurd (List.cons.inj heq).1.symm hc
    · exact ih hrest
  | @placeholder name text template uri taken _ _ ih =>
    have hclose : '}' :: template <:+ '{' :: (name ++ '}' :: template) :=
      List.suffix_append ('{' :: name) _
    -- the brace stands after the end of the placeholder, or the end after it
    rcases List.suffix_or_suffix_of_suffix hopen hclose with hafter | hbefore
    · rcases List.suffix_cons_iff.mp hafter with heq | hrest
      · exact absurd (List.cons.inj heq).1 (by decide)
      · exact ih hrest
    · have hmem : '}' ∈ '{' :: after := hbefore.subset List.mem_cons_self
      simpa using hmem

/-- A template and the texts taken give one URI. -/
theorem unique {other : List Char} (h : Fills template taken uri) (h' : Fills template taken other) :
    uri = other := by
  induction h generalizing other with
  | done => cases h'; rfl
  | plain hc _ ih =>
    generalize hwhole : _ :: _ = whole at h'
    cases h' with
    | done => cases hwhole
    | plain _ rest =>
      obtain ⟨rfl, rfl⟩ := List.cons.inj hwhole
      rw [ih rest]
    | placeholder _ _ _ _ => exact absurd (List.cons.inj hwhole).1 hc
  | @placeholder name text template uri taken hname _ ih =>
    generalize hwhole : '{' :: (name ++ '}' :: template) = whole at h'
    generalize htexts : _ :: _ = texts at h'
    cases h' with
    | done => cases hwhole
    | plain hc _ => exact absurd (List.cons.inj hwhole).1.symm hc
    | placeholder _ _ hname' rest =>
      obtain ⟨htext, rfl⟩ := List.cons.inj htexts
      have hcut := (List.cons.inj hwhole).2
      obtain rfl := append_mark_inj hname hname' hcut
      have htemplate := (List.cons.inj (List.append_cancel_left hcut)).2
      subst htemplate
      rw [ih rest, String.ofList_injective (Prod.mk.inj htext).2]

end Fills

/-! ### The pieces of a template -/

namespace Segment

/-- A piece as the template writes it. -/
def written : Segment → List Char
  | literal text => text
  | placeholder name => '{' :: (name ++ ['}'])

/-- A piece that is read back as it was written: no brace opens in a literal, none closes in a name. -/
def Sound : Segment → Prop
  | literal text => '{' ∉ text
  | placeholder name => '}' ∉ name

theorem not_mem_takeWhile (mark : Char) (cs : List Char) : mark ∉ cs.takeWhile (· ≠ mark) := by
  intro h
  simpa using List.mem_takeWhile_imp h

theorem eq_takeWhile_append_cons {mark c : Char} {cs rest : List Char}
    (h : cs.dropWhile (· ≠ mark) = c :: rest) : cs.takeWhile (· ≠ mark) ++ mark :: rest = cs := by
  have hstop := List.head?_dropWhile_not (fun x => decide (x ≠ mark)) cs
  rw [h] at hstop
  obtain rfl : c = mark := by simpa using hstop
  rw [← h, List.takeWhile_append_dropWhile]

/-- A literal that is left out when it is empty. -/
theorem written_lead (lead : List Char) :
    (if lead.isEmpty then [] else [literal lead]).flatMap written = lead := by
  split
  · rename_i hempty
    exact (List.isEmpty_iff.mp hempty).symm
  · exact List.append_nil lead

theorem sound_lead {lead : List Char} (hlead : '{' ∉ lead) {piece : Segment}
    (h : piece ∈ if lead.isEmpty then [] else [literal lead]) : piece.Sound := by
  split at h
  · cases h
  · rw [List.mem_singleton.mp h]
    exact hlead

/-- The pieces of a template, written one after the other, are the template. -/
theorem split_some {fuel : Nat} {cs : List Char} {segments : List Segment}
    (h : split fuel cs = some segments) :
    segments.flatMap written = cs ∧ ∀ piece ∈ segments, piece.Sound := by
  fun_induction split fuel cs generalizing segments with
  | case1 =>
    cases h
    exact ⟨rfl, nofun⟩
  | case2 => cases h
  | case3 =>
    rename_i cs _ lead hplain
    cases h
    refine ⟨?_, fun piece hpiece => ?_⟩
    · calc [literal lead].flatMap written = cs.takeWhile (· ≠ '{') ++ [] := rfl
        _ = cs := by rw [← hplain, List.takeWhile_append_dropWhile]
    · rw [List.mem_singleton.mp hpiece]
      exact not_mem_takeWhile '{' cs
  | case4 => cases h
  | case5 =>
    rename_i cs _ lead _ inside hopen name _ after hclose ih
    obtain ⟨rest, hrest, rfl⟩ := Option.map_eq_some_iff.mp h
    obtain ⟨hwritten, hsound⟩ := ih hrest
    refine ⟨?_, fun piece hpiece => ?_⟩
    · rw [List.flatMap_append, written_lead, List.flatMap_cons, hwritten]
      calc lead ++ (written (placeholder name) ++ after)
          = lead ++ '{' :: (name ++ '}' :: after) := by simp [written]
        _ = lead ++ '{' :: inside := by rw [eq_takeWhile_append_cons hclose]
        _ = cs := eq_takeWhile_append_cons hopen
    · rcases List.mem_append.mp hpiece with hlead | hlater
      · exact sound_lead (not_mem_takeWhile '{' cs) hlead
      · rcases List.mem_cons.mp hlater with rfl | hlater
        · exact not_mem_takeWhile '}' inside
        · exact hsound piece hlater

end Segment

/-! ### What is bound -/

theorem lookup_bindName (name value other : String) (bound : Bindings) :
    (bindName name value bound).lookup other =
      if other = name then some value else bound.lookup other := by
  induction bound with
  | nil => exact Json.lookup_cons_ite name other value []
  | cons binding rest ih =>
    obtain ⟨first, text⟩ := binding
    simp only [bindName]
    split
    · rename_i hname
      subst hname
      simp only [Json.lookup_cons_ite]
      split <;> rfl
    · rename_i hname
      rw [Json.lookup_cons_ite, Json.lookup_cons_ite, ih]
      by_cases h : other = first
      · subst h
        rw [if_pos rfl, if_pos rfl, if_neg hname]
      · rw [if_neg h, if_neg h]

theorem mem_bindName {name value : String} {bound : Bindings} {binding : String × String}
    (h : binding ∈ bindName name value bound) : binding ∈ bound ∨ binding = (name, value) := by
  induction bound with
  | nil => exact .inr (List.mem_singleton.mp h)
  | cons first rest ih =>
    simp only [bindName] at h
    split at h
    · rcases List.mem_cons.mp h with rfl | hrest
      · exact .inr rfl
      · exact .inl (List.mem_cons_of_mem _ hrest)
    · rcases List.mem_cons.mp h with rfl | hrest
      · exact .inl List.mem_cons_self
      · exact (ih hrest).imp_left (List.mem_cons_of_mem _)

/-- The texts taken, bound one after the other. -/
def bindAll (bound : Bindings) (taken : List (String × String)) : Bindings :=
  taken.foldl (fun bound binding => bindName binding.1 binding.2 bound) bound

/-- Of the texts taken under one name, the last is bound. -/
theorem lookup_bindAll (bound : Bindings) (taken : List (String × String)) (name : String) :
    (bindAll bound taken).lookup name = (taken.reverse.lookup name).or (bound.lookup name) := by
  induction taken generalizing bound with
  | nil => rfl
  | cons first rest ih =>
    have hfirst : (bindName first.1 first.2 bound).lookup name =
        ([first].lookup name).or (bound.lookup name) := by
      rw [lookup_bindName, Json.lookup_cons_ite]
      split <;> rfl
    calc (bindAll (bindName first.1 first.2 bound) rest).lookup name
        = (rest.reverse.lookup name).or ((bindName first.1 first.2 bound).lookup name) := ih _
      _ = ((first :: rest).reverse.lookup name).or (bound.lookup name) := by
        rw [hfirst, List.reverse_cons, List.lookup_append, Option.or_assoc]

theorem mem_bindAll {bound : Bindings} {taken : List (String × String)} {binding : String × String}
    (h : binding ∈ bindAll bound taken) : binding ∈ bound ∨ binding ∈ taken := by
  induction taken generalizing bound with
  | nil => exact .inl h
  | cons first rest ih =>
    rcases ih h with hbound | hrest
    · rcases mem_bindName hbound with hold | rfl
      · exact .inl hold
      · exact .inr List.mem_cons_self
    · exact .inr (List.mem_cons_of_mem _ hrest)

/-! ### What a match says -/

theorem afterLiteral?_some {literal cs rest : List Char} (h : afterLiteral? literal cs = some rest) :
    cs = literal ++ rest := by
  fun_induction afterLiteral? literal cs with
  | case1 => exact Option.some.inj h
  | case2 => cases h
  | case3 _ _ _ ih => rw [ih h, List.cons_append]
  | case4 => cases h

theorem positionOf?_le {literal cs : List Char} {n : Nat} (h : positionOf? literal cs = some n) :
    n ≤ cs.length := by
  fun_induction positionOf? literal cs generalizing n with
  | case1 =>
    cases h
    exact Nat.zero_le _
  | case2 => cases h
  | case3 =>
    cases h
    exact Nat.zero_le _
  | case4 c rest _ ih =>
    obtain ⟨m, hm, rfl⟩ := Option.map_eq_some_iff.mp h
    exact Nat.succ_le_succ (ih hm)

/-- A placeholder takes no more than is left. -/
theorem boundLength?_le {next : List Segment} {cs : List Char} {n : Nat}
    (h : boundLength? next cs = some n) : n ≤ cs.length := by
  unfold boundLength? at h
  split at h
  · exact (Option.some.inj h).ge
  · exact positionOf?_le h
  · rw [← Option.some.inj h]
    exact List.takeWhile_sublist _ |>.length_le

/-- Matched pieces are written out with the texts that were taken, and these are bound in order. -/
theorem matchSegments_some {bound result : Bindings} {segments : List Segment} {cs : List Char}
    (sound : ∀ piece ∈ segments, piece.Sound) (h : matchSegments bound segments cs = some result) :
    ∃ taken, Fills (segments.flatMap Segment.written) taken cs ∧
      taken.map Prod.fst = Segment.names segments ∧ (∀ binding ∈ taken, binding.2 ≠ "") ∧
      result = bindAll bound taken := by
  fun_induction matchSegments bound segments cs with
  | case1 bound =>
    cases h
    exact ⟨[], .done, rfl, nofun, rfl⟩
  | case2 => cases h
  | case3 bound text rest cs left hleft ih =>
    obtain ⟨taken, hfills, hnames, hsome, hresult⟩ :=
      ih (fun piece hpiece => sound piece (List.mem_cons_of_mem _ hpiece)) h
    refine ⟨taken, ?_, hnames, hsome, hresult⟩
    rw [afterLiteral?_some hleft]
    exact .plains (sound _ List.mem_cons_self) hfills
  | case4 => cases h
  | case5 => cases h
  | case6 => cases h
  | case7 bound name rest cs n hn hlength ih =>
    obtain ⟨taken, hfills, hnames, hsome, hresult⟩ :=
      ih (fun piece hpiece => sound piece (List.mem_cons_of_mem _ hpiece)) h
    have htext : cs.take n ≠ [] := by
      have hpos : 0 < n := Nat.pos_of_ne_zero hn
      have hle : n ≤ cs.length := boundLength?_le hlength
      rw [← List.length_pos_iff, List.length_take]
      omega
    refine ⟨(String.ofList name, String.ofList (cs.take n)) :: taken, ?_, ?_, ?_, hresult⟩
    · have hwhole := Fills.placeholder name (cs.take n) (sound _ List.mem_cons_self) hfills
      rw [List.take_append_drop] at hwhole
      simpa [Segment.written] using hwhole
    · exact congrArg (String.ofList name :: ·) hnames
    · intro binding hbinding
      rcases List.mem_cons.mp hbinding with rfl | hlater
      · exact fun hempty => htext (String.ofList_injective hempty)
      · exact hsome binding hlater

/-- Placeholders of one name took one text. -/
def Agreeing (taken : List (String × String)) : Prop :=
  ∀ first ∈ taken, ∀ second ∈ taken, first.1 = second.1 → first.2 = second.2

theorem agreeing_of_nodup {taken : List (String × String)} (h : (taken.map Prod.fst).Nodup) :
    Agreeing taken := by
  intro first hfirst second hsecond hname
  rw [List.inj_on_of_nodup_map h hfirst hsecond hname]

theorem lookup_reverse_of_agreeing {taken : List (String × String)} (h : Agreeing taken)
    {binding : String × String} (hbinding : binding ∈ taken) :
    taken.reverse.lookup binding.1 = some binding.2 := by
  cases hfound : taken.reverse.lookup binding.1 with
  | none =>
    have hnone := List.lookup_eq_none_iff.mp hfound binding (List.mem_reverse.mpr hbinding)
    simp at hnone
  | some text =>
    obtain ⟨before, after, hsplit, -⟩ := List.lookup_eq_some_iff.mp hfound
    have hmem : (binding.1, text) ∈ taken := by
      rw [← List.mem_reverse, hsplit]
      exact List.mem_append_right _ List.mem_cons_self
    exact congrArg some (h _ hmem _ hbinding rfl)

namespace UriTemplate

/-- Every placeholder, in order, with the text that its name is bound to. -/
def rebound (t : UriTemplate) (bound : Bindings) : List (String × String) :=
  t.placeholderNames.map fun name => (name, (bound.lookup name).getD "")

variable {t : UriTemplate} {uri : String} {bound : Bindings}

theorem matchUri?_some (h : t.matchUri? uri = some bound) :
    ∃ taken, Fills t.text.toList taken uri.toList ∧ taken.map Prod.fst = t.placeholderNames ∧
      (∀ binding ∈ taken, binding.2 ≠ "") ∧ bound = bindAll [] taken := by
  obtain ⟨segments, hsegments, hmatch⟩ := Option.bind_eq_some_iff.mp h
  obtain ⟨hwritten, hsound⟩ := Segment.split_some hsegments
  obtain ⟨taken, hfills, hnames, hsome, hbound⟩ := matchSegments_some hsound hmatch
  rw [hwritten] at hfills
  refine ⟨taken, hfills, ?_, hsome, hbound⟩
  rw [hnames, placeholderNames, hsegments]
  rfl

/-- The bindings give every placeholder its text back exactly if the texts agree. -/
theorem eq_rebound_iff {taken : List (String × String)}
    (names : taken.map Prod.fst = t.placeholderNames)
    (bound_last : ∀ name, bound.lookup name = taken.reverse.lookup name) :
    taken = t.rebound bound ↔ Agreeing taken := by
  constructor
  · intro htaken
    have htext : ∀ binding ∈ taken, binding.2 = (bound.lookup binding.1).getD "" := by
      intro binding hbinding
      rw [htaken] at hbinding
      obtain ⟨name, -, rfl⟩ := List.mem_map.mp hbinding
      rfl
    intro first hfirst second hsecond hname
    rw [htext first hfirst, htext second hsecond, hname]
  · intro hagree
    unfold rebound
    rw [← names, List.map_map]
    refine (List.map_id taken).symm.trans (List.map_congr_left fun binding hbinding => ?_)
    simp [bound_last, lookup_reverse_of_agreeing hagree hbinding]

/-- A template with an open placeholder matches nothing. A match takes a text that is not empty for
each placeholder, and the template written out with these is the URI; a name is bound to the last text
taken under it. So putting in for each placeholder what its name is bound to gives the URI where the
names are distinct, and otherwise if placeholders of one name took one text. -/
theorem match_writes_out (t : UriTemplate) (uri : String) :
    (∀ after, '{' :: after <:+ t.text.toList → '}' ∉ after → t.matchUri? uri = none) ∧
    ∀ bound, t.matchUri? uri = some bound →
      (∀ binding ∈ bound, binding.2 ≠ "") ∧
      (t.placeholderNames.Nodup → Fills t.text.toList (t.rebound bound) uri.toList) ∧
      ∃ taken, Fills t.text.toList taken uri.toList ∧ taken.map Prod.fst = t.placeholderNames ∧
        (∀ binding ∈ taken, binding.2 ≠ "") ∧
        (∀ name, bound.lookup name = taken.reverse.lookup name) ∧
        (taken = t.rebound bound ↔ Agreeing taken) := by
  refine ⟨fun after hopen hclose => ?_, fun bound hmatch => ?_⟩
  · cases hmatch : t.matchUri? uri with
    | none => rfl
    | some bound =>
      obtain ⟨taken, hfills, -⟩ := matchUri?_some hmatch
      exact absurd (hfills.closed hopen) hclose
  · obtain ⟨taken, hfills, hnames, hsome, rfl⟩ := matchUri?_some hmatch
    have hlast (name : String) : (bindAll [] taken).lookup name = taken.reverse.lookup name := by
      rw [lookup_bindAll, List.lookup_nil, Option.or_none]
    have hrebound := eq_rebound_iff hnames hlast
    refine ⟨fun binding hbinding => ?_, fun hnodup => ?_, taken, hfills, hnames, hsome, hlast, hrebound⟩
    · rcases mem_bindAll hbinding with hnil | htaken
      · cases hnil
      · exact hsome binding htaken
    · rw [← hrebound.mpr (agreeing_of_nodup (hnames ▸ hnodup))]
      exact hfills

/-- A template with one name for two placeholders. -/
def twice : UriTemplate := ⟨"{a}/{a}"⟩

/-- Distinct names give the URI back, and an open placeholder matches nothing. Where one name stands
twice it is bound to the second text only, and with that for both the template is another URI. -/
theorem templates_matched :
    (Fills "gpio://{port}{pin}".toList [("port", "A"), ("pin", "/13")] "gpio://A/13".toList ∧
      (⟨"bad://\x7boops"⟩ : UriTemplate).matchUri? "bad://\x7boops" = none) ∧
    twice.matchUri? "x/y" = some [("a", "y")] ∧
      ¬Fills twice.text.toList (twice.rebound [("a", "y")]) "x/y".toList ∧
      ∃ taken, Fills twice.text.toList taken "x/y".toList ∧ ¬Agreeing taken := by
  have hdistinct := ((match_writes_out ⟨"gpio://{port}{pin}"⟩ "gpio://A/13").2
    [("port", "A"), ("pin", "/13")] (by decide)).2.1 (by decide)
  have hopen := (match_writes_out ⟨"bad://\x7boops"⟩ "bad://\x7boops").1 "oops".toList (by decide) (by decide)
  have hmatch : twice.matchUri? "x/y" = some [("a", "y")] := by decide
  have hfilled : Fills twice.text.toList (twice.rebound [("a", "y")]) "y/y".toList :=
    .placeholder ['a'] ['y'] (by decide) (.plain (by decide) (.placeholder ['a'] ['y'] (by decide) .done))
  have hrefill : ¬Fills twice.text.toList (twice.rebound [("a", "y")]) "x/y".toList :=
    fun hfills => absurd (hfilled.unique hfills) (by decide)
  obtain ⟨-, -, taken, hfills, -, -, -, hrebound⟩ := (match_writes_out twice "x/y").2 _ hmatch
  refine ⟨⟨hdistinct, hopen⟩, hmatch, hrefill, taken, hfills, fun hagree => hrefill ?_⟩
  rw [← hrebound.mpr hagree]
  exact hfills

end UriTemplate

end ContextServer
