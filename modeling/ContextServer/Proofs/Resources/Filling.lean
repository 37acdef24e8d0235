import ContextServer.Proofs.Resources.Matching
import Mathlib.Data.List.Chain
import Mathlib.Data.List.Infix

/-!
Templates that are filled in. A template that closes its placeholders is read as pieces in one way. A
value for each name, written where its placeholder stands, makes a URI of it. Matching that URI gives
the values back if the names are distinct, no two placeholders touch, and every value ends where the
literal after it first occurs: a match looks for no later occurrence.
-/

namespace ContextServer

namespace Segment

/-! ### Reading a template -/

/-- The pieces of a template: they are the template when they are written one after the other, a brace
opens in no literal and closes in no name, no literal is empty and none is cut in two. -/
structure Reads (template : List Char) (pieces : List Segment) : Prop where
  written : pieces.flatMap written = template
  sound : ∀ piece ∈ pieces, piece.Sound
  solid : literal [] ∉ pieces
  whole : ∀ first second, ¬[literal first, literal second] <:+: pieces

theorem Reads.tail {template : List Char} {piece : Segment} {rest : List Segment}
    (h : Reads template (piece :: rest)) : Reads (rest.flatMap Segment.written) rest where
  written := rfl
  sound other hother := h.sound other (List.mem_cons_of_mem _ hother)
  solid hother := h.solid (List.mem_cons_of_mem _ hother)
  whole first second hpair := h.whole first second (hpair.trans (List.suffix_cons piece rest).isInfix)

theorem not_infix_placeholder {first second name : List Char} {pieces : List Segment}
    (h : ¬[literal first, literal second] <:+: pieces) :
    ¬[literal first, literal second] <:+: placeholder name :: pieces := by
  rw [List.infix_cons_iff]
  rintro (hstart | hpair)
  · simp [List.cons_prefix_cons] at hstart
  · exact h hpair

theorem not_infix_literal_placeholder {first second text name : List Char} {pieces : List Segment}
    (h : ¬[literal first, literal second] <:+: pieces) :
    ¬[literal first, literal second] <:+: literal text :: placeholder name :: pieces := by
  rw [List.infix_cons_iff]
  rintro (hstart | hpair)
  · simp [List.cons_prefix_cons] at hstart
  · exact not_infix_placeholder h hpair

/-- Literals are split off as long as they can be, and only where there is something. -/
theorem split_literals {fuel : Nat} {cs : List Char} {pieces : List Segment}
    (h : split fuel cs = some pieces) :
    literal [] ∉ pieces ∧ ∀ first second, ¬[literal first, literal second] <:+: pieces := by
  fun_induction split fuel cs generalizing pieces with
  | case1 =>
    cases h
    exact ⟨List.not_mem_nil, fun _ _ hpair => by simpa using hpair.length_le⟩
  | case2 => cases h
  | case3 =>
    rename_i cs hcs lead hplain
    cases h
    refine ⟨fun hempty => ?_, fun _ _ hpair => by simpa using hpair.length_le⟩
    have hlead : [] = cs.takeWhile (· ≠ '{') := Segment.literal.inj (List.mem_singleton.mp hempty)
    have hnil : cs = [] := by
      rw [← List.takeWhile_append_dropWhile (p := (· ≠ '{')) (l := cs), hplain, ← hlead]
      rfl
    exact hcs hnil
  | case4 => cases h
  | case5 =>
    rename_i cs _ lead _ inside hopen name _ after hclose ih
    obtain ⟨rest, hrest, rfl⟩ := Option.map_eq_some_iff.mp h
    obtain ⟨hsolid, hwhole⟩ := ih hrest
    cases lead with
    | nil =>
      refine ⟨fun hempty => ?_, fun first second => not_infix_placeholder (hwhole first second)⟩
      exact hsolid (by simpa using hempty)
    | cons c lead =>
      refine ⟨fun hempty => ?_, fun first second =>
        not_infix_literal_placeholder (hwhole first second)⟩
      exact hsolid (by simpa using hempty)

theorem reads_split {fuel : Nat} {cs : List Char} {pieces : List Segment}
    (h : split fuel cs = some pieces) : Reads cs pieces :=
  ⟨(split_some h).1, (split_some h).2, (split_literals h).1, (split_literals h).2⟩

theorem decide_ne_of_not_mem {mark : Char} {text : List Char} (h : mark ∉ text) :
    ∀ c ∈ text, decide (c ≠ mark) = true := by
  intro c hc
  rw [decide_eq_true_iff]
  rintro rfl
  exact h hc

theorem takeWhile_ne_append {mark : Char} {before : List Char} (h : mark ∉ before)
    (after : List Char) : (before ++ mark :: after).takeWhile (· ≠ mark) = before := by
  rw [List.takeWhile_append_of_pos (decide_ne_of_not_mem h)]
  simp

theorem dropWhile_ne_append {mark : Char} {before : List Char} (h : mark ∉ before)
    (after : List Char) : (before ++ mark :: after).dropWhile (· ≠ mark) = mark :: after := by
  rw [List.dropWhile_append_of_pos (decide_ne_of_not_mem h)]
  simp

/-- A placeholder is split off with the literal before it. -/
theorem split_placeholder (fuel : Nat) {lead name : List Char} (hlead : '{' ∉ lead)
    (hname : '}' ∉ name) (after : List Char) :
    split (fuel + 1) (lead ++ '{' :: (name ++ '}' :: after)) =
      (split fuel after).map fun pieces =>
        (if lead.isEmpty then [] else [literal lead]) ++ placeholder name :: pieces := by
  have hne : lead ++ '{' :: (name ++ '}' :: after) ≠ [] := by simp
  rw [split]
  · dsimp only
    rw [takeWhile_ne_append hlead, dropWhile_ne_append hlead]
    dsimp only
    rw [takeWhile_ne_append hname, dropWhile_ne_append hname]
  · exact hne

theorem split_plain (fuel : Nat) {text : List Char} (htext : '{' ∉ text) (hne : text ≠ []) :
    split (fuel + 1) text = some [literal text] := by
  have hall := decide_ne_of_not_mem htext
  rw [split]
  · dsimp only
    rw [List.dropWhile_eq_nil_iff.mpr hall, List.takeWhile_eq_self_iff.mpr hall]
  · exact hne

/-- The pieces that a template reads as are those that are split off. -/
theorem split_of_reads {fuel : Nat} {cs : List Char} {pieces : List Segment} (h : Reads cs pieces)
    (hfuel : cs.length < fuel) : split fuel cs = some pieces := by
  induction fuel generalizing cs pieces with
  | zero => omega
  | succ fuel ih =>
    have hcs := h.written
    match pieces, h with
    | [], _ =>
      rw [← hcs]
      rfl
    | [literal text], h =>
      have htext : text ≠ [] := by
        rintro rfl
        exact h.solid List.mem_cons_self
      have hwhole : text = cs := by simpa [written] using hcs
      rw [← hwhole]
      exact split_plain fuel (h.sound _ List.mem_cons_self) htext
    | literal text :: literal other :: rest, h => exact absurd ⟨[], rest, rfl⟩ (h.whole text other)
    | literal text :: placeholder name :: rest, h =>
      have htext : text.isEmpty = false := by
        rw [List.isEmpty_eq_false_iff]
        rintro rfl
        exact h.solid List.mem_cons_self
      have htemplate : text ++ '{' :: (name ++ '}' :: rest.flatMap written) = cs := by
        simpa [written] using hcs
      have hlength : (rest.flatMap written).length < fuel := by
        rw [← htemplate] at hfuel
        simp only [List.length_append, List.length_cons] at hfuel
        omega
      rw [← htemplate, split_placeholder fuel (h.sound _ List.mem_cons_self)
        (h.tail.sound _ List.mem_cons_self), ih h.tail.tail hlength]
      simp [htext]
    | placeholder name :: rest, h =>
      have htemplate : '{' :: (name ++ '}' :: rest.flatMap written) = cs := by
        simpa [written] using hcs
      have hlength : (rest.flatMap written).length < fuel := by
        rw [← htemplate] at hfuel
        simp only [List.length_append, List.length_cons] at hfuel
        omega
      have hsplit := split_placeholder fuel List.not_mem_nil (h.sound _ List.mem_cons_self)
        (rest.flatMap written)
      rw [ih h.tail hlength] at hsplit
      rw [← htemplate]
      exact hsplit

/-- A template in which every brace that opens is followed by one that closes is split. -/
theorem split_closed {fuel : Nat} {cs : List Char} (hfuel : cs.length < fuel)
    (closed : ∀ after, '{' :: after <:+ cs → '}' ∈ after) : ∃ pieces, split fuel cs = some pieces := by
  fun_induction split fuel cs with
  | case1 => exact ⟨[], rfl⟩
  | case2 => omega
  | case3 => exact ⟨_, rfl⟩
  | case4 =>
    rename_i cs _ _ inside hopen hclose
    have hsuffix : '{' :: inside <:+ cs := ⟨_, eq_takeWhile_append_cons hopen⟩
    have hmem := closed inside hsuffix
    rw [List.dropWhile_eq_nil_iff] at hclose
    simpa using hclose '}' hmem
  | case5 =>
    rename_i cs _ lead _ inside hopen name _ after hclose ih
    have hwhole : lead ++ '{' :: (name ++ '}' :: after) = cs := by
      rw [eq_takeWhile_append_cons hclose]
      exact eq_takeWhile_append_cons hopen
    have hsuffix : after <:+ cs := ⟨lead ++ '{' :: (name ++ ['}']), by rw [← hwhole]; simp⟩
    have hlength := congrArg List.length hwhole
    simp only [List.length_append, List.length_cons] at hlength
    obtain ⟨rest, hrest⟩ := ih (by omega) fun later hlater => closed later (hlater.trans hsuffix)
    exact ⟨_, by rw [hrest]; rfl⟩

theorem ofTemplate?_eq_some_iff (template : String) (pieces : List Segment) :
    ofTemplate? template = some pieces ↔ Reads template.toList pieces :=
  ⟨reads_split, fun h => split_of_reads h (Nat.lt_succ_self _)⟩

/-! ### Putting values in -/

/-- A piece with the value of its name put in. -/
def filled (value : String → String) : Segment → List Char
  | literal text => text
  | placeholder name => (value (String.ofList name)).toList

/-- The names with their values, in the order of the template. -/
def assigned (pieces : List Segment) (value : String → String) : Bindings :=
  (names pieces).map fun name => (name, value name)

theorem fills_filled {pieces : List Segment} (sound : ∀ piece ∈ pieces, piece.Sound)
    (value : String → String) :
    Fills (pieces.flatMap written) (assigned pieces value) (pieces.flatMap (filled value)) := by
  induction pieces with
  | nil => exact .done
  | cons piece rest ih =>
    have hrest := ih fun other hother => sound other (List.mem_cons_of_mem _ hother)
    have hpiece := sound piece List.mem_cons_self
    cases piece with
    | literal text => exact .plains hpiece hrest
    | placeholder name =>
      have hfills := Fills.placeholder name (value (String.ofList name)).toList hpiece hrest
      rw [String.ofList_toList] at hfills
      simpa [written, assigned, names, filled] using hfills

/-- A template is read, and in one way, if every brace that opens in it is followed by one that
closes. -/
theorem closed_iff_reads (template : List Char) :
    (∀ after, '{' :: after <:+ template → '}' ∈ after) ↔ ∃! pieces, Reads template pieces := by
  have hfuel := Nat.lt_succ_self template.length
  constructor
  · intro closed
    obtain ⟨pieces, hpieces⟩ := split_closed hfuel closed
    refine ⟨pieces, reads_split hpieces, fun other hother => ?_⟩
    exact Option.some.inj ((split_of_reads hother hfuel).symm.trans hpieces)
  · rintro ⟨pieces, hreads, -⟩ after hopen
    have hfills := fills_filled hreads.sound fun _ => ""
    rw [hreads.written] at hfills
    exact hfills.closed hopen

/-- The first place at which a literal occurs in a value with the literal after it is the end of the
value. -/
def EndsAt (text value : List Char) : Prop :=
  ∀ k < value.length, ¬text <+: (value ++ text).drop k

/-- Values that are found again when they are put in: there is one for each placeholder, and each ends
where a match would end it. -/
structure Telling (pieces : List Segment) (value : String → String) : Prop where
  distinct : (names pieces).Nodup
  apart : ∀ name other, ¬[placeholder name, placeholder other] <:+: pieces
  nonempty : ∀ name ∈ names pieces, value name ≠ ""
  ends : ∀ name text, [placeholder name, literal text] <:+: pieces →
    EndsAt text (value (String.ofList name)).toList

end Segment

open Segment

/-! ### Matching what is filled in -/

theorem afterLiteral?_append (text rest : List Char) :
    afterLiteral? text (text ++ rest) = some rest := by
  induction text with
  | nil => rfl
  | cons c text ih => rw [List.cons_append, afterLiteral?, if_pos rfl, ih]

theorem positionOf?_self_append (text rest : List Char) :
    positionOf? text (text ++ rest) = some 0 := by
  cases hcs : text ++ rest with
  | nil =>
    rw [List.append_eq_nil_iff] at hcs
    rw [positionOf?, hcs.1]
    rfl
  | cons c cs =>
    have hstart : text.isPrefixOf (c :: cs) = true := by
      rw [List.isPrefixOf_iff_prefix, ← hcs]
      exact List.prefix_append _ _
    rw [positionOf?, hstart, if_pos rfl]

/-- A value that ends where a literal first occurs is what comes before it. -/
theorem positionOf?_append {text value : List Char} (h : EndsAt text value) (rest : List Char) :
    positionOf? text (value ++ (text ++ rest)) = some value.length := by
  induction value with
  | nil => exact positionOf?_self_append text rest
  | cons c value ih =>
    have hnone : text.isPrefixOf (c :: (value ++ (text ++ rest))) = false := by
      rw [Bool.eq_false_iff]
      intro hstart
      -- an occurrence that starts within the value is over before the literal's own end
      refine h 0 (Nat.succ_pos _) (List.prefix_of_prefix_length_le
        (List.isPrefixOf_iff_prefix.mp hstart) ⟨rest, ?_⟩ ?_)
      · simp
      · simp
        omega
    have hrest : EndsAt text value := fun k hk => h (k + 1) (Nat.succ_lt_succ hk)
    rw [List.cons_append, positionOf?, hnone, if_neg (by decide), ih hrest]
    rfl

theorem matchSegments_placeholder {bound : Bindings} {name cs : List Char} {rest : List Segment}
    {n : Nat} (h : boundLength? rest cs = some n) (hn : n ≠ 0) :
    matchSegments bound (.placeholder name :: rest) cs =
      matchSegments (bindName (String.ofList name) (String.ofList (cs.take n)) bound) rest
        (cs.drop n) := by
  rw [matchSegments, h]
  cases n with
  | zero => exact absurd rfl hn
  | succ n => rfl

theorem bindName_of_not_mem {name : String} {bound : Bindings} (h : name ∉ bound.map Prod.fst)
    (value : String) : bindName name value bound = bound ++ [(name, value)] := by
  induction bound with
  | nil => rfl
  | cons first rest ih =>
    rw [List.map_cons, List.mem_cons, not_or] at h
    rw [bindName, if_neg (Ne.symm h.1), ih h.2, List.cons_append]

namespace Segment

variable {value : String → String}

theorem Telling.tail {piece : Segment} {rest : List Segment} (h : Telling (piece :: rest) value) :
    Telling rest value := by
  have hnames : (names rest).Sublist (names (piece :: rest)) :=
    (List.sublist_cons_self piece rest).filterMap _
  have hlater {pair : List Segment} (hpair : pair <:+: rest) : pair <:+: piece :: rest :=
    hpair.trans (List.suffix_cons piece rest).isInfix
  exact ⟨h.distinct.sublist hnames, fun name other hpair => h.apart name other (hlater hpair),
    fun name hname => h.nonempty name (hnames.subset hname),
    fun name text hpair => h.ends name text (hlater hpair)⟩

/-- A placeholder takes the value that was put in for it. -/
theorem Telling.boundLength? {name : List Char} {rest : List Segment}
    (h : Telling (placeholder name :: rest) value) :
    boundLength? rest ((value (String.ofList name)).toList ++ rest.flatMap (filled value)) =
      some (value (String.ofList name)).toList.length := by
  match rest, h with
  | [], _ => simp [ContextServer.boundLength?]
  | literal text :: later, h =>
    have hends := h.ends name text ⟨[], later, rfl⟩
    exact positionOf?_append hends (later.flatMap (filled value))
  | placeholder other :: later, h => exact absurd ⟨[], later, rfl⟩ (h.apart name other)

/-- What is filled in is matched, and the values are bound after what is bound already. -/
theorem Telling.matchSegments {pieces : List Segment} (h : Telling pieces value) {bound : Bindings}
    (fresh : ∀ name ∈ names pieces, name ∉ bound.map Prod.fst) :
    matchSegments bound pieces (pieces.flatMap (filled value)) =
      some (bound ++ assigned pieces value) := by
  induction pieces generalizing bound with
  | nil => simp [ContextServer.matchSegments, assigned, names]
  | cons piece rest ih =>
    cases piece with
    | literal text =>
      rw [List.flatMap_cons, ContextServer.matchSegments, filled, afterLiteral?_append]
      exact ih h.tail fresh
    | placeholder name =>
      have hvalue : (value (String.ofList name)).toList.length ≠ 0 := by
        have hne := h.nonempty _ List.mem_cons_self
        simpa using hne
      have hname := fresh _ List.mem_cons_self
      have hfresh : ∀ other ∈ names rest,
          other ∉ (bound ++ [(String.ofList name, value (String.ofList name))]).map Prod.fst := by
        intro other hother
        have hother' : other ≠ String.ofList name := by
          rintro rfl
          exact (List.nodup_cons.mp h.distinct).1 hother
        simpa [hother'] using fresh other (List.mem_cons_of_mem _ hother)
      rw [List.flatMap_cons, filled, matchSegments_placeholder h.boundLength? hvalue, List.take_left,
        List.drop_left, String.ofList_toList, bindName_of_not_mem hname,
        ih h.tail hfresh, List.append_assoc]
      rfl

end Segment

/-- A template is read in one way, or leaves a placeholder open. Filled in with values that are found
again, it is a URI that it matches, and the bindings are these values in its order. -/
theorem UriTemplate.filled_matched (t : UriTemplate) :
    ((∀ after, '{' :: after <:+ t.text.toList → '}' ∈ after) ↔ ∃! pieces, Reads t.text.toList pieces) ∧
    ∀ pieces value, Reads t.text.toList pieces → Telling pieces value →
      let uri := pieces.flatMap (filled value)
      Fills t.text.toList (assigned pieces value) uri ∧
        t.matchUri? (String.ofList uri) = some (assigned pieces value) := by
  refine ⟨closed_iff_reads _, fun pieces value hreads htelling => ⟨?_, ?_⟩⟩
  · have hfills := fills_filled hreads.sound value
    rwa [hreads.written] at hfills
  · have hmatch : matchSegments [] pieces (pieces.flatMap (filled value)) =
        some (assigned pieces value) := htelling.matchSegments fun _ _ => List.not_mem_nil
    rw [UriTemplate.matchUri?, (ofTemplate?_eq_some_iff _ _).mpr hreads, Option.bind_some,
      String.toList_ofList]
    exact hmatch

/-- A name, two letters and a name. -/
def lettered : UriTemplate := ⟨"{dir}ab{file}"⟩

def letteredPieces : List Segment :=
  [.placeholder "dir".toList, .literal "ab".toList, .placeholder "file".toList]

/-- A value may hold slashes, braces and a part of the literal after it, and the last may hold all of
it. -/
def letteredValue (name : String) : String :=
  if name = "dir" then "\x7d/\x7ba" else "ab/\x7bdir\x7d"

theorem reads_lettered : Reads lettered.text.toList letteredPieces :=
  (ofTemplate?_eq_some_iff _ _).mp rfl

theorem telling_lettered : Telling letteredPieces letteredValue where
  distinct := by decide
  apart name other hpair := by
    simp [letteredPieces, List.infix_cons_iff, List.cons_prefix_cons] at hpair
  nonempty := by decide
  ends name text hpair := by
    have hpieces : name = "dir".toList ∧ text = "ab".toList := by
      simpa [letteredPieces, List.infix_cons_iff, List.cons_prefix_cons] using hpair
    rw [hpieces.1, hpieces.2]
    unfold EndsAt
    decide

theorem lettered_matched :
    Reads lettered.text.toList letteredPieces ∧ Telling letteredPieces letteredValue ∧
      lettered.matchUri? "\x7d/\x7baabab/\x7bdir\x7d" =
        some [("dir", "\x7d/\x7ba"), ("file", "ab/\x7bdir\x7d")] :=
  ⟨reads_lettered, telling_lettered,
    ((lettered.filled_matched).2 _ _ reads_lettered telling_lettered).2⟩

end ContextServer
