import ContextServer.Proofs.HostLoop.Lines
import ContextServer.Proofs.Json.Canonical
import ContextServer.Proofs.Json.MemberOrder
import ContextServer.Settings.File

/-!
Settings files and the order of members. A section takes its members by their names, and one that is
unknown or written twice refuses the file wherever it stands, so files that differ in the order of
members alone give the same settings or the same error.
-/

namespace ContextServer

namespace Json

/-! ### Records -/

theorem lookup_sameKey {R : Json → Json → Prop} {members moved : List (String × Json)}
    (h : List.Forall₂ (SameKey R) members moved) (name : String) :
    Option.Rel R (members.lookup name) (moved.lookup name) := by
  induction h with
  | nil => exact .none
  | cons hm _ ih =>
    obtain ⟨key, hv⟩ := hm
    rw [lookup_cons_ite, lookup_cons_ite]
    split
    · exact .some hv
    · exact ih

theorem keys_sameKey {R : Json → Json → Prop} {members moved : List (String × Json)}
    (h : List.Forall₂ (SameKey R) members moved) : members.map Prod.fst = moved.map Prod.fst := by
  induction h with
  | nil => rfl
  | cons hm _ ih =>
    obtain ⟨key, hv⟩ := hm
    rw [List.map_cons, List.map_cons, ih]

/-- What is written at most once is found in any order. -/
theorem lookup_perm {members members' : List (String × Json)} (hperm : members.Perm members')
    {name : String} (honce : (members.map Prod.fst).count name ≤ 1) :
    members.lookup name = members'.lookup name := by
  induction hperm with
  | nil => rfl
  | @cons m rest rest' _ ih =>
    rw [List.map_cons, List.count_cons] at honce
    rw [lookup_cons_ite, lookup_cons_ite, ih (by omega)]
  | swap m m' rest =>
    obtain ⟨key, v⟩ := m
    obtain ⟨key', v'⟩ := m'
    simp only [lookup_cons_ite]
    split
    · rename_i hkey'
      have hkey : name ≠ key := by
        rintro rfl
        simp [hkey'] at honce
      rw [if_neg hkey]
    · rfl
  | trans hperm _ ih ih' =>
    exact (ih honce).trans (ih' ((hperm.map Prod.fst).count_eq name ▸ honce))

theorem record?_object (closed : Bool) (names : List String) (members : List (String × Json)) :
    record? closed names (.object members) =
      if (!closed || (members.map Prod.fst).all fun key => names.contains key) &&
          names.all fun name => (members.map Prod.fst).count name ≤ 1 then
        some (names.map fun name => members.lookup name)
      else none := by
  have hcount (name : String) : (members.map Prod.fst).count name =
      (members.filter fun member => member.1 == name).length := by
    rw [List.count_eq_countP, List.countP_map, List.countP_eq_length_filter]
    rfl
  simp only [record?, hcount, List.all_map, Function.comp_def]

theorem record?_reordered {v v' : Json} (h : Reordered v v') (closed : Bool) (names : List String) :
    Option.Rel (List.Forall₂ (Option.Rel Reordered)) (v.record? closed names)
      (v'.record? closed names) := by
  cases h with
  | refl =>
    exact related_refl (fun fields => List.forall₂_same.mpr fun x _ => related_refl .refl x) _
  | @array items items' h =>
    simp only [record?, h.length_eq]
    split
    · refine .some ?_
      rw [List.forall₂_map_left_iff, List.forall₂_map_right_iff, List.forall₂_same]
      exact fun i _ => getElem?_related h i
    · exact .none
  | @object members moved members' h hperm =>
    have hkeys : (members.map Prod.fst).Perm (members'.map Prod.fst) := by
      rw [keys_sameKey h]
      exact hperm.map Prod.fst
    simp only [record?_object, hkeys.all_eq, hkeys.count_eq]
    split
    · rename_i hwritten
      refine .some ?_
      rw [List.forall₂_map_left_iff, List.forall₂_map_right_iff, List.forall₂_same]
      intro name hname
      have honce : (moved.map Prod.fst).count name ≤ 1 := by
        rw [Bool.and_eq_true, List.all_eq_true] at hwritten
        rw [(hperm.map Prod.fst).count_eq]
        exact of_decide_eq_true (hwritten.2 name hname)
      rw [← lookup_perm hperm honce]
      exact lookup_sameKey h name
    · exact .none

/-! ### Fields -/

theorem string?_reordered {v v' : Json} (h : Reordered v v') : v.string? = v'.string? := by
  cases h <;> rfl

section Fields

variable {x x' : Option Json} (h : Option.Rel Reordered x x')
include h

/-- A field that makes no difference between containers. -/
theorem scalarField_reordered {α : Type} (read : Option Json → α)
    (harray : ∀ items items', read (some (.array items)) = read (some (.array items')))
    (hobject : ∀ members members', read (some (.object members)) = read (some (.object members'))) :
    read x = read x' := by
  cases h with
  | none => rfl
  | some h =>
    cases h with
    | refl => rfl
    | array => exact harray _ _
    | object => exact hobject _ _

theorem textField?_reordered (default : String) : textField? default x = textField? default x' :=
  scalarField_reordered h _ (fun _ _ => rfl) fun _ _ => rfl

theorem optionalTextField?_reordered : optionalTextField? x = optionalTextField? x' :=
  scalarField_reordered h _ (fun _ _ => rfl) fun _ _ => rfl

theorem countField?_reordered (default : Nat) : countField? default x = countField? default x' :=
  scalarField_reordered h _ (fun _ _ => rfl) fun _ _ => rfl

theorem floatField?_reordered (default : Float) : floatField? default x = floatField? default x' :=
  scalarField_reordered h _ (fun _ _ => rfl) fun _ _ => rfl

variable {α : Type} {read : Json → Option α} (hread : ∀ v v', Reordered v v' → read v = read v')
include hread

theorem partField?_reordered (default : α) :
    partField? read default x = partField? read default x' := by
  cases h with
  | none => rfl
  | some h => exact hread _ _ h

theorem listField?_reordered : listField? read x = listField? read x' := by
  cases h with
  | none => rfl
  | some h =>
    cases h with
    | refl | object => rfl
    | array h => exact mapM_of_forall₂ (h.imp hread)

end Fields

end Json

/-! ### Sections -/

namespace Settings

open Json

theorem readServer_reordered (s : Settings) (v v' : Json) (h : Reordered v v') :
    s.readServer v = s.readServer v' := by
  have hfields := record?_reordered h true ["name", "description"]
  unfold readServer
  generalize v.record? true ["name", "description"] = fields at hfields ⊢
  generalize v'.record? true ["name", "description"] = fields' at hfields ⊢
  rcases hfields with @⟨_, _, _ | ⟨hname, _ | ⟨hdescription, _ | _⟩⟩⟩ | _ <;> try rfl
  simp only [textField?_reordered hname, optionalTextField?_reordered hdescription]

theorem readRateLimit_reordered (s : Settings) (v v' : Json) (h : Reordered v v') :
    s.readRateLimit v = s.readRateLimit v' := by
  have hfields := record?_reordered h true ["requests_per_second", "burst_capacity"]
  unfold readRateLimit
  generalize v.record? true ["requests_per_second", "burst_capacity"] = fields at hfields ⊢
  generalize v'.record? true ["requests_per_second", "burst_capacity"] = fields' at hfields ⊢
  rcases hfields with @⟨_, _, _ | ⟨hrate, _ | ⟨hburst, _ | _⟩⟩⟩ | _ <;> try rfl
  simp only [floatField?_reordered hrate, countField?_reordered hburst]

theorem readSessions_reordered (s : Settings) (v v' : Json) (h : Reordered v v') :
    s.readSessions v = s.readSessions v' := by
  have hfields := record?_reordered h true ["max_sessions", "idle_timeout_secs"]
  unfold readSessions
  generalize v.record? true ["max_sessions", "idle_timeout_secs"] = fields at hfields ⊢
  generalize v'.record? true ["max_sessions", "idle_timeout_secs"] = fields' at hfields ⊢
  rcases hfields with @⟨_, _, _ | ⟨hmost, _ | ⟨htimeout, _ | _⟩⟩⟩ | _ <;> try rfl
  simp only [countField?_reordered hmost, countField?_reordered htimeout]

theorem readRoot_reordered (v v' : Json) (h : Reordered v v') : readRoot v = readRoot v' := by
  have hfields := record?_reordered h true ["uri", "name"]
  unfold readRoot
  generalize v.record? true ["uri", "name"] = fields at hfields ⊢
  generalize v'.record? true ["uri", "name"] = fields' at hfields ⊢
  rcases hfields with @⟨_, _, _ | ⟨@⟨_, _, huri⟩ | _, _ | ⟨hname, _ | _⟩⟩⟩ | _ <;> try rfl
  simp only [string?_reordered huri, optionalTextField?_reordered hname]

theorem readLogging_reordered (s : Settings) (v v' : Json) (h : Reordered v v') :
    s.readLogging v = s.readLogging v' := by
  have hfields := record?_reordered h true ["level"]
  unfold readLogging
  generalize v.record? true ["level"] = fields at hfields ⊢
  generalize v'.record? true ["level"] = fields' at hfields ⊢
  rcases hfields with @⟨_, _, _ | ⟨hlevel, _ | _⟩⟩ | _ <;> try rfl
  simp only [textField?_reordered hlevel]

theorem ofJson?_reordered {v v' : Json} (h : Reordered v v') : ofJson? v = ofJson? v' := by
  have hfields := record?_reordered h true sections
  unfold ofJson?
  generalize v.record? true sections = fields at hfields ⊢
  generalize v'.record? true sections = fields' at hfields ⊢
  rcases hfields with @⟨_, _, _ | ⟨hschema, _ | ⟨hcomment, _ | ⟨hserver, _ | ⟨hpageSize, _ |
    ⟨hrateLimit, _ | ⟨hsessions, _ | ⟨hroots, _ | ⟨hlogging, _ | _⟩⟩⟩⟩⟩⟩⟩⟩⟩ | _ <;> try rfl
  simp only [optionalTextField?_reordered hschema, optionalTextField?_reordered hcomment,
    partField?_reordered hserver (readServer_reordered _), countField?_reordered hpageSize,
    partField?_reordered hrateLimit (readRateLimit_reordered _),
    partField?_reordered hsessions (readSessions_reordered _),
    listField?_reordered hroots readRoot_reordered,
    partField?_reordered hlogging (readLogging_reordered _)]

theorem ofText_rearranged (path : String) {text text' : String} (h : Rearranged text text') :
    ofText path text = ofText path text' := by
  have hread := ofWritten?_rearranged h
  unfold ofText
  generalize ofWritten? text = v at hread ⊢
  generalize ofWritten? text' = v' at hread ⊢
  cases hread with
  | none => rfl
  | some h => simp only [Option.bind_some, ofJson?_reordered h]

/-- Files that differ in the order of members alone give the same settings or the same error. -/
theorem load_rearranged (path : String) {text text' : String} (h : Rearranged text text') :
    load path (.bytes (Utf8.encode text)) = load path (.bytes (Utf8.encode text')) := by
  have hdecode (text : String) : Utf8.decode (Utf8.encode text) = .ok text :=
    Utf8.decode_eq_ok_iff.mpr rfl
  simp only [load, hdecode]
  exact ofText_rearranged path h

theorem load_rearranged_nested :
    Rearranged "\x7b\"server\":\x7b\"name\":\"a\",\"description\":\"b\"\x7d,\"page_size\":2\x7d"
        "\x7b\"page_size\":2,\"server\":\x7b\"description\":\"b\",\"name\":\"a\"\x7d\x7d" ∧
      load "" (.bytes (Utf8.encode
        "\x7b\"server\":\x7b\"name\":\"a\",\"description\":\"b\"\x7d,\"page_size\":2\x7d")) =
      load "" (.bytes (Utf8.encode
        "\x7b\"page_size\":2,\"server\":\x7b\"description\":\"b\",\"name\":\"a\"\x7d\x7d")) := by
  have hkey (cs : List Char) (h : cs.all isPlain = true) : StringTail (cs ++ ['"']) := .of_plain h
  have htext (c : Char) (h : [c].all isPlain = true) :
      RearrangedValue ['"', c, '"'] ['"', c, '"'] := .scalar (.string (.of_plain h))
  have htwo : NumberText ['2'] :=
    @NumberText.mk [] ['2'] [] [] (.inl rfl) (.inr ⟨⟨by simp, by simp⟩, by simp⟩) (.inl rfl)
      (.inl rfl)
  have hserver := @RearrangedValue.swap ⟨"name\"".toList, _, _⟩ ⟨"description\"".toList, _, _⟩
    (hkey "name".toList rfl) (hkey "description".toList rfl) (htext 'a' rfl) (htext 'b' rfl)
  have hfile := @RearrangedValue.swap ⟨"server\"".toList, _, _⟩ ⟨"page_size\"".toList, _, _⟩
    (hkey "server".toList rfl) (hkey "page_size".toList rfl) hserver (.scalar (.number htwo))
  have h := @Rearranged.mk [] [] [] [] _ _ nofun nofun nofun nofun hfile
  exact ⟨h, load_rearranged "" h⟩

end Settings

end ContextServer
