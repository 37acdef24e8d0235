import ContextServer.Proofs.Json.Agreement
import ContextServer.Settings.File

/-!
What a settings file says. Settings that are read off a file are the values that the file gives, and
the defaults where it gives none; a section that is left out gives none.
-/

namespace ContextServer

/-- What float a number is taken for: a real for itself, a whole number for the float that it becomes. -/
inductive Number.TakenFor : Number → Float → Prop where
  | whole (i : Int) : TakenFor (.whole i) (Float.ofInt i)
  | real (x : Float) : TakenFor (.real x) x

theorem Number.takenFor_iff {n : Number} {x : Float} : n.TakenFor x ↔ x = n.toFloat := by
  constructor
  · rintro (_ | _) <;> rfl
  · rintro rfl
    cases n with
    | whole i => exact .whole i
    | real x => exact .real x

namespace Json

/-! ### Fields of records -/

/-- A field of a record: a member of an object, or the item of an array in the place of the name. -/
def recordField? (v : Json) (names : List String) (name : String) : Option Json :=
  match v with
  | .object members => members.lookup name
  | .array items => items[names.idxOf name]?
  | _ => none

theorem record?_eq_some {closed : Bool} {names : List String} {v : Json} {fields : List (Option Json)}
    (hnames : names.Nodup) (h : v.record? closed names = some fields) :
    fields = names.map fun name => v.recordField? names name := by
  cases v with
  | object members =>
    simp only [record?] at h
    split at h
    · exact (Option.some.inj h).symm
    · cases h
  | array items =>
    simp only [record?] at h
    split at h
    · rw [← Option.some.inj h]
      refine List.ext_getElem (by simp) fun i hi hi' => ?_
      rw [List.length_map] at hi'
      simp only [List.getElem_map, List.getElem_range, recordField?, hnames.idxOf_getElem i hi']
    · cases h
  | _ => cases h

theorem record?_pair {closed : Bool} {name other : String} {v : Json} {x y : Option Json}
    (hne : name ≠ other) (h : v.record? closed [name, other] = some [x, y]) :
    x = v.recordField? [name, other] name ∧ y = v.recordField? [name, other] other := by
  have hfields := record?_eq_some (by simpa using hne) h
  simpa using hfields

theorem IsRead.recordField {v w : Json} (h : v.IsRead) {names : List String} {name : String}
    (hw : v.recordField? names name = some w) : w.IsRead := by
  cases v with
  | object members =>
    obtain ⟨before, after, rfl, -⟩ := List.lookup_eq_some_iff.mp hw
    exact h.members _ (List.mem_append_right before List.mem_cons_self)
  | array items => exact h.items w (List.mem_of_getElem? hw)
  | _ => cases hw

/-- A value is as it is written, or the default where nothing is. -/
def Given {α : Type} (written : Option Json) (toJson : α → Json) (default x : α) : Prop :=
  written = none ∧ x = default ∨ written = some (toJson x)

/-- A text that may be missing; `null` is none. -/
def optionalText : Option String → Json
  | none => .null
  | some text => .string text

section Fields

variable {x : Option Json}

theorem textField?_eq_some {default text : String} (h : textField? default x = some text) :
    Given x .string default text := by
  cases x with
  | none => exact .inl ⟨rfl, (Option.some.inj h).symm⟩
  | some v =>
    cases v with
    | string t => exact .inr (by rw [Option.some.inj h])
    | _ => cases h

theorem optionalTextField?_eq_some {text : Option String} (h : optionalTextField? x = some text) :
    Given x optionalText none text := by
  cases x with
  | none => exact .inl ⟨rfl, (Option.some.inj h).symm⟩
  | some v =>
    cases v with
    | null | string => exact .inr (by rw [← Option.some.inj h]; rfl)
    | _ => cases h

theorem countField?_eq_some {default n : Nat} (h : countField? default x = some n) :
    Given x .nat default n := by
  cases x with
  | none => exact .inl ⟨rfl, (Option.some.inj h).symm⟩
  | some v =>
    cases v with
    | number m =>
      cases m with
      | whole i =>
        simp only [countField?] at h
        split at h
        · rename_i hfits
          rw [← Option.some.inj h]
          exact .inr (by rw [nat, Int.toNat_of_nonneg hfits.1])
        · cases h
      | real => cases h
    | _ => cases h

/-- A float is the one that the written number is taken for, or the default where nothing is. -/
def GivenFloat (written : Option Json) (default x : Float) : Prop :=
  written = none ∧ x = default ∨ ∃ n, written = some (.number n) ∧ n.TakenFor x

theorem floatField?_eq_some {default y : Float} (h : floatField? default x = some y) :
    GivenFloat x default y := by
  cases x with
  | none => exact .inl ⟨rfl, (Option.some.inj h).symm⟩
  | some v =>
    cases v with
    | number n => exact .inr ⟨n, rfl, Number.takenFor_iff.mpr (Option.some.inj h).symm⟩
    | _ => cases h

theorem forall₂_of_mapM {α β : Type} {f : α → Option β} {xs : List α} {ys : List β}
    (h : xs.mapM f = some ys) : List.Forall₂ (fun x y => f x = some y) xs ys := by
  induction xs generalizing ys with
  | nil =>
    obtain rfl := Option.some.inj h
    exact .nil
  | cons x xs ih =>
    rw [List.mapM_cons] at h
    obtain ⟨y, hy, h⟩ := Option.bind_eq_some_iff.mp h
    obtain ⟨rest, hrest, h⟩ := Option.bind_eq_some_iff.mp h
    obtain rfl := Option.some.inj h
    exact .cons hy (ih hrest)

/-- A part that is left out is as one without fields. -/
theorem partField?_eq_some {α : Type} {read : Json → Option α} {default t : α}
    {names : List String} {P : (String → Option Json) → α → Prop} (hnone : P (fun _ => none) default)
    (hread : ∀ v t, read v = some t → P (v.recordField? names) t)
    (h : partField? read default x = some t) :
    P (fun name => x.bind fun v => v.recordField? names name) t := by
  cases x with
  | none =>
    rw [← Option.some.inj h]
    exact hnone
  | some v => exact hread v t h

end Fields

end Json

namespace Settings

open Json

/-! ### Sections -/

def fieldsOf : String → List String
  | "server" => ["name", "description"]
  | "rate_limit" => ["requests_per_second", "burst_capacity"]
  | "sessions" => ["max_sessions", "idle_timeout_secs"]
  | "logging" => ["level"]
  | _ => []

def WrittenServer (written : String → Option Json) (t : Settings) : Prop :=
  ∃ serverName description, Given (written "name") .string defaultServerName serverName ∧
    Given (written "description") optionalText none description ∧ t = { serverName, description }

def WrittenRateLimit (s : Settings) (written : String → Option Json) (t : Settings) : Prop :=
  ∃ requestsPerSecond burstCapacity,
    GivenFloat (written "requests_per_second") s.requestsPerSecond requestsPerSecond ∧
    Given (written "burst_capacity") .nat s.burstCapacity burstCapacity ∧
    t = { s with requestsPerSecond, burstCapacity }

def WrittenSessions (s : Settings) (written : String → Option Json) (t : Settings) : Prop :=
  ∃ maxSessions idleTimeoutSecs, Given (written "max_sessions") .nat s.maxSessions maxSessions ∧
    Given (written "idle_timeout_secs") .nat s.idleTimeoutSecs idleTimeoutSecs ∧
    t = { s with maxSessions, idleTimeoutSecs }

def WrittenLogging (s : Settings) (written : String → Option Json) (t : Settings) : Prop :=
  ∃ logLevel, Given (written "level") .string s.logLevel logLevel ∧ t = { s with logLevel }

theorem readServer_eq_some {v : Json} {t : Settings} (h : readServer {} v = some t) :
    WrittenServer (v.recordField? (fieldsOf "server")) t := by
  unfold readServer at h
  split at h
  · rename_i name description hrecord
    obtain ⟨rfl, rfl⟩ := record?_pair (by decide) hrecord
    obtain ⟨serverName, hname, h⟩ := Option.bind_eq_some_iff.mp h
    obtain ⟨text, hdescription, h⟩ := Option.bind_eq_some_iff.mp h
    exact ⟨serverName, text, textField?_eq_some hname, optionalTextField?_eq_some hdescription,
      (Option.some.inj h).symm⟩
  · cases h

theorem readRateLimit_eq_some {s t : Settings} {v : Json} (h : s.readRateLimit v = some t) :
    WrittenRateLimit s (v.recordField? (fieldsOf "rate_limit")) t := by
  unfold readRateLimit at h
  split at h
  · rename_i rate burst hrecord
    obtain ⟨rfl, rfl⟩ := record?_pair (by decide) hrecord
    obtain ⟨requestsPerSecond, hrate, h⟩ := Option.bind_eq_some_iff.mp h
    obtain ⟨burstCapacity, hburst, h⟩ := Option.bind_eq_some_iff.mp h
    exact ⟨requestsPerSecond, burstCapacity, floatField?_eq_some hrate, countField?_eq_some hburst,
      (Option.some.inj h).symm⟩
  · cases h

theorem readSessions_eq_some {s t : Settings} {v : Json} (h : s.readSessions v = some t) :
    WrittenSessions s (v.recordField? (fieldsOf "sessions")) t := by
  unfold readSessions at h
  split at h
  · rename_i most timeout hrecord
    obtain ⟨rfl, rfl⟩ := record?_pair (by decide) hrecord
    obtain ⟨maxSessions, hmost, h⟩ := Option.bind_eq_some_iff.mp h
    obtain ⟨idleTimeoutSecs, htimeout, h⟩ := Option.bind_eq_some_iff.mp h
    exact ⟨maxSessions, idleTimeoutSecs, countField?_eq_some hmost, countField?_eq_some htimeout,
      (Option.some.inj h).symm⟩
  · cases h

theorem readLogging_eq_some {s t : Settings} {v : Json} (h : s.readLogging v = some t) :
    WrittenLogging s (v.recordField? (fieldsOf "logging")) t := by
  unfold readLogging at h
  split at h
  · rename_i level hrecord
    have hfields := record?_eq_some (by decide) hrecord
    simp only [List.map_cons, List.map_nil, List.cons.injEq, and_true] at hfields
    subst hfields
    obtain ⟨logLevel, hlevel, h⟩ := Option.map_eq_some_iff.mp h
    exact ⟨logLevel, textField?_eq_some hlevel, h.symm⟩
  · cases h

structure WrittenRoot (item : Json) (r : RootSetting) : Prop where
  uri : item.recordField? ["uri", "name"] "uri" = some (.string r.uri)
  name : Given (item.recordField? ["uri", "name"] "name") optionalText none r.name

theorem readRoot_eq_some {item : Json} {r : RootSetting} (h : readRoot item = some r) :
    WrittenRoot item r := by
  unfold readRoot at h
  split at h
  · rename_i uri name hrecord
    obtain ⟨huri, rfl⟩ := record?_pair (by decide) hrecord
    obtain ⟨text, htext, h⟩ := Option.bind_eq_some_iff.mp h
    obtain ⟨displayed, hname, h⟩ := Option.bind_eq_some_iff.mp h
    obtain rfl := Option.some.inj h
    refine ⟨?_, optionalTextField?_eq_some hname⟩
    cases uri with
    | string s => rw [← huri, Option.some.inj htext]
    | _ => cases htext
  · cases h

/-! ### Files -/

/-- What a file has for a field of a section. -/
def setting? (file : Json) (part name : String) : Option Json :=
  (file.recordField? sections part).bind fun v => v.recordField? (fieldsOf part) name

def WrittenRoots (written : Option Json) (roots : List RootSetting) : Prop :=
  written = none ∧ roots = [] ∨
    ∃ items, written = some (.array items) ∧ List.Forall₂ WrittenRoot items roots

/-- Settings as a file has them, or as they are by default. -/
structure Written (file : Json) (s : Settings) : Prop where
  serverName : Given (setting? file "server" "name") .string "mcpd" s.serverName
  description : Given (setting? file "server" "description") optionalText none s.description
  pageSize : Given (file.recordField? sections "page_size") .nat 0 s.pageSize
  requestsPerSecond : GivenFloat (setting? file "rate_limit" "requests_per_second") 0
    s.requestsPerSecond
  burstCapacity : Given (setting? file "rate_limit" "burst_capacity") .nat 0 s.burstCapacity
  maxSessions : Given (setting? file "sessions" "max_sessions") .nat 4 s.maxSessions
  idleTimeoutSecs : Given (setting? file "sessions" "idle_timeout_secs") .nat 1800 s.idleTimeoutSecs
  roots : WrittenRoots (file.recordField? sections "roots") s.roots
  logLevel : Given (setting? file "logging" "level") .string "warn" s.logLevel

theorem readRoots_eq_some {x : Option Json} {roots : List RootSetting}
    (h : listField? readRoot x = some roots) : WrittenRoots x roots := by
  cases x with
  | none => exact .inl ⟨rfl, (Option.some.inj h).symm⟩
  | some v =>
    cases v with
    | array items => exact .inr ⟨items, rfl, (forall₂_of_mapM h).imp fun _ _ => readRoot_eq_some⟩
    | _ => cases h

theorem written_of_ofJson? {file : Json} {s : Settings} (h : ofJson? file = some s) :
    Written file s := by
  unfold ofJson? at h
  split at h
  · rename_i schema comment server pageSize rateLimit sessions roots logging hrecord
    have hfields : [schema, comment, server, pageSize, rateLimit, sessions, roots, logging] =
        ["$schema", "_comment", "server", "page_size", "rate_limit", "sessions", "roots",
          "logging"].map (file.recordField? Settings.sections) :=
      record?_eq_some (by decide) hrecord
    simp only [List.map_cons, List.map_nil, List.cons.injEq, and_true] at hfields
    obtain ⟨-, -, rfl, rfl, rfl, rfl, rfl, rfl⟩ := hfields
    obtain ⟨_, -, h⟩ := Option.bind_eq_some_iff.mp h
    obtain ⟨_, -, h⟩ := Option.bind_eq_some_iff.mp h
    obtain ⟨s₁, hserver, h⟩ := Option.bind_eq_some_iff.mp h
    obtain ⟨size, hpageSize, h⟩ := Option.bind_eq_some_iff.mp h
    obtain ⟨s₂, hrateLimit, h⟩ := Option.bind_eq_some_iff.mp h
    obtain ⟨s₃, hsessions, h⟩ := Option.bind_eq_some_iff.mp h
    obtain ⟨listed, hroots, h⟩ := Option.bind_eq_some_iff.mp h
    obtain ⟨s₄, hlogging, h⟩ := Option.bind_eq_some_iff.mp h
    obtain rfl := Option.some.inj h
    have hserver : WrittenServer (setting? file "server") s₁ :=
      partField?_eq_some ⟨_, _, .inl ⟨rfl, rfl⟩, .inl ⟨rfl, rfl⟩, rfl⟩
        (fun _ _ => readServer_eq_some) hserver
    have hrateLimit : WrittenRateLimit s₁ (setting? file "rate_limit") s₂ :=
      partField?_eq_some ⟨_, _, .inl ⟨rfl, rfl⟩, .inl ⟨rfl, rfl⟩, rfl⟩
        (fun _ _ => readRateLimit_eq_some) hrateLimit
    have hsessions : WrittenSessions s₂ (setting? file "sessions") s₃ :=
      partField?_eq_some ⟨_, _, .inl ⟨rfl, rfl⟩, .inl ⟨rfl, rfl⟩, rfl⟩
        (fun _ _ => readSessions_eq_some) hsessions
    have hlogging : WrittenLogging s₃ (setting? file "logging") s₄ :=
      partField?_eq_some ⟨_, .inl ⟨rfl, rfl⟩, rfl⟩ (fun _ _ => readLogging_eq_some) hlogging
    obtain ⟨name, description, hname, hdescription, rfl⟩ := hserver
    obtain ⟨rate, burst, hrate, hburst, rfl⟩ := hrateLimit
    obtain ⟨most, timeout, hmost, htimeout, rfl⟩ := hsessions
    obtain ⟨level, hlevel, rfl⟩ := hlogging
    exact ⟨hname, hdescription, countField?_eq_some hpageSize, hrate, hburst, hmost, htimeout,
      readRoots_eq_some hroots, hlevel⟩
  · cases h

end Settings

end ContextServer
