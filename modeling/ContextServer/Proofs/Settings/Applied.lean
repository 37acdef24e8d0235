import ContextServer.Proofs.HostLoop.Lines
import ContextServer.Proofs.Rosters
import ContextServer.Proofs.Sessions.Handshakes
import ContextServer.Proofs.Settings.Written
import Mathlib.Data.List.Induction

/-!
Servers under the settings of a file. What a file that is accepted says reaches the server: its identity,
the limits of its sessions, its rate limit, which a handshake makes known, and the roots that it lists.
-/

namespace ContextServer

variable {Device : Type}

/-! ### Roots -/

namespace Settings

def rootsOf (configured : List RootSetting) : Roster String Root :=
  configured.foldl (fun roots c => roots.insert c.uri ⟨c.uri, c.displayName⟩) {}

theorem roots_ofOptions (s : Settings) (now : Instant) :
    (Server.ofOptions s.toOptions now : Server Device).catalog.roots = rootsOf s.roots := by
  have hroots (configured : List RootSetting) (c : Catalog Device) :
      ((configured.map fun r => ⟨r.uri, r.displayName⟩).foldl Catalog.addRoot c).roots =
        configured.foldl (fun roots r => roots.insert r.uri ⟨r.uri, r.displayName⟩) c.roots := by
    induction configured generalizing c with
    | nil => rfl
    | cons r rest ih => exact ih (c.addRoot ⟨r.uri, r.displayName⟩)
  exact hroots s.roots {}

theorem rootsOf_append (configured : List RootSetting) (c : RootSetting) :
    rootsOf (configured ++ [c]) = (rootsOf configured).insert c.uri ⟨c.uri, c.displayName⟩ := by
  simp [rootsOf]

theorem mem_keys_rootsOf {configured : List RootSetting} {uri : String} :
    uri ∈ (rootsOf configured).keys ↔ uri ∈ configured.map RootSetting.uri := by
  induction configured using List.reverseRecOn with
  | nil => rfl
  | append_singleton configured c ih =>
    rw [rootsOf_append, Roster.keys_insert, List.map_append, List.mem_append, ← ih]
    split
    · rename_i hold
      simp only [List.map_cons, List.map_nil, List.mem_singleton, iff_self_or]
      rintro rfl
      exact hold
    · rw [List.mem_append, List.map_singleton]

theorem pairwise_keys_rootsOf (configured : List RootSetting) :
    (rootsOf configured).keys.Pairwise fun uri other =>
      (configured.map RootSetting.uri).idxOf uri < (configured.map RootSetting.uri).idxOf other := by
  induction configured using List.reverseRecOn with
  | nil => exact .nil
  | append_singleton configured c ih =>
    -- one more root moves no first occurrence
    have hsame : ∀ uri ∈ (rootsOf configured).keys,
        ((configured ++ [c]).map RootSetting.uri).idxOf uri =
          (configured.map RootSetting.uri).idxOf uri := by
      intro uri huri
      rw [List.map_append, List.idxOf_append_of_mem (mem_keys_rootsOf.mp huri)]
    have hbefore : (rootsOf configured).keys.Pairwise fun uri other =>
        ((configured ++ [c]).map RootSetting.uri).idxOf uri <
          ((configured ++ [c]).map RootSetting.uri).idxOf other := by
      refine ih.imp_of_mem fun huri hother hlt => ?_
      rw [hsame _ huri, hsame _ hother]
      exact hlt
    rw [rootsOf_append, Roster.keys_insert]
    split
    · exact hbefore
    · rename_i hnew
      rw [List.pairwise_append]
      refine ⟨hbefore, List.pairwise_singleton _ _, fun uri huri other hother => ?_⟩
      rw [List.mem_singleton.mp hother, hsame _ huri, List.map_append,
        List.idxOf_append_of_notMem fun hold => hnew (mem_keys_rootsOf.mpr hold)]
      exact lt_of_lt_of_le (List.idxOf_lt_length_of_mem (mem_keys_rootsOf.mp huri))
        (Nat.le_add_right _ _)

/-- A root is named as the last setting of its URI names it. -/
def NamedByLast (configured : List RootSetting) (root : Root) : Prop :=
  ∃ before last after, configured = before ++ last :: after ∧ last.uri = root.uri ∧
    (∀ later ∈ after, later.uri ≠ root.uri) ∧ root.name = last.name.getD last.uri

theorem find?_rootsOf {configured : List RootSetting} {uri : String} {root : Root}
    (h : (rootsOf configured).find? uri = some root) :
    root.uri = uri ∧ NamedByLast configured root := by
  induction configured using List.reverseRecOn with
  | nil => cases h
  | append_singleton configured c ih =>
    rw [rootsOf_append] at h
    by_cases huri : uri = c.uri
    · subst huri
      rw [Roster.find?_insert_self] at h
      obtain rfl := Option.some.inj h
      exact ⟨rfl, configured, c, [], rfl, rfl, nofun, rfl⟩
    · rw [Roster.find?_insert_of_ne _ _ huri] at h
      obtain ⟨rfl, before, last, after, rfl, hlast, hlater, hname⟩ := ih h
      refine ⟨rfl, before, last, after ++ [c], by simp, hlast, fun later hmem => ?_, hname⟩
      rcases List.mem_append.mp hmem with hold | hnew
      · exact hlater later hold
      · rw [List.mem_singleton.mp hnew]
        exact Ne.symm huri

/-- Every configured URI is listed once, in the order of first occurrences, under the last name. -/
structure ListsOnce (configured : List RootSetting) (listed : List Root) : Prop where
  uris : ∀ uri, uri ∈ listed.map Root.uri ↔ uri ∈ configured.map RootSetting.uri
  once : (listed.map Root.uri).Nodup
  order : (listed.map Root.uri).Pairwise fun uri other =>
    (configured.map RootSetting.uri).idxOf uri < (configured.map RootSetting.uri).idxOf other
  names : ∀ root ∈ listed, NamedByLast configured root

theorem listsOnce_rootsOf (configured : List RootSetting) :
    ListsOnce configured (rootsOf configured).values := by
  have horder := pairwise_keys_rootsOf configured
  have honce : (rootsOf configured).keys.Nodup := by
    refine horder.imp ?_
    rintro uri _ hlt rfl
    exact lt_irrefl _ hlt
  have hfound : ∀ entry ∈ (rootsOf configured).entries,
      entry.2.uri = entry.1 ∧ NamedByLast configured entry.2 := fun entry hentry =>
    find?_rootsOf (Roster.find?_of_mem honce hentry)
  have huris : (rootsOf configured).values.map Root.uri = (rootsOf configured).keys := by
    rw [Roster.values, Roster.keys, List.map_map]
    exact List.map_congr_left fun entry hentry => (hfound entry hentry).1
  refine ⟨fun uri => ?_, ?_, ?_, fun root hroot => ?_⟩
  · rw [huris]
    exact mem_keys_rootsOf
  · rw [huris]
    exact honce
  · rw [huris]
    exact horder
  · obtain ⟨entry, hentry, rfl⟩ := List.mem_map.mp hroot
    exact (hfound entry hentry).2

theorem canonical_rootList (listed : List Root) :
    Json.canonical (.object [("roots", .array (listed.map Root.toJson))]) =
      .object [("roots", .array (listed.map fun root =>
        .object [("name", .string root.name), ("uri", .string root.uri)]))] := by
  have hroot (root : Root) : root.toJson.canonical =
      .object [("name", .string root.name), ("uri", .string root.uri)] := by
    rw [Root.toJson, Json.canonical]
    simp only [Json.canonicalMembers, Json.canonical, Json.sortMembers_pair]
    rw [Json.insertMember_cons_of_lt (by decide)]
  have hitems : (Json.array (listed.map Root.toJson)).canonical =
      .array (listed.map fun root =>
        .object [("name", .string root.name), ("uri", .string root.uri)]) := by
    rw [Json.canonical, Json.canonicalItems_eq_map, List.map_map]
    exact congrArg Json.array (List.map_congr_left fun root _ => hroot root)
  rw [Json.canonical, Json.canonicalMembers, hitems]
  rfl

/-! ### Valid settings -/

theorem fault?_eq_none {s : Settings} (h : s.fault? = none) :
    trimmed s.serverName.toList ≠ [] ∧ (0 < s.burstCapacity → ¬s.requestsPerSecond ≤ 0) ∧
      ∀ r ∈ s.roots, trimmed r.uri.toList ≠ [] := by
  simp only [fault?, isBlankText_eq, decide_eq_true_eq] at h
  split at h
  · cases h
  · rename_i hname
    split at h
    · cases h
    · rename_i hrate
      refine ⟨hname, fun hburst hle => ?_, ?_⟩
      · exact hrate (by simp [hburst, hle])
      · simpa [List.findIdx?_eq_none_iff] using h

/-- A burst is valid with a rate alone that is a positive number. -/
theorem rate_of_burst {file : Json} {s : Settings} (hread : file.IsRead)
    (hwritten : Written file s) (hvalid : s.fault? = none) (hburst : 0 < s.burstCapacity) :
    ∃ n, setting? file "rate_limit" "requests_per_second" = some (.number n) ∧
      n.TakenFor s.requestsPerSecond ∧ 0 < s.requestsPerSecond := by
  have hrate := (fault?_eq_none hvalid).2.1 hburst
  rcases hwritten.requestsPerSecond with ⟨-, hzero⟩ | ⟨n, hn, htaken⟩
  · rw [hzero] at hrate
    exact absurd (by decide +kernel) hrate
  · obtain ⟨part, hpart, hfield⟩ := Option.bind_eq_some_iff.mp hn
    have hnumber := (hread.recordField hpart).recordField hfield
    have hne : s.requestsPerSecond ≠ Float.nan :=
      Number.takenFor_iff.mp htaken ▸ Number.toFloat_ne_nan hnumber.agrees
    exact ⟨n, hn, htaken, float_pos_of_not_nonpos hne hrate⟩

theorem isRateLimited_eq_true_iff {file : Json} {s : Settings} (hread : file.IsRead)
    (hwritten : Written file s) (hvalid : s.fault? = none) :
    s.isRateLimited = true ↔ 0 < s.burstCapacity := by
  simp only [isRateLimited, Bool.and_eq_true, decide_eq_true_eq, and_iff_left_iff_imp]
  intro hburst
  obtain ⟨-, -, -, hpos⟩ := rate_of_burst hread hwritten hvalid hburst
  exact hpos

end Settings

/-! ### Handshakes -/

def advertisedLimit? (result : Json) : Option Json :=
  ((result.member? "capabilities").bind fun v => v.member? "experimental").bind fun v =>
    v.member? "rateLimit"

theorem experimental_capabilities (s : Server Device) :
    s.capabilities.canonical.member? "experimental" =
      if s.limiter.enabled then some (Server.rateLimitJson s.limiter).canonical else none := by
  have hother (condition : Bool) (key : String) (value : Json) (hkey : key ≠ "experimental") :
      (Server.memberIf condition key value).reverse.lookup "experimental" = none := by
    cases condition with
    | true => simp [Server.memberIf, Json.lookup_cons_ite, hkey.symm]
    | false => rfl
  have hown : (Server.memberIf s.limiter.enabled "experimental"
      (Server.rateLimitJson s.limiter)).reverse.lookup "experimental" =
      if s.limiter.enabled then some (Server.rateLimitJson s.limiter) else none := by
    cases s.limiter.enabled <;> rfl
  rw [Server.capabilities, Json.member?_canonical_object]
  simp only [List.reverse_append, List.lookup_append, hown, List.reverse_cons, List.reverse_nil,
    List.nil_append, Json.lookup_cons_ite, ne_eq, String.reduceEq, not_false_eq_true, hother]
  cases s.limiter.enabled <;> rfl

theorem rateLimit_rateLimitJson (limiter : TokenBucket Float) :
    (Server.rateLimitJson limiter).canonical.member? "rateLimit" =
      some (.object [("burstCapacity", .nat limiter.capacity),
        ("requestsPerSecond", .float limiter.rate)]) := by
  have hlimits : (Json.object [("burstCapacity", .nat limiter.capacity),
      ("requestsPerSecond", .float limiter.rate)]).canonical =
      .object [("burstCapacity", .nat limiter.capacity),
        ("requestsPerSecond", .float limiter.rate)] := by
    rw [Json.canonical]
    simp only [Json.canonicalMembers, Json.canonical_float, Json.sortMembers_pair]
    rw [Json.insertMember_cons_of_gt (by decide) (by decide)]
    rfl
  rw [Server.rateLimitJson, Json.member?_canonical_object]
  simpa using hlimits

theorem handshake_advertises {s : Server Device} (fresh : s.sessionId = none)
    (empty : s.sessions.table.entries = []) (device : Device) (readings : Readings)
    (params : Option Json) :
    ∃ result, (s.handshake device readings params).value = .ok result ∧
      advertisedLimit? result =
        if s.limiter.enabled then
          some (.object [("burstCapacity", .nat s.limiter.capacity),
            ("requestsPerSecond", .float s.limiter.rate)])
        else none := by
  have hcreate := Sessions.create_of_empty empty readings.sessionId (Handshake.clientName params)
    readings.opening
  simp only [Server.handshake, fresh, hcreate]
  refine ⟨_, rfl, ?_⟩
  rw [advertisedLimit?, Json.member?_canonical_object]
  simp only [List.reverse_cons, List.reverse_nil, List.nil_append, List.cons_append,
    Json.lookup_cons_ite, String.reduceEq, if_false, List.lookup_cons_self, Option.map_some,
    Option.bind_some, experimental_capabilities]
  cases s.limiter.enabled with
  | false => rfl
  | true => exact rateLimit_rateLimitJson s.limiter

/-! ### Servers -/

namespace Settings

open Json

/-- A server limits the rate as a file has it: not at all without a burst. -/
structure LimitApplied (file : Json) (now : Instant) (burst : Nat) (s : Server Device) : Prop where
  written : Given (setting? file "rate_limit" "burst_capacity") .nat 0 burst
  enabled : s.limiter.enabled = true ↔ 0 < burst
  filled : 0 < burst → ∃ n rate,
    setting? file "rate_limit" "requests_per_second" = some (.number n) ∧ n.TakenFor rate ∧
      0 < rate ∧ s.limiter =
        { enabled := true, rate, capacity := burst, level := Float.ofNat burst, refilledAt := now }
  advertised : ∀ device readings id params, ∃ result,
    (s.serve device readings id params .handshake).value = .ok result ∧
      advertisedLimit? result =
        if 0 < burst then
          some (.object [("burstCapacity", .nat burst), ("requestsPerSecond", .float s.limiter.rate)])
        else none

/-- A server lists the roots that a file has. -/
structure RootsApplied (file : Json) (listed : List Root) (s : Server Device) : Prop where
  written : ∃ configured, WrittenRoots (file.recordField? sections "roots") configured ∧
    ListsOnce configured listed
  notBlank : ∀ root ∈ listed, trimmed root.uri.toList ≠ []
  answered : ∀ device readings id params,
    ({ s with pageSize := 0 }.serve device readings id params .listRoots).value =
      .ok (.object [("roots", .array (listed.map fun root =>
        .object [("name", .string root.name), ("uri", .string root.uri)]))])

/-- A server is as a file has it, or as it is by default. The timeout counts nanoseconds. -/
structure Applied (file : Json) (now : Instant) (s : Server Device) : Prop where
  name : Given (setting? file "server" "name") .string "mcpd" s.identity.name
  notBlank : trimmed s.identity.name.toList ≠ []
  description : Given (setting? file "server" "description") optionalText none s.identity.description
  pageSize : Given (file.recordField? sections "page_size") .nat 0 s.pageSize
  maxSessions : Given (setting? file "sessions" "max_sessions") .nat 4 s.sessions.maxSessions
  idleTimeout : ∃ seconds, Given (setting? file "sessions" "idle_timeout_secs") .nat 1800 seconds ∧
    s.sessions.idleTimeout = seconds * 1000000000
  limit : ∃ burst, LimitApplied file now burst s
  roots : ∃ listed, RootsApplied file listed s

section Built

variable {file : Json} {s : Settings} (hwritten : Written file s) (hvalid : s.fault? = none)
  (now : Instant)
include hwritten hvalid

theorem limitApplied_ofOptions (hread : file.IsRead) :
    LimitApplied file now s.burstCapacity (Server.ofOptions s.toOptions now : Server Device) := by
  have hlimited := isRateLimited_eq_true_iff hread hwritten hvalid
  have hadvertised (device : Device) (readings : Readings) (params : Option Json) :=
    handshake_advertises (s := (Server.ofOptions s.toOptions now : Server Device)) rfl rfl device
      readings params
  by_cases hburst : 0 < s.burstCapacity
  · obtain ⟨n, hn, htaken, hpos⟩ := rate_of_burst hread hwritten hvalid hburst
    have hlimiter : (Server.ofOptions s.toOptions now : Server Device).limiter =
        { enabled := true, rate := s.requestsPerSecond, capacity := s.burstCapacity,
          level := Float.ofNat s.burstCapacity, refilledAt := now } := by
      simp only [Server.ofOptions, toOptions, hlimited.mpr hburst, if_true,
        TokenBucket.configure, LevelArithmetic.nonnegative, if_pos hpos]
      rfl
    refine ⟨hwritten.burstCapacity, ?_, fun _ => ⟨n, _, hn, htaken, hpos, hlimiter⟩, ?_⟩
    · simp only [hlimiter, hburst]
    · intro device readings id params
      obtain ⟨result, hresult, hlimit⟩ := hadvertised device readings params
      simp only [hlimiter, if_true] at hlimit
      refine ⟨result, hresult, ?_⟩
      rw [if_pos hburst, hlimit, hlimiter]
  · have hlimiter : (Server.ofOptions s.toOptions now : Server Device).limiter = .off := by
      simp only [Server.ofOptions, toOptions, Bool.eq_false_iff.mpr (mt hlimited.mp hburst),
        Bool.false_eq_true, if_false]
    refine ⟨hwritten.burstCapacity, ?_, fun h => absurd h hburst, ?_⟩
    · simp only [hlimiter, hburst, iff_false]
      exact nofun
    · intro device readings id params
      obtain ⟨result, hresult, hlimit⟩ := hadvertised device readings params
      refine ⟨result, hresult, ?_⟩
      rw [if_neg hburst, hlimit, hlimiter]
      rfl

theorem rootsApplied_ofOptions :
    RootsApplied file (rootsOf s.roots).values (Server.ofOptions s.toOptions now : Server Device) := by
  have honce := listsOnce_rootsOf s.roots
  refine ⟨⟨s.roots, hwritten.roots, honce⟩, fun root hroot => ?_, fun device readings id params => ?_⟩
  · obtain ⟨configured, hconfigured, heq⟩ :=
      List.mem_map.mp ((honce.uris root.uri).mp (List.mem_map_of_mem hroot))
    rw [← heq]
    exact (fault?_eq_none hvalid).2.2 configured hconfigured
  · rw [← canonical_rootList, ← roots_ofOptions s now]
    rfl

theorem applied_ofOptions (hread : file.IsRead) :
    Applied file now (Server.ofOptions s.toOptions now : Server Device) where
  name := hwritten.serverName
  notBlank := (fault?_eq_none hvalid).1
  description := hwritten.description
  pageSize := hwritten.pageSize
  maxSessions := hwritten.maxSessions
  idleTimeout := ⟨s.idleTimeoutSecs, hwritten.idleTimeoutSecs, rfl⟩
  limit := ⟨s.burstCapacity, limitApplied_ofOptions hwritten hvalid now hread⟩
  roots := ⟨_, rootsApplied_ofOptions hwritten hvalid now⟩

end Built

/-- A file that is accepted is applied as it is written. -/
theorem load_applied {path : String} {content : FileContent} {settings : Settings}
    (h : load path content = .ok settings) (now : Instant) :
    ∃ text file, content = .bytes (Utf8.encode text) ∧ Json.ofWritten? text = some file ∧
      Applied file now (Server.ofOptions settings.toOptions now : Server Device) := by
  cases content with
  | absent | unreadable => cases h
  | bytes content =>
    simp only [load] at h
    split at h
    · cases h
    · rename_i text hdecode
      unfold ofText at h
      split at h
      · cases h
      · rename_i s hsettings
        split at h
        · cases h
        · rename_i hvalid
          obtain rfl := Except.ok.inj h
          obtain ⟨file, hfile, hs⟩ := Option.bind_eq_some_iff.mp hsettings
          refine ⟨text, file, by rw [Utf8.decode_eq_ok_iff.mp hdecode], hfile, ?_⟩
          exact applied_ofOptions (written_of_ofJson? hs) hvalid now (isRead_of_ofWritten? hfile)

/-- A file with a rate limit that has one root twice; its sections and roots are arrays. -/
def repeatedRoots : String :=
  "\x7b\"rate_limit\":[2.5,3],\"roots\":[[\"x\"],[\"y\",\"Y\"],[\"x\",\"X\"]]\x7d"

theorem repeatedRoots_applied :
    ∃ settings, load "" (.bytes (Utf8.encode repeatedRoots)) = .ok settings ∧
      (rootsOf settings.roots).values = [⟨"x", "X"⟩, ⟨"y", "Y"⟩] ∧
      ∃ text file, FileContent.bytes (Utf8.encode repeatedRoots) = .bytes (Utf8.encode text) ∧
        Json.ofWritten? text = some file ∧
        Applied file 0 (Server.ofOptions settings.toOptions 0 : Server Unit) := by
  have hread : (load "" (.bytes (Utf8.encode repeatedRoots))).toOption.map Settings.roots =
      some [⟨"x", none⟩, ⟨"y", some "Y"⟩, ⟨"x", some "X"⟩] := by decide +kernel
  cases h : load "" (.bytes (Utf8.encode repeatedRoots)) with
  | error e =>
    rw [h] at hread
    cases hread
  | ok settings =>
    rw [h] at hread
    refine ⟨settings, rfl, ?_, load_applied h 0⟩
    rw [Option.some.inj hread]
    decide

end Settings

end ContextServer
