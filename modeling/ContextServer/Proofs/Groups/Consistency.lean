import ContextServer.Proofs.Groups.Index
import ContextServer.Proofs.Rosters

/-!
Groups and their index after any sequence of changes. A group lists a tool exactly when the index lists
the group for the tool; nothing is listed twice, the index names existing groups only and keeps no
tool without a group. So a tool is disabled exactly when some group has it and every group that has it
is off.
-/

namespace ContextServer

/-- One change of the groups. -/
inductive GroupStep where
  | create (name description : String)
  | remove (name : String)
  | addTool (group tool : String)
  | removeTool (group tool : String)
  | forgetTool (tool : String)
  | setEnabled (name : String) (enabled : Bool)

namespace NameList

variable {names : NameList}

theorem nodup_add (h : names.Nodup) (name : String) : (add names name).Nodup := by
  unfold add
  split
  · exact h
  · rename_i hnew
    rw [List.nodup_append]
    refine ⟨h, List.pairwise_singleton _ _, ?_⟩
    rintro other hother last hlast rfl
    rw [List.mem_singleton.mp hlast] at hother
    exact hnew (List.contains_iff_mem.mpr hother)

theorem nodup_drop (h : names.Nodup) (name : String) : (drop names name).Nodup :=
  h.sublist List.filter_sublist

theorem add_ne_nil (names : NameList) (name : String) : add names name ≠ [] := by
  unfold add
  split
  · rename_i hthere
    rintro rfl
    cases hthere
  · simp

theorem drop_drop (names : NameList) (name : String) : drop (drop names name) name = drop names name := by
  unfold drop
  rw [List.filter_filter]
  simp

end NameList

namespace ToolGroups

def perform (s : ToolGroups) : GroupStep → ToolGroups
  | .create name description => (s.create name description).2
  | .remove name => (s.remove name).2
  | .addTool group tool => (s.addTool group tool).2
  | .removeTool group tool => (s.removeTool group tool).2
  | .forgetTool tool => s.forgetTool tool
  | .setEnabled name enabled => (s.setEnabled name enabled).2

/-! ### Taking a group off the index -/

variable {s : ToolGroups}

theorem groupsForTool_insert (groups : Roster String ToolGroup)
    (memberships : Roster String NameList) (tool other : String) (names : NameList) :
    groupsForTool ⟨groups, memberships.insert tool names⟩ other =
      if other = tool then names else groupsForTool ⟨groups, memberships⟩ other := by
  unfold groupsForTool
  by_cases h : other = tool
  · simp [h]
  · rw [Roster.find?_insert_of_ne _ _ h, if_neg h]

theorem groupsForTool_erase (groups : Roster String ToolGroup)
    (memberships : Roster String NameList) (tool other : String) :
    groupsForTool ⟨groups, memberships.erase tool⟩ other =
      if other = tool then [] else groupsForTool ⟨groups, memberships⟩ other := by
  unfold groupsForTool
  by_cases h : other = tool
  · simp [h]
  · rw [Roster.find?_erase_of_ne _ h, if_neg h]

theorem toolsInGroup_erase (groups : Roster String ToolGroup)
    (memberships : Roster String NameList) (name group : String) :
    toolsInGroup ⟨groups.erase name, memberships⟩ group =
      if group = name then [] else toolsInGroup ⟨groups, memberships⟩ group := by
  unfold toolsInGroup
  by_cases h : group = name
  · simp [h]
  · rw [Roster.find?_erase_of_ne _ h, if_neg h]

theorem unlink_groups (s : ToolGroups) (group tool : String) :
    (s.unlink group tool).groups = s.groups := by
  unfold unlink
  split <;> rfl

theorem groupsForTool_unlink (s : ToolGroups) (group tool other : String) :
    (s.unlink group tool).groupsForTool other =
      if other = tool then NameList.drop (s.groupsForTool tool) group else s.groupsForTool other := by
  unfold unlink
  split
  · rename_i hnone
    split
    · rename_i hother
      simp [hother, groupsForTool, hnone, NameList.drop]
    · rfl
  · rename_i names hnames
    have hlisted : s.groupsForTool tool = names := by simp [groupsForTool, hnames]
    dsimp only
    split
    · rename_i hempty
      rw [groupsForTool_erase, hlisted, List.isEmpty_iff.mp hempty]
    · rw [groupsForTool_insert, hlisted]

theorem foldl_unlink_groups (tools : NameList) (s : ToolGroups) (group : String) :
    (tools.foldl (fun s tool => s.unlink group tool) s).groups = s.groups := by
  induction tools generalizing s with
  | nil => rfl
  | cons first rest ih => rw [List.foldl_cons, ih, unlink_groups]

theorem groupsForTool_foldl_unlink (tools : NameList) (s : ToolGroups) (group other : String) :
    (tools.foldl (fun s tool => s.unlink group tool) s).groupsForTool other =
      if other ∈ tools then NameList.drop (s.groupsForTool other) group
      else s.groupsForTool other := by
  induction tools generalizing s with
  | nil => rfl
  | cons first rest ih =>
    rw [List.foldl_cons, ih, groupsForTool_unlink]
    by_cases hfirst : other = first
    · subst hfirst
      simp [NameList.drop_drop]
    · simp [hfirst]

/-! ### The index agrees with the groups -/

/-- The index still agrees when the same members are taken out on both sides. -/
theorem Linked.of_taken_out {t : ToolGroups} (h : s.Linked) (out : String → String → Prop)
    (tools : ∀ group tool, tool ∈ t.toolsInGroup group ↔ tool ∈ s.toolsInGroup group ∧ ¬out group tool)
    (groups : ∀ group tool,
      group ∈ t.groupsForTool tool ↔ group ∈ s.groupsForTool tool ∧ ¬out group tool) : t.Linked := by
  intro group tool
  rw [tools, groups, h group tool]

theorem Linked.remove (h : s.Linked) (name : String) : (s.remove name).2.Linked := by
  unfold ToolGroups.remove
  split
  · exact h
  · rename_i g hg
    have hlisted : s.toolsInGroup name = g.tools := by simp [toolsInGroup, hg]
    refine h.of_taken_out (fun group _ => group = name) (fun group tool => ?_) (fun group tool => ?_)
    · unfold toolsInGroup
      rw [foldl_unlink_groups]
      change tool ∈ toolsInGroup ⟨s.groups.erase name, s.memberships⟩ group ↔ _
      rw [toolsInGroup_erase]
      by_cases hgroup : group = name
      · simp [hgroup]
      · simp [hgroup, toolsInGroup]
    · rw [groupsForTool_foldl_unlink]
      change group ∈ (if tool ∈ g.tools then NameList.drop (s.groupsForTool tool) name
        else s.groupsForTool tool) ↔ _
      split
      · exact NameList.mem_drop
      · -- the closed group is not among those of a tool that it does not list
        rename_i htool
        refine (and_iff_left_of_imp ?_).symm
        rintro hmem rfl
        rw [h, hlisted] at hmem
        exact htool hmem

theorem Linked.removeTool (h : s.Linked) (group tool : String) :
    (s.removeTool group tool).2.Linked := by
  unfold ToolGroups.removeTool
  split
  · exact h
  · rename_i g hg
    split
    · have hlisted : s.toolsInGroup group = g.tools := by simp [toolsInGroup, hg]
      refine h.of_taken_out (fun other name => other = group ∧ name = tool) (fun other name => ?_)
        (fun other name => ?_)
      · unfold toolsInGroup
        rw [unlink_groups]
        change name ∈ toolsInGroup ⟨s.groups.insert group _, s.memberships⟩ other ↔
          name ∈ s.toolsInGroup other ∧ _
        rw [toolsInGroup_insert]
        by_cases hother : other = group
        · simp [hother, hlisted, NameList.mem_drop]
        · simp [hother]
      · rw [groupsForTool_unlink]
        by_cases hname : name = tool
        · simp [hname, NameList.mem_drop, groupsForTool]
        · simp [hname, groupsForTool]
    · exact h

/-! ### No change makes the index untidy -/

/-- Groups list no tool twice. -/
def TidyGroups (groups : Roster String ToolGroup) : Prop := groups.Tidy fun g => g.tools.Nodup

/-- Tools with a group only, and none of their groups twice. -/
def TidyIndex (memberships : Roster String NameList) : Prop :=
  memberships.Tidy fun names => names.Nodup ∧ names ≠ []

theorem TidyIndex.unlink (h : TidyIndex s.memberships) (group tool : String) :
    TidyIndex (s.unlink group tool).memberships := by
  unfold ToolGroups.unlink
  split
  · exact h
  · rename_i names hnames
    dsimp only
    split
    · exact h.erase tool
    · rename_i hleft
      have hnodup : names.Nodup := (h.of_find? hnames).1
      exact h.insert tool ⟨NameList.nodup_drop hnodup group, mt List.isEmpty_iff.mpr hleft⟩

theorem TidyIndex.foldl_unlink (tools : NameList) (h : TidyIndex s.memberships) (group : String) :
    TidyIndex (tools.foldl (fun s tool => s.unlink group tool) s).memberships := by
  induction tools generalizing s with
  | nil => exact h
  | cons first rest ih => exact ih (h.unlink group first)

theorem TidyGroups.foldl_adjust (names : NameList) {groups : Roster String ToolGroup}
    (h : TidyGroups groups) (tool : String) :
    TidyGroups (names.foldl (fun groups name => groups.adjust name fun g =>
      { g with tools := NameList.drop g.tools tool }) groups) := by
  induction names generalizing groups with
  | nil => exact h
  | cons first rest ih =>
    exact ih (h.adjust first fun g hg => NameList.nodup_drop hg tool)

/-- The groups and their index agree, and nothing is listed twice or for nothing. -/
structure Consistent (s : ToolGroups) : Prop where
  linked : s.Linked
  groups : TidyGroups s.groups
  memberships : TidyIndex s.memberships

namespace Consistent

theorem create (h : s.Consistent) (name description : String) :
    (s.create name description).2.Consistent where
  linked := h.linked.create name description
  groups := by
    unfold ToolGroups.create
    split
    · exact h.groups
    · exact h.groups.insert name List.nodup_nil
  memberships := by
    unfold ToolGroups.create
    split <;> exact h.memberships

theorem remove (h : s.Consistent) (name : String) : (s.remove name).2.Consistent where
  linked := h.linked.remove name
  groups := by
    unfold ToolGroups.remove
    split
    · exact h.groups
    · dsimp only
      rw [foldl_unlink_groups]
      exact h.groups.erase name
  memberships := by
    unfold ToolGroups.remove
    split
    · exact h.memberships
    · exact TidyIndex.foldl_unlink (s := ⟨s.groups.erase name, s.memberships⟩) _ h.memberships name

theorem addTool (h : s.Consistent) (group tool : String) : (s.addTool group tool).2.Consistent where
  linked := h.linked.addTool group tool
  groups := by
    have hnodup : ((s.groups.find? group).getD {}).tools.Nodup := by
      cases hg : s.groups.find? group with
      | none => exact List.nodup_nil
      | some g => exact h.groups.of_find? hg
    unfold ToolGroups.addTool
    dsimp only
    split
    · exact h.groups
    · exact h.groups.insert group (NameList.nodup_add hnodup tool)
  memberships := by
    have hnodup : ((s.memberships.find? tool).getD []).Nodup := by
      cases hnames : s.memberships.find? tool with
      | none => exact List.nodup_nil
      | some names => exact (h.memberships.of_find? hnames).1
    unfold ToolGroups.addTool
    dsimp only
    split
    · exact h.memberships
    · exact h.memberships.insert tool
        ⟨NameList.nodup_add hnodup group, NameList.add_ne_nil _ group⟩

theorem removeTool (h : s.Consistent) (group tool : String) :
    (s.removeTool group tool).2.Consistent where
  linked := h.linked.removeTool group tool
  groups := by
    unfold ToolGroups.removeTool
    split
    · exact h.groups
    · rename_i g hg
      split
      · dsimp only
        rw [unlink_groups]
        exact h.groups.insert group (NameList.nodup_drop (h.groups.of_find? hg) tool)
      · exact h.groups
  memberships := by
    unfold ToolGroups.removeTool
    split
    · exact h.memberships
    · rename_i g hg
      split
      · exact TidyIndex.unlink (s := ⟨s.groups.insert group _, s.memberships⟩) h.memberships group tool
      · exact h.memberships

theorem forgetTool (h : s.Consistent) (tool : String) : (s.forgetTool tool).Consistent where
  linked := h.linked.forgetTool tool
  groups := by
    unfold ToolGroups.forgetTool
    split
    · exact h.groups
    · exact h.groups.foldl_adjust _ tool
  memberships := by
    unfold ToolGroups.forgetTool
    split
    · exact h.memberships
    · exact h.memberships.erase tool

theorem setEnabled (h : s.Consistent) (name : String) (enabled : Bool) :
    (s.setEnabled name enabled).2.Consistent where
  linked := h.linked.setEnabled name enabled
  groups := by
    unfold ToolGroups.setEnabled
    split
    · exact h.groups
    · rename_i g hg
      split
      · exact h.groups
      · have hnodup : g.tools.Nodup := h.groups.of_find? hg
        exact h.groups.insert name hnodup
  memberships := by
    unfold ToolGroups.setEnabled
    split
    · exact h.memberships
    · split <;> exact h.memberships

theorem perform (h : s.Consistent) (step : GroupStep) : (s.perform step).Consistent := by
  cases step with
  | create name description => exact h.create name description
  | remove name => exact h.remove name
  | addTool group tool => exact h.addTool group tool
  | removeTool group tool => exact h.removeTool group tool
  | forgetTool tool => exact h.forgetTool tool
  | setEnabled name enabled => exact h.setEnabled name enabled

theorem run (h : s.Consistent) (steps : List GroupStep) :
    (steps.foldl ToolGroups.perform s).Consistent := by
  induction steps generalizing s with
  | nil => exact h
  | cons step rest ih => exact ih (h.perform step)

end Consistent

/-- The groups after a sequence of changes, none being there before. -/
def groupsAfter (steps : List GroupStep) : ToolGroups := steps.foldl perform {}

theorem consistent_groupsAfter (steps : List GroupStep) : (groupsAfter steps).Consistent :=
  Consistent.run ⟨linked_empty, Roster.tidy_empty, Roster.tidy_empty⟩ steps

/-! ### What a consistent index says -/

theorem mem_groupsForTool {group tool : String} :
    group ∈ s.groupsForTool tool ↔ ∃ names, s.memberships.find? tool = some names ∧ group ∈ names := by
  unfold groupsForTool
  cases s.memberships.find? tool <;> simp

theorem mem_toolsInGroup {group tool : String} :
    tool ∈ s.toolsInGroup group ↔ ∃ g, s.groups.find? group = some g ∧ tool ∈ g.tools := by
  unfold toolsInGroup
  cases s.groups.find? group <;> simp

namespace Consistent

theorem mem_iff (h : s.Consistent) (group tool : String) :
    (∃ g, s.groups.find? group = some g ∧ tool ∈ g.tools) ↔
      ∃ names, s.memberships.find? tool = some names ∧ group ∈ names := by
  rw [← mem_groupsForTool, ← mem_toolsInGroup]
  exact (h.linked group tool).symm

theorem contains_of_mem (h : s.Consistent) {tool group : String} {names : NameList}
    (hnames : s.memberships.find? tool = some names) (hgroup : group ∈ names) :
    s.groups.contains group = true := by
  obtain ⟨g, hg, -⟩ := (h.mem_iff group tool).mpr ⟨names, hnames, hgroup⟩
  simp [Roster.contains, hg]

theorem isToolDisabled_iff (h : s.Consistent) (tool : String) :
    s.isToolDisabled tool = true ↔
      (∃ group g, s.groups.find? group = some g ∧ tool ∈ g.tools) ∧
        ∀ group g, s.groups.find? group = some g → tool ∈ g.tools → g.enabled = false := by
  rw [h.linked.isToolDisabled_iff]
  simp only [mem_toolsInGroup]
  refine and_congr_right fun _ => ⟨fun hall group g hg htool => ?_, fun hall group => ?_⟩
  · simpa [isGroupEnabled, hg] using hall group ⟨g, hg, htool⟩
  · rintro ⟨g, hg, htool⟩
    simpa [isGroupEnabled, hg] using hall group g hg htool

end Consistent

/-- Groups and their index after any sequence of changes. -/
theorem groups_consistent (steps : List GroupStep) :
    let s := groupsAfter steps
    (∀ group tool, (∃ g, s.groups.find? group = some g ∧ tool ∈ g.tools) ↔
      ∃ names, s.memberships.find? tool = some names ∧ group ∈ names) ∧
    (s.groups.keys.Nodup ∧ s.memberships.keys.Nodup ∧
      (∀ group g, s.groups.find? group = some g → g.tools.Nodup) ∧
      ∀ tool names, s.memberships.find? tool = some names → names.Nodup ∧ names ≠ [] ∧
        ∀ group ∈ names, s.groups.contains group = true) ∧
    (∀ tool, s.isToolDisabled tool = true ↔
      (∃ group g, s.groups.find? group = some g ∧ tool ∈ g.tools) ∧
        ∀ group g, s.groups.find? group = some g → tool ∈ g.tools → g.enabled = false) ∧
    ∀ group tool, group ∈ s.groupsForTool tool ↔ tool ∈ s.toolsInGroup group := by
  intro s
  have h : s.Consistent := consistent_groupsAfter steps
  refine ⟨h.mem_iff, ⟨h.groups.once, h.memberships.once, ?_, ?_⟩, h.isToolDisabled_iff, h.linked⟩
  · intro group g hg
    exact h.groups.of_find? hg
  · intro tool names hnames
    obtain ⟨hnodup, hsome⟩ := h.memberships.of_find? hnames
    exact ⟨hnodup, hsome, fun group hgroup => h.contains_of_mem hnames hgroup⟩

/-- Three groups of overlapping tools; one is off, another one is closed. -/
def overlapping : List GroupStep :=
  [.create "work" "", .addTool "work" "read", .addTool "home" "read", .addTool "home" "write",
    .addTool "spare" "write", .setEnabled "home" false, .remove "work", .removeTool "spare" "write",
    .forgetTool "gone"]

/-- The tools are in the group that is off only. -/
theorem overlapping_disabled :
    (groupsAfter overlapping).groupsForTool "read" = ["home"] ∧
      (groupsAfter overlapping).toolsInGroup "home" = ["read", "write"] ∧
      (∃ group g, (groupsAfter overlapping).groups.find? group = some g ∧ "write" ∈ g.tools) ∧
      ∀ group g, (groupsAfter overlapping).groups.find? group = some g → "write" ∈ g.tools →
        g.enabled = false := by
  refine ⟨by decide, by decide, ?_⟩
  exact ((groups_consistent overlapping).2.2.1 "write").mp (by decide)

end ToolGroups

end ContextServer
