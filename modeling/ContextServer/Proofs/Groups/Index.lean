import ContextServer.Proofs.Notifications.Issued

/-!
Groups and the index of memberships. What the index says of a tool is what the groups themselves
list, after every change that a server makes to its groups; hence a tool is disabled exactly when some
group lists it and every group that does is off.
-/

namespace ContextServer

theorem NameList.mem_add {names : NameList} {name other : String} :
    other ∈ NameList.add names name ↔ other ∈ names ∨ other = name := by
  have h := NameList.contains_add names name other
  rw [Bool.eq_iff_iff] at h
  simpa using h

theorem NameList.mem_drop {names : NameList} {name other : String} :
    other ∈ NameList.drop names name ↔ other ∈ names ∧ other ≠ name := by
  have h := NameList.contains_drop names name other
  rw [Bool.eq_iff_iff] at h
  simpa using h

namespace ToolGroups

/-- The index lists a group for a tool exactly when the group lists the tool. -/
def Linked (s : ToolGroups) : Prop :=
  ∀ group tool, group ∈ s.groupsForTool tool ↔ tool ∈ s.toolsInGroup group

variable {s : ToolGroups}

theorem Linked.of_same {t : ToolGroups} (h : s.Linked)
    (tools : ∀ group, t.toolsInGroup group = s.toolsInGroup group)
    (memberships : t.memberships = s.memberships) : t.Linked := by
  intro group tool
  unfold groupsForTool
  rw [tools, memberships]
  exact h group tool

theorem linked_empty : ({} : ToolGroups).Linked := by
  intro group tool
  simp [groupsForTool, toolsInGroup, Roster.find?]

theorem toolsInGroup_insert (groups : Roster String ToolGroup)
    (memberships : Roster String NameList) (name group : String) (g : ToolGroup) :
    toolsInGroup ⟨groups.insert name g, memberships⟩ group =
      if group = name then g.tools else toolsInGroup ⟨groups, memberships⟩ group := by
  unfold toolsInGroup
  by_cases h : group = name
  · simp [h]
  · rw [Roster.find?_insert_of_ne _ _ h, if_neg h]

theorem Linked.create (h : s.Linked) (name description : String) :
    (s.create name description).2.Linked := by
  unfold ToolGroups.create
  split
  · exact h
  · rename_i hnew
    refine h.of_same (fun group => ?_) rfl
    rw [toolsInGroup_insert]
    split
    · rename_i hgroup
      have hnone : s.groups.find? name = none := by simpa [Roster.contains] using hnew
      rw [hgroup, toolsInGroup, hnone]
      rfl
    · rfl

theorem Linked.setEnabled (h : s.Linked) (name : String) (enabled : Bool) :
    (s.setEnabled name enabled).2.Linked := by
  unfold ToolGroups.setEnabled
  split
  · exact h
  · rename_i g hg
    split
    · exact h
    · refine h.of_same (fun group => ?_) rfl
      rw [toolsInGroup_insert]
      split
      · rename_i hgroup
        rw [hgroup, toolsInGroup, hg]
        rfl
      · rfl

theorem Linked.addTool (h : s.Linked) (group tool : String) : (s.addTool group tool).2.Linked := by
  have hlisted : ((s.groups.find? group).getD {}).tools = s.toolsInGroup group := by
    unfold toolsInGroup
    cases s.groups.find? group <;> rfl
  unfold ToolGroups.addTool
  dsimp only
  split
  · exact h
  · intro other name
    have hmembers := h other name
    rw [toolsInGroup_insert, hlisted]
    unfold groupsForTool at hmembers ⊢
    dsimp only
    by_cases hname : name = tool
    · subst hname
      rw [Roster.find?_insert_self, Option.getD_some, NameList.mem_add, hmembers]
      by_cases hother : other = group
      · subst hother
        simp [NameList.mem_add]
      · simp [hother, toolsInGroup]
    · rw [Roster.find?_insert_of_ne _ _ hname, hmembers]
      by_cases hother : other = group
      · subst hother
        simp [NameList.mem_add, hname]
      · simp [hother, toolsInGroup]

/-- Taking a tool out of the groups of a list leaves the other groups and the other tools alone. -/
theorem mem_toolsInGroup_foldl_adjust (names : NameList) (groups : Roster String ToolGroup)
    (memberships : Roster String NameList) (tool group name : String) :
    name ∈ toolsInGroup ⟨names.foldl (fun groups name => groups.adjust name fun g =>
        { g with tools := NameList.drop g.tools tool }) groups, memberships⟩ group ↔
      name ∈ toolsInGroup ⟨groups, memberships⟩ group ∧ ¬(name = tool ∧ group ∈ names) := by
  induction names generalizing groups with
  | nil => simp
  | cons first rest ih =>
    have hfirst : name ∈ toolsInGroup ⟨groups.adjust first fun g =>
          { g with tools := NameList.drop g.tools tool }, memberships⟩ group ↔
        name ∈ toolsInGroup ⟨groups, memberships⟩ group ∧ ¬(name = tool ∧ group = first) := by
      unfold toolsInGroup
      dsimp only
      rw [Roster.find?_adjust]
      by_cases hgroup : group = first
      · subst hgroup
        cases groups.find? group <;> simp [NameList.mem_drop]
      · simp [hgroup]
    rw [List.foldl_cons, ih, hfirst, List.mem_cons, and_or_left, not_or, and_assoc]

theorem Linked.forgetTool (h : s.Linked) (tool : String) : (s.forgetTool tool).Linked := by
  unfold ToolGroups.forgetTool
  split
  · exact h
  · rename_i names hnames
    have hlisted (group : String) : group ∈ names ↔ tool ∈ s.toolsInGroup group := by
      rw [← h group tool, groupsForTool, hnames]
      rfl
    intro group name
    rw [mem_toolsInGroup_foldl_adjust]
    unfold groupsForTool
    dsimp only
    by_cases hname : name = tool
    · subst hname
      rw [Roster.find?_erase_self, hlisted]
      simp [toolsInGroup]
    · rw [Roster.find?_erase_of_ne _ hname]
      have hmembers := h group name
      unfold groupsForTool at hmembers
      rw [hmembers]
      simp [hname, toolsInGroup]

/-- A tool is disabled when some group lists it and every group that does is off. -/
theorem Linked.isToolDisabled_iff (h : s.Linked) (tool : String) :
    s.isToolDisabled tool = true ↔
      (∃ group, tool ∈ s.toolsInGroup group) ∧
        ∀ group, tool ∈ s.toolsInGroup group → s.isGroupEnabled group = false := by
  simp only [← h _ tool]
  unfold isToolDisabled
  cases s.groupsForTool tool with
  | nil => simp
  | cons first rest =>
    simp only [List.all_eq_true, Bool.not_eq_true']
    exact ⟨fun hall => ⟨⟨first, List.mem_cons_self⟩, hall⟩, fun hall => hall.2⟩

end ToolGroups

end ContextServer
