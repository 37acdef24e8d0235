import ContextServer.Json.Basic
import ContextServer.Roster

/-!
Named groups of tools with a switch. A tool may be in several groups; it is disabled when it is in at
least one and every group it is in is switched off. Each tool's groups are kept in the order in which
they took it in.
-/

namespace ContextServer

/-- Names in the order of arrival, each once. -/
abbrev NameList := List String

namespace NameList

/-- Adds a name at the end, unless it is there. -/
def add (names : NameList) (name : String) : NameList :=
  if names.contains name then names else names ++ [name]

def drop (names : NameList) (name : String) : NameList := names.filter (· != name)

end NameList

structure ToolGroup where
  description : String := ""
  enabled : Bool := true
  tools : NameList := []
  deriving DecidableEq

def ToolGroup.toJson (name : String) (g : ToolGroup) : Json :=
  .object ([("name", .string name)]
    ++ (if g.description.isEmpty then [] else [("description", .string g.description)])
    ++ [("enabled", .bool g.enabled), ("tools", .strings g.tools)])

/-- All groups, and for every grouped tool the groups it is in. -/
structure ToolGroups where
  groups : Roster String ToolGroup := {}
  memberships : Roster String NameList := {}

namespace ToolGroups

/-- Opens a group, switched on; a taken name is refused. -/
def create (s : ToolGroups) (name description : String) : Bool × ToolGroups :=
  if s.groups.contains name then (false, s)
  else (true, { s with groups := s.groups.insert name { description } })

def unlink (s : ToolGroups) (group tool : String) : ToolGroups :=
  match s.memberships.find? tool with
  | none => s
  | some names =>
    let left := NameList.drop names group
    { s with memberships :=
        if left.isEmpty then s.memberships.erase tool else s.memberships.insert tool left }

/-- Closes a group; its tools are no longer in it. -/
def remove (s : ToolGroups) (name : String) : Bool × ToolGroups :=
  match s.groups.find? name with
  | none => (false, s)
  | some g =>
    (true, g.tools.foldl (fun s tool => s.unlink name tool) { s with groups := s.groups.erase name })

/-- Puts a tool into a group, which is opened if need be; a member is not put in twice. -/
def addTool (s : ToolGroups) (group tool : String) : Bool × ToolGroups :=
  let g := (s.groups.find? group).getD {}
  if g.tools.contains tool then (false, s)
  else
    (true, {
      groups := s.groups.insert group { g with tools := NameList.add g.tools tool }
      memberships := s.memberships.insert tool
        (NameList.add ((s.memberships.find? tool).getD []) group) })

def removeTool (s : ToolGroups) (group tool : String) : Bool × ToolGroups :=
  match s.groups.find? group with
  | none => (false, s)
  | some g =>
    if g.tools.contains tool then
      (true, { s with groups := s.groups.insert group { g with tools := NameList.drop g.tools tool } }
        |>.unlink group tool)
    else (false, s)

def forgetTool (s : ToolGroups) (tool : String) : ToolGroups :=
  match s.memberships.find? tool with
  | none => s
  | some names =>
    { groups := names.foldl (fun groups name => groups.adjust name fun g =>
        { g with tools := NameList.drop g.tools tool }) s.groups
      memberships := s.memberships.erase tool }

/-- Switches a group; the answer tells whether its switch moved. -/
def setEnabled (s : ToolGroups) (name : String) (enabled : Bool) : Bool × ToolGroups :=
  match s.groups.find? name with
  | none => (false, s)
  | some g =>
    if g.enabled = enabled then (false, s)
    else (true, { s with groups := s.groups.insert name { g with enabled } })

/-- Whether there is a group of that name and it is on. -/
def isGroupEnabled (s : ToolGroups) (name : String) : Bool :=
  (s.groups.find? name).any ToolGroup.enabled

/-- The groups that a tool is in, first joined first. -/
def groupsForTool (s : ToolGroups) (tool : String) : NameList := (s.memberships.find? tool).getD []

/-- The tools of a group, first added first. -/
def toolsInGroup (s : ToolGroups) (name : String) : NameList :=
  ((s.groups.find? name).map ToolGroup.tools).getD []

/-- Whether a tool is in some group and all its groups are off. -/
def isToolDisabled (s : ToolGroups) (tool : String) : Bool :=
  match s.groupsForTool tool with
  | [] => false
  | names => names.all fun name => !s.isGroupEnabled name

/-- All groups as they are shown, first created first. -/
def toJson (s : ToolGroups) : Json :=
  .array (s.groups.entries.map fun entry => entry.2.toJson entry.1)

end ToolGroups

end ContextServer
