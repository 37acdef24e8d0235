import ContextServer.Prompt
import ContextServer.Resource
import ContextServer.Roster
import ContextServer.Tool

/-!
Catalogs of what a server offers, each in the order of registration. Registering a present key replaces
the entry in its place.
-/

namespace ContextServer

/-- A place that the client may look into. -/
structure Root where
  uri : String
  name : String
  deriving DecidableEq

def Root.toJson (r : Root) : Json := .object [("uri", .string r.uri), ("name", .string r.name)]

structure Catalog (Device : Type) where
  tools : Roster String (Tool Device) := {}
  resources : Roster String (Resource Device) := {}
  templates : Roster String (TemplatedResource Device) := {}
  prompts : Roster String (Prompt Device) := {}
  roots : Roster String Root := {}

namespace Catalog

variable {Device : Type}

def addTool (c : Catalog Device) (t : Tool Device) : Catalog Device :=
  { c with tools := c.tools.insert t.name t }

def addResource (c : Catalog Device) (r : Resource Device) : Catalog Device :=
  { c with resources := c.resources.insert r.uri r }

def addTemplate (c : Catalog Device) (t : TemplatedResource Device) : Catalog Device :=
  { c with templates := c.templates.insert t.template.text t }

def addPrompt (c : Catalog Device) (p : Prompt Device) : Catalog Device :=
  { c with prompts := c.prompts.insert p.name p }

def addRoot (c : Catalog Device) (r : Root) : Catalog Device :=
  { c with roots := c.roots.insert r.uri r }

def hasResources (c : Catalog Device) : Bool := !c.resources.isEmpty || !c.templates.isEmpty

/-- What a URI leads to: the resource of exactly that URI, or else the first template that matches. -/
def resolve? (c : Catalog Device) (uri : String) : Option (ResourceMatch Device) :=
  match c.resources.find? uri with
  | some r => some (.static r)
  | none =>
    c.templates.values.findSome? fun t => (t.template.matchUri? uri).map (.templated t)

end Catalog

end ContextServer
