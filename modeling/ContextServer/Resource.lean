import ContextServer.Handler
import ContextServer.UriTemplate

/-!
Resources: content under a URI, produced by a handler when it is read. A static resource has one URI; a
templated one serves every URI that matches its template, and its handler is given the bindings.
-/

namespace ContextServer

/-- Who a resource is for, and how much it matters. -/
structure ResourceHints where
  audience : List String := []
  priority : Option Float := none

namespace ResourceHints

/-- A priority held between zero and one. -/
def clampPriority (x : Float) : Float := if x < 0 then 0 else if 1 < x then 1 else x

def toJson (h : ResourceHints) : Json :=
  .object ((if h.audience.isEmpty then [] else [("audience", .strings h.audience)])
    ++ optionalMember "priority" (h.priority.map .float))

end ResourceHints

/-- How a resource is described. -/
structure ResourceCard where
  name : String
  description : String
  mimeType : String
  hints : Option ResourceHints := none
  icons : List Icon := []

/-- The members of a description, after the one that says where the resource is. -/
def ResourceCard.members (c : ResourceCard) : List (String × Json) :=
  [("name", .string c.name), ("description", .string c.description), ("mimeType", .string c.mimeType)]
    ++ optionalMember "annotations" (c.hints.map ResourceHints.toJson) ++ iconsMember c.icons

structure Resource (Device : Type) where
  uri : String
  card : ResourceCard
  run : OnDevice Device (Outcome String)

/-- A resource of all URIs that match a template. -/
structure TemplatedResource (Device : Type) where
  template : UriTemplate
  card : ResourceCard
  run : Bindings → OnDevice Device (Outcome String)

/-- Content that was read. -/
structure ResourceContents where
  uri : String
  mimeType : String
  text : String

def ResourceContents.toJson (c : ResourceContents) : Json :=
  .object [("uri", .string c.uri), ("mimeType", .string c.mimeType), ("text", .string c.text)]

/-- What a run gives for a URI; a crash is a failure too. -/
def ResourceCard.contents (c : ResourceCard) (uri : String) :
    Outcome String → Except HandlerError ResourceContents
  | .returned text => .ok ⟨uri, c.mimeType, text⟩
  | .failed e => .error e
  | .crashed => .error (.failed "resource handler panicked")

def Resource.toJson {Device : Type} (r : Resource Device) : Json :=
  .object (("uri", .string r.uri) :: r.card.members)

def TemplatedResource.toJson {Device : Type} (t : TemplatedResource Device) : Json :=
  .object (("uriTemplate", .string t.template.text) :: t.card.members)

/-- What a URI leads to. -/
inductive ResourceMatch (Device : Type) where
  | static (resource : Resource Device)
  | templated (resource : TemplatedResource Device) (bindings : Bindings)

def ResourceMatch.read {Device : Type} (found : ResourceMatch Device) (uri : String) :
    OnDevice Device (Except HandlerError ResourceContents) :=
  fun device =>
    match found with
    | static r =>
      let (outcome, device) := r.run device
      (r.card.contents r.uri outcome, device)
    | templated t bindings =>
      let (outcome, device) := t.run bindings device
      (t.card.contents uri outcome, device)

end ContextServer
