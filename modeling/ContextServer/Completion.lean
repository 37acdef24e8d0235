import ContextServer.Handler
import ContextServer.Roster

/-!
Completion of arguments. A provider offers candidates for one argument of a prompt or a resource; those
that begin with what was typed are given, a hundred at the most.
-/

namespace ContextServer

/-- What a completion refers to. -/
inductive RefKind where
  | prompt
  | resource
  deriving DecidableEq

/-- The kind of a reference by its type's name. -/
def RefKind.ofName? : String → Option RefKind
  | "ref/prompt" => some prompt
  | "ref/resource" => some resource
  | _ => none

/-- The argument that a provider serves. -/
structure CompletionKey where
  kind : RefKind
  reference : String
  argument : String
  deriving DecidableEq

/-- Candidates for what was typed so far; a crash gives none. -/
abbrev CompletionProvider (Device : Type) := String → OnDevice Device (Option (List String))

structure Completion where
  values : List String := []
  total : Nat := 0
  hasMore : Bool := false
  deriving DecidableEq

namespace Completion

def maxValues : Nat := 100

/-- The candidates that begin with what was typed. -/
def ofCandidates (typed : String) (candidates : List String) : Completion :=
  let hits := candidates.filter fun value => typed.toList.isPrefixOf value.toList
  ⟨hits.take maxValues, hits.length, maxValues < hits.length⟩

def toJson (c : Completion) : Json :=
  .object [("hasMore", .bool c.hasMore), ("total", .nat c.total), ("values", .strings c.values)]

end Completion

structure Completions (Device : Type) where
  providers : Roster CompletionKey (CompletionProvider Device) := {}

namespace Completions

variable {Device : Type}

/-- Registers a provider; an older one for the same argument is replaced. -/
def addProvider (c : Completions Device) (key : CompletionKey)
    (provider : CompletionProvider Device) : Completions Device :=
  ⟨c.providers.insert key provider⟩

def addValues (c : Completions Device) (key : CompletionKey) (values : List String) :
    Completions Device :=
  c.addProvider key fun _ device => (some values, device)

/-- Completes what was typed; `none` if the provider crashes. Without a provider there is nothing. -/
def complete (c : Completions Device) (key : CompletionKey) (typed : String) :
    OnDevice Device (Option Completion) :=
  fun device =>
    match c.providers.find? key with
    | none => (some {}, device)
    | some provider =>
      let (candidates, device) := provider typed device
      (candidates.map (Completion.ofCandidates typed), device)

end Completions

end ContextServer
