import ContextServer.Json.Basic

/-!
What an error reply says: a numeric code, a message and optional data. The codes of the protocol are
fixed; the server has its own for a refused admission and for a full session table.
-/

namespace ContextServer

inductive FaultKind where
  | parseError
  | invalidRequest
  | methodNotFound
  | invalidParams
  | internalError
  | serverError (code : Int)
  deriving DecidableEq

namespace FaultKind

def code : FaultKind → Int
  | parseError => -32700
  | invalidRequest => -32600
  | methodNotFound => -32601
  | invalidParams => -32602
  | internalError => -32603
  | serverError code => code

/-- The words of a kind, where nothing more is said. -/
def defaultMessage : FaultKind → String
  | parseError => "Parse error"
  | invalidRequest => "Invalid Request"
  | methodNotFound => "Method not found"
  | invalidParams => "Invalid params"
  | internalError => "Internal error"
  | serverError _ => "Server error"

/-- A request was refused by the rate limit. -/
def rateLimited : FaultKind := serverError (-32000)

/-- No session could be opened. -/
def sessionLimit : FaultKind := serverError (-32001)

end FaultKind

structure Fault where
  kind : FaultKind
  message : String
  data : Option Json := none

namespace Fault

/-- The error of a kind in its default words. -/
def ofKind (kind : FaultKind) : Fault := ⟨kind, kind.defaultMessage, none⟩

def invalidParams (message : String) : Fault := ⟨.invalidParams, message, none⟩

def internalError (message : String) : Fault := ⟨.internalError, message, none⟩

def methodNotFound (method : String) : Fault :=
  ⟨.methodNotFound, "Method not found: " ++ method, none⟩

/-- A request that came when the bucket was empty. -/
def rateLimited : Fault := ⟨.rateLimited, "Rate limit exceeded", none⟩

def toJson (f : Fault) : Json :=
  .object ([("code", .int f.kind.code), ("message", .string f.message)]
    ++ (f.data.map fun d => ("data", d)).toList)

end Fault

end ContextServer
