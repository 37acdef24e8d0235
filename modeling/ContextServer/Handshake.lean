import ContextServer.Json.Record

/-!
What a client says of itself when it opens a session. Nothing is required, and parameters that are not
as they should be count as saying nothing at all.
-/

namespace ContextServer.Handshake

/-- The client's name in a description of the client. -/
def clientNameOf? (info : Json) : Option String :=
  match info.record? false ["name", "version"] with
  | some [name, version] =>
    (Json.textField? "" name).bind fun name => (Json.optionalTextField? version).map fun _ => name
  | _ => none

/-- The client's name in the parameters of a handshake, empty if they leave it out. -/
def clientName? (params : Json) : Option String :=
  match params.record? false ["protocolVersion", "capabilities", "clientInfo"] with
  | some [version, _, info] =>
    (Json.optionalTextField? version).bind fun _ =>
      match info with
      | none | some .null => some ""
      | some info => clientNameOf? info
  | _ => none

/-- The client's name; unusable parameters give none. -/
def clientName (params : Option Json) : String := (params.bind clientName?).getD ""

end ContextServer.Handshake
