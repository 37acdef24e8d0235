import ContextServer.Json.Reader
import ContextServer.Json.Record
import ContextServer.Settings.Basic
import ContextServer.Utf8

/-!
Settings files. A file is one JSON record of closed sections, all of which may be left out; what it
says must then be valid.
-/

namespace ContextServer.Settings

def readServer (s : Settings) (v : Json) : Option Settings :=
  match v.record? true ["name", "description"] with
  | some [name, description] => do
    let serverName ← Json.textField? s.serverName name
    let description ← Json.optionalTextField? description
    return { s with serverName, description }
  | _ => none

def readRateLimit (s : Settings) (v : Json) : Option Settings :=
  match v.record? true ["requests_per_second", "burst_capacity"] with
  | some [rate, burst] => do
    let requestsPerSecond ← Json.floatField? s.requestsPerSecond rate
    let burstCapacity ← Json.countField? s.burstCapacity burst
    return { s with requestsPerSecond, burstCapacity }
  | _ => none

def readSessions (s : Settings) (v : Json) : Option Settings :=
  match v.record? true ["max_sessions", "idle_timeout_secs"] with
  | some [most, timeout] => do
    let maxSessions ← Json.countField? s.maxSessions most
    let idleTimeoutSecs ← Json.countField? s.idleTimeoutSecs timeout
    return { s with maxSessions, idleTimeoutSecs }
  | _ => none

def readRoot (v : Json) : Option RootSetting :=
  match v.record? true ["uri", "name"] with
  | some [some uri, name] => do
    let uri ← uri.string?
    let name ← Json.optionalTextField? name
    return ⟨uri, name⟩
  | _ => none

def readLogging (s : Settings) (v : Json) : Option Settings :=
  match v.record? true ["level"] with
  | some [level] => (Json.textField? s.logLevel level).map fun logLevel => { s with logLevel }
  | _ => none

/-- The sections of a file, in their order. -/
def sections : List String :=
  ["$schema", "_comment", "server", "page_size", "rate_limit", "sessions", "roots", "logging"]

def ofJson? (v : Json) : Option Settings :=
  match v.record? true sections with
  | some [schema, comment, server, pageSize, rateLimit, sessions, roots, logging] => do
    let _ ← Json.optionalTextField? schema
    let _ ← Json.optionalTextField? comment
    let s : Settings := {}
    let s ← Json.partField? s.readServer s server
    let pageSize ← Json.countField? s.pageSize pageSize
    let s ← Json.partField? s.readRateLimit s rateLimit
    let s ← Json.partField? s.readSessions s sessions
    let roots ← Json.listField? readRoot roots
    let s ← Json.partField? s.readLogging s logging
    return { s with pageSize, roots }
  | _ => none

inductive FileContent where
  | absent
  | unreadable
  | bytes (content : List UInt8)

def ofText (path text : String) : Except SettingsError Settings :=
  match (Json.ofWritten? text).bind ofJson? with
  | none => .error (.unparsable path)
  | some settings =>
    match settings.fault? with
    | some fault => .error (.invalid fault)
    | none => .ok settings

def load (path : String) : FileContent → Except SettingsError Settings
  | .absent => .error (.notFound path)
  | .unreadable => .error (.unreadable path)
  | .bytes content =>
    match Utf8.decode content with
    | .error _ => .error (.unreadable path)
    | .ok text => ofText path text

/-- The settings of a file that need not be there. -/
def loadOrDefault (path : String) : FileContent → Except SettingsError Settings
  | .absent => .ok {}
  | content => load path content

end ContextServer.Settings
