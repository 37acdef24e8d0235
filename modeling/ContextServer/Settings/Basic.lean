import ContextServer.Blank
import ContextServer.Decimal.Layout
import ContextServer.Server.Basic

/-!
Settings of a hosted server, what makes them invalid, and the server options they amount to.
-/

namespace ContextServer

/-- A root as it is configured; without a name it goes by its URI. -/
structure RootSetting where
  uri : String
  name : Option String := none
  deriving DecidableEq

def RootSetting.displayName (r : RootSetting) : String := r.name.getD r.uri

structure Settings where
  serverName : String := defaultServerName
  description : Option String := none
  pageSize : Nat := 0
  requestsPerSecond : Float := 0
  burstCapacity : Nat := 0
  maxSessions : Nat := 4
  idleTimeoutSecs : Nat := 1800
  roots : List RootSetting := []
  logLevel : String := "warn"

inductive SettingsFault where
  | blankServerName
  | rateNotPositive (rate : Float)
  | blankRootUri (index : Nat)

def SettingsFault.message : SettingsFault → String
  | blankServerName => "server.name must not be empty"
  | rateNotPositive rate =>
    "rate_limit.requests_per_second must be positive when burst_capacity is set (got "
      ++ String.ofList (Decimal.Layout.plain.writeFloat rate) ++ ")"
  | blankRootUri index => "roots[" ++ toString index ++ "].uri must not be empty"

/-- Why settings could not be had from a file. -/
inductive SettingsError where
  | unreadable (path : String)
  | unparsable (path : String)
  | notFound (path : String)
  | invalid (fault : SettingsFault)

def SettingsError.message : SettingsError → String
  | unreadable path => "failed to read configuration file: " ++ path
  | unparsable path => "failed to parse configuration file: " ++ path
  | notFound path => "configuration file not found: " ++ path
  | invalid fault => "configuration validation failed: " ++ fault.message

namespace Settings

def isRateLimited (s : Settings) : Bool := 0 < s.burstCapacity && 0 < s.requestsPerSecond

/-- The first fault: of the name, then of the rate, then of the roots in order. -/
def fault? (s : Settings) : Option SettingsFault :=
  if isBlankText s.serverName then some .blankServerName
  else if 0 < s.burstCapacity && s.requestsPerSecond ≤ 0 then
    some (.rateNotPositive s.requestsPerSecond)
  else (s.roots.findIdx? fun r => isBlankText r.uri).map .blankRootUri

def toOptions (s : Settings) : ServerOptions where
  name := some s.serverName
  description := s.description
  pageSize := s.pageSize
  rateLimit := if s.isRateLimited then some (s.requestsPerSecond, s.burstCapacity) else none
  maxSessions := some s.maxSessions
  idleTimeout := some (Span.ofSeconds s.idleTimeoutSecs)
  roots := s.roots.map fun r => ⟨r.uri, r.displayName⟩

end Settings

end ContextServer
