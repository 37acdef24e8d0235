import ContextServer.BuiltIn
import ContextServer.Diagnostics
import ContextServer.Settings.File

/-!
The command line of the hosted server: an optional settings file, and how much is logged.
-/

namespace ContextServer

/-- How a host was asked to run. -/
structure Invocation where
  settingsPath : Option String := none
  verbose : Nat := 0
  quiet : Bool := false
  deriving DecidableEq

inductive Command where
  | run (invocation : Invocation)
  | version
  | help
  | misuse
  deriving DecidableEq

namespace Invocation

/-- The invocation with a path; only one is taken, and it may not be empty. -/
def withPath? (i : Invocation) (path : String) : Option Invocation :=
  if path.isEmpty || i.settingsPath.isSome then none else some { i with settingsPath := some path }

/-- The invocation silenced; that may be asked only once. -/
def silenced? (i : Invocation) : Option Invocation :=
  if i.quiet then none else some { i with quiet := true }

/-- What is logged: a silenced host logs errors alone, and the settings count unless the command line
asks for more. -/
def verbosity (i : Invocation) (configured : String) : Verbosity :=
  if i.quiet then .error
  else
    match i.verbose with
    | 0 => Verbosity.ofName configured
    | 1 => .info
    | 2 => .debug
    | _ => .trace

end Invocation

namespace Command

/-- Reads one-letter options that share a dash. -/
def readLetters (next : Invocation → Command) : Invocation → List Char → Command
  | i, [] => next i
  | i, 'v' :: rest => readLetters next { i with verbose := i.verbose + 1 } rest
  | i, 'q' :: rest =>
    match i.silenced? with
    | some i => readLetters next i rest
    | none => misuse
  | _, 'V' :: _ => version
  | _, 'h' :: _ => help
  | _, _ => misuse

/-- Reads arguments that stand for themselves. -/
def readPaths : Invocation → List String → Command
  | i, [] => run i
  | i, path :: rest =>
    match i.withPath? path with
    | some i => readPaths i rest
    | none => misuse

/-- Reads arguments from left to right; the first that settles the matter counts. -/
def read : Invocation → List String → Command
  | i, [] => run i
  | i, argument :: rest =>
    match argument.toList with
    | ['-', '-'] => readPaths i rest
    | '-' :: '-' :: _ =>
      if argument = "--verbose" then read { i with verbose := i.verbose + 1 } rest
      else if argument = "--quiet" then
        match i.silenced? with
        | some i => read i rest
        | none => misuse
      else if argument = "--version" then version
      else if argument = "--help" then help
      else misuse
    | '-' :: letter :: letters => readLetters (fun i => read i rest) i (letter :: letters)
    | _ =>
      match i.withPath? argument with
      | some i => read i rest
      | none => misuse

def ofArguments (arguments : List String) : Command := read {} arguments

end Command

/-- What `--version` prints. -/
def versionText : String := "mcpd-stdio " ++ engineVersion

def usageText : String := "Usage: mcpd-stdio [OPTIONS] [CONFIG_FILE]"

def Settings.host (s : Settings) (now : Instant) : HostLoop Unit where
  server := BuiltIn.register (.ofOptions s.toOptions now)
  device := ()

end ContextServer
