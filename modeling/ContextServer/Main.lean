import ContextServer.CommandLine

/-!
The program: it serves standard input and output with the settings that its command line names.
-/

namespace ContextServer.Program

/-- What is under a path: what cannot be read is still there if the path can be resolved. -/
def fileContent (path : String) : IO Settings.FileContent := do
  try
    return .bytes (← IO.FS.readBinFile path).data.toList
  catch _ =>
    try
      let _ ← IO.FS.realPath path
      return .unreadable
    catch _ => return .absent

/-- The settings that an invocation asks for; the default file need not be there. -/
def settingsFor (invocation : Invocation) : IO (Except SettingsError Settings) := do
  match invocation.settingsPath with
  | some path => return Settings.load path (← fileContent path)
  | none =>
    let path := ((← IO.getEnv "HOME").getD "") ++ "/.mcpd/config.json"
    return Settings.loadOrDefault path (← fileContent path)

/-- A fresh session name: thirty-two hexadecimal digits. -/
def freshName : IO String := do
  let bytes ← IO.getRandomBytes 16
  return String.ofList (bytes.data.toList.flatMap fun b =>
    [Json.hexDigit (b.toNat / 16), Json.hexDigit (b.toNat % 16)])

/-- What the clock says, and a fresh name. The start of the process stands for the start of civil time,
which only sessions are measured by. -/
def readings : IO Readings := do
  let now ← IO.monoNanosNow
  return ⟨now, now, now, (now : Int), ← freshName⟩

def logLines (verbosity : Verbosity) (lines : List LogLine) : IO Unit :=
  (LogLine.shown verbosity lines).forM fun line => IO.eprintln line.text

def emit (host : HostLoop Unit) : IO (HostLoop Unit) := do
  let out ← IO.getStdout
  out.write ⟨host.sink.bytes.toArray⟩
  out.flush
  return { host with sink := {} }

/-- Serves lines as they come. A batch takes all its readings from one moment, with the session names
told apart by a number. -/
partial def serveInput (verbosity : Verbosity) (host : HostLoop Unit) (held : List UInt8) :
    IO (HostLoop Unit) := do
  if host.stopped.isSome then return host
  let chunk ← (← IO.getStdin).read 65536
  let lines := HostLoop.splitLines (held ++ chunk.data.toList)
  let (ready, held) :=
    if chunk.isEmpty then (lines, [])
    else match lines.getLast? with
      | some last => if last.getLast? = some 10 then (lines, []) else (lines.dropLast, last)
      | none => ([], [])
  let mut current := host
  for line in ready do
    let r ← readings
    let next := current.handleLine
      (fun k => { r with sessionId := if k = 0 then r.sessionId else r.sessionId ++ toString k }) line
    logLines verbosity (current.refusalLines next)
    current ← emit next
  if chunk.isEmpty then return current else serveInput verbosity current held

/-- Runs a host to the end of its input. -/
def runHost (invocation : Invocation) : IO UInt32 := do
  match ← settingsFor invocation with
  | .error e =>
    IO.eprintln ("Configuration error: " ++ e.message)
    return 1
  | .ok settings =>
    let verbosity := invocation.verbosity settings.logLevel
    let host := settings.host (← IO.monoNanosNow)
    logLines verbosity host.startLines
    let ended ← serveInput verbosity host []
    match ended.stopped with
    | none => return 0
    | some e =>
      logLines verbosity [⟨.error, "Server error: " ++ e.message⟩]
      return 1

def run : Command → IO UInt32
  | .run invocation => runHost invocation
  | .version => do
    IO.println versionText
    return 0
  | .help => do
    IO.println usageText
    return 0
  | .misuse => do
    IO.eprintln usageText
    return 2

end ContextServer.Program

def main (arguments : List String) : IO UInt32 :=
  ContextServer.Program.run (ContextServer.Command.ofArguments arguments)
