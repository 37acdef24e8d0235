import ContextServer.Clock
import ContextServer.Content
import ContextServer.Json.Printer
import ContextServer.Roster

/-!
Results of tool calls, kept for a while. Only tools that were given a lifetime are cached, only while
the cache is on, and error results never. Entries are found by the tool's name and the text of the
arguments, and stand in the order in which they were last stored.
-/

namespace ContextServer

/-- What a stored result answers. -/
structure CallKey where
  tool : String
  arguments : String
  deriving DecidableEq

def CallKey.ofCall (tool : String) (arguments : Json) : CallKey := ⟨tool, arguments.text⟩

/-- A stored result, with the lifetime that its tool had when it was stored. -/
structure CacheEntry where
  result : ToolResult
  storedAt : Instant
  lifetime : Span

/-- Whether the lifetime is not over. -/
def CacheEntry.isFresh (e : CacheEntry) (now : Instant) : Bool := now.since e.storedAt < e.lifetime

structure ResultCache where
  enabled : Bool := false
  maxEntries : Nat := 32
  lifetimes : Roster String Span := {}
  entries : Roster CallKey CacheEntry := {}
  hits : Nat := 0
  misses : Nat := 0

namespace ResultCache

def invalidateTool (c : ResultCache) (tool : String) : ResultCache :=
  { c with entries := c.entries.filter fun key _ => key.tool != tool }

/-- Sets how long a tool's results are kept. No time at all ends the caching of the tool. -/
def setLifetime (c : ResultCache) (tool : String) (lifetime : Span) : ResultCache :=
  if lifetime = 0 then { c with lifetimes := c.lifetimes.erase tool }.invalidateTool tool
  else { c with lifetimes := c.lifetimes.insert tool lifetime }

/-- Bounds the number of entries, at least one, and drops the oldest beyond it. -/
def setMaxEntries (c : ResultCache) (n : Nat) : ResultCache :=
  let bound := max n 1
  { c with maxEntries := bound, entries := ⟨c.entries.entries.drop (c.entries.size - bound)⟩ }

/-- Looks a call up. A look-up of a cached tool counts as a hit or a miss, and takes out an entry whose
lifetime is over. -/
def lookup (c : ResultCache) (tool : String) (arguments : Json) (now : Instant) :
    Option ToolResult × ResultCache :=
  if !c.enabled || !c.lifetimes.contains tool then (none, c)
  else
    let key := CallKey.ofCall tool arguments
    match c.entries.find? key with
    | some entry =>
      if entry.isFresh now then (some entry.result, { c with hits := c.hits + 1 })
      else (none, { c with entries := c.entries.erase key, misses := c.misses + 1 })
    | none => (none, { c with misses := c.misses + 1 })

/-- The entries with room for a new key: if they are full, those whose lifetime is over go, and if that
frees none, the oldest goes. -/
def makeRoom (c : ResultCache) (key : CallKey) (now : Instant) : Roster CallKey CacheEntry :=
  if c.entries.contains key || c.entries.size < c.maxEntries then c.entries
  else
    let fresh := c.entries.filter fun _ entry => entry.isFresh now
    if fresh.size < c.maxEntries then fresh else fresh.dropOldest

/-- Stores a result, if the cache is on, the tool is cached and the result is no error. -/
def store (c : ResultCache) (tool : String) (arguments : Json) (result : ToolResult) (now : Instant) :
    ResultCache :=
  if !c.enabled || result.isError then c
  else
    match c.lifetimes.find? tool with
    | none => c
    | some lifetime =>
      let key := CallKey.ofCall tool arguments
      -- a key that is stored again becomes the youngest
      { c with entries := ((c.makeRoom key now).erase key).insert key ⟨result, now, lifetime⟩ }

def invalidate (c : ResultCache) (tool : String) (arguments : Json) : ResultCache :=
  { c with entries := c.entries.erase (CallKey.ofCall tool arguments) }

def clear (c : ResultCache) : ResultCache := { c with entries := {}, hits := 0, misses := 0 }

/-- The share of look-ups that hit; none before the first. -/
def hitRate (c : ResultCache) : Float :=
  if c.hits + c.misses = 0 then 0 else Float.ofNat c.hits / Float.ofNat (c.hits + c.misses)

def stats (c : ResultCache) : Json :=
  .object [("enabled", .bool c.enabled), ("entries", .nat c.entries.size),
    ("hitRate", .float c.hitRate), ("hits", .nat c.hits), ("maxEntries", .nat c.maxEntries),
    ("misses", .nat c.misses), ("toolCount", .nat c.lifetimes.size)]

end ResultCache

end ContextServer
