import ContextServer.Server.Basic

/-!
What a server tells a client that it can do.
-/

namespace ContextServer

namespace Server

variable {Device : Type}

/-- The extension that makes a rate limit known. -/
def rateLimitJson (limiter : TokenBucket Float) : Json :=
  .object [("rateLimit", .object [("burstCapacity", .nat limiter.capacity),
    ("requestsPerSecond", .float limiter.rate)])]

/-- A member that is there under a condition. -/
def memberIf (condition : Bool) (key : String) (value : Json) : List (String × Json) :=
  if condition then [(key, value)] else []

def capabilities (s : Server Device) : Json :=
  let changing := ("listChanged", Json.bool true)
  .object (memberIf (!s.catalog.tools.isEmpty) "tools" (.object [changing])
    ++ memberIf s.catalog.hasResources "resources" (.object [("subscribe", .bool true), changing])
    ++ memberIf (!s.catalog.prompts.isEmpty) "prompts" (.object [changing])
    ++ [("logging", .object []), ("completions", .object [])]
    ++ memberIf (!s.catalog.roots.isEmpty) "roots" (.object [])
    ++ [("sampling", .object []), ("elicitation", .object [])]
    ++ memberIf s.limiter.enabled "experimental" (rateLimitJson s.limiter))

end Server

end ContextServer
