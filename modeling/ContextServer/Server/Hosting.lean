import ContextServer.Server.Basic

/-!
What a host does with a server between messages: it registers what is offered, sets limits, tells
news, and asks the client.
-/

namespace ContextServer.Server

variable {Device : Type}

/-! ### Offers -/

/-- Registers a tool; one of the same name is replaced. -/
def addTool (s : Server Device) (t : Tool Device) : Server Device :=
  { s with catalog := s.catalog.addTool t }

/-- Removes a tool, with its cached results and its places in groups. -/
def removeTool (s : Server Device) (name : String) : Bool × Server Device :=
  (s.catalog.tools.contains name, { s with
    cache := s.cache.invalidateTool name
    groups := s.groups.forgetTool name
    catalog := { s.catalog with tools := s.catalog.tools.erase name } })

def addResource (s : Server Device) (r : Resource Device) : Server Device :=
  { s with catalog := s.catalog.addResource r }

def removeResource (s : Server Device) (uri : String) : Bool × Server Device :=
  (s.catalog.resources.contains uri,
    { s with catalog := { s.catalog with resources := s.catalog.resources.erase uri } })

def addTemplate (s : Server Device) (t : TemplatedResource Device) : Server Device :=
  { s with catalog := s.catalog.addTemplate t }

def removeTemplate (s : Server Device) (template : String) : Bool × Server Device :=
  (s.catalog.templates.contains template,
    { s with catalog := { s.catalog with templates := s.catalog.templates.erase template } })

def addPrompt (s : Server Device) (p : Prompt Device) : Server Device :=
  { s with catalog := s.catalog.addPrompt p }

def removePrompt (s : Server Device) (name : String) : Bool × Server Device :=
  (s.catalog.prompts.contains name,
    { s with catalog := { s.catalog with prompts := s.catalog.prompts.erase name } })

def addRoot (s : Server Device) (r : Root) : Server Device :=
  { s with catalog := s.catalog.addRoot r }

def removeRoot (s : Server Device) (uri : String) : Bool × Server Device :=
  (s.catalog.roots.contains uri,
    { s with catalog := { s.catalog with roots := s.catalog.roots.erase uri } })

def addCompletion (s : Server Device) (key : CompletionKey) (provider : CompletionProvider Device) :
    Server Device :=
  { s with completions := s.completions.addProvider key provider }

/-! ### Groups -/

def createGroup (s : Server Device) (name description : String) : Bool × Server Device :=
  let (created, groups) := s.groups.create name description
  (created, { s with groups })

def addToGroup (s : Server Device) (group tool : String) : Bool × Server Device :=
  let (added, groups) := s.groups.addTool group tool
  (added, { s with groups })

/-- Switches a group; a switch that moves is news for the client. -/
def setGroupEnabled (s : Server Device) (group : String) (enabled : Bool) : Bool × Server Device :=
  let (moved, groups) := s.groups.setEnabled group enabled
  let notifier := if moved then s.notifier.push ListKind.tools.changed else s.notifier
  (moved, { s with groups, notifier })

/-! ### News -/

def listChanged (s : Server Device) (kind : ListKind) : Server Device :=
  { s with notifier := s.notifier.push kind.changed }

/-- Tells that a resource has changed, if the client follows it. -/
def resourceUpdated (s : Server Device) (uri : String) : Bool × Server Device :=
  let (told, notifier) := s.notifier.resourceUpdated uri
  (told, { s with notifier })

/-- Sends a log message, if its level reaches the client's threshold. -/
def log (s : Server Device) (level : LogLevel) (logger : String) (data : Json) :
    Bool × Server Device :=
  match s.threshold.notification? level logger data with
  | some notification => (true, { s with notifier := s.notifier.push notification })
  | none => (false, s)

def reportProgress (s : Server Device) (token : String) (report : ProgressReport) : Server Device :=
  { s with notifier :=
      s.notifier.push (.progress token report.done report.total report.message) }

def drainNotifications (s : Server Device) : List String × Server Device :=
  let (notifications, notifier) := s.notifier.drain
  (notifications.map Notification.text, { s with notifier })

/-! ### Requests to the client -/

/-- Asks the client's model; the answer comes back as an event with the label. -/
def requestSampling (s : Server Device) (request : Sampling.Request) (label : String)
    (now : Instant) : Int × Server Device :=
  (s.nextRequestId, { s with
    nextRequestId := s.nextRequestId + 1
    sampling := s.sampling.queueWithId s.nextRequestId request.toClient label now })

/-- Asks the person at the client; the answer comes back as an event with the label. -/
def requestElicitation (s : Server Device) (request : Elicitation.Request) (label : String)
    (now : Instant) : Int × Server Device :=
  (s.nextRequestId, { s with
    nextRequestId := s.nextRequestId + 1
    elicitation := s.elicitation.queueWithId s.nextRequestId request.toClient label now })

/-- Gives up requests that have waited for longer than a time. -/
def pruneRequests (s : Server Device) (now : Instant) (timeout : Span) : Nat × Server Device :=
  let (sampled, sampling) := s.sampling.prune now timeout
  let (elicited, elicitation) := s.elicitation.prune now timeout
  (sampled + elicited, { s with sampling, elicitation })

/-- Takes the requests that are to be sent: to the model first, then to the person. -/
def drainRequests (s : Server Device) : List String × Server Device :=
  let (samplings, sampling) := s.sampling.drain
  let (elicitations, elicitation) := s.elicitation.drain
  (samplings ++ elicitations, { s with sampling, elicitation })

end ContextServer.Server
