import ContextServer.Envelope.Notification
import ContextServer.ToolGroups

/-!
Subscriptions and the queue of notifications, which the host drains in the order of arrival.
-/

namespace ContextServer

/-- The catalogs whose contents may change. -/
inductive ListKind where
  | tools
  | resources
  | prompts
  deriving DecidableEq

def ListKind.changed : ListKind → Notification
  | tools => { method := "notifications/tools/list_changed" }
  | resources => { method := "notifications/resources/list_changed" }
  | prompts => { method := "notifications/prompts/list_changed" }

/-- The URIs that the client follows, and what is still to be told. -/
structure Notifier where
  subscriptions : NameList := []
  queue : List Notification := []

namespace Notifier

def isSubscribed (n : Notifier) (uri : String) : Bool := n.subscriptions.contains uri

/-- Follows a URI; the answer tells whether that is new. -/
def subscribe (n : Notifier) (uri : String) : Bool × Notifier :=
  (!n.isSubscribed uri, { n with subscriptions := NameList.add n.subscriptions uri })

/-- Ceases to follow a URI; the answer tells whether it was followed. -/
def unsubscribe (n : Notifier) (uri : String) : Bool × Notifier :=
  (n.isSubscribed uri, { n with subscriptions := NameList.drop n.subscriptions uri })

def push (n : Notifier) (notification : Notification) : Notifier :=
  { n with queue := n.queue ++ [notification] }

def pushAll (n : Notifier) (notifications : List Notification) : Notifier :=
  { n with queue := n.queue ++ notifications }

/-- Tells of a changed resource, if it is followed. -/
def resourceUpdated (n : Notifier) (uri : String) : Bool × Notifier :=
  if n.isSubscribed uri then (true, n.push (.resourceUpdated uri)) else (false, n)

def drain (n : Notifier) : List Notification × Notifier := (n.queue, { n with queue := [] })

end Notifier

end ContextServer
