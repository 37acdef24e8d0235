import ContextServer.Envelope.Notification

/-!
Log messages for the client. A message is sent if its level reaches the threshold.
-/

namespace ContextServer

/-- Severities, lowest first. -/
inductive LogLevel where
  | debug
  | info
  | notice
  | warning
  | error
  | critical
  | alert
  | emergency
  deriving DecidableEq

namespace LogLevel

def name : LogLevel → String
  | debug => "debug"
  | info => "info"
  | notice => "notice"
  | warning => "warning"
  | error => "error"
  | critical => "critical"
  | alert => "alert"
  | emergency => "emergency"

/-- The place of a level in the order of severity. -/
def rank : LogLevel → Nat
  | debug => 0
  | info => 1
  | notice => 2
  | warning => 3
  | error => 4
  | critical => 5
  | alert => 6
  | emergency => 7

/-- The level of a name; what names none counts as `info`. -/
def ofName (text : String) : LogLevel :=
  ([debug, notice, warning, error, critical, alert, emergency].find? (·.name == text)).getD info

theorem ofName_name (level : LogLevel) : ofName level.name = level := by
  cases level <;> decide

/-- The notification of a log message, if the level reaches the threshold. -/
def notification? (threshold level : LogLevel) (logger : String) (data : Json) :
    Option Notification :=
  if level.rank < threshold.rank then none
  else some ⟨"notifications/message", some (.object [("data", data),
    ("level", .string level.name), ("logger", .string logger)])⟩

end LogLevel

end ContextServer
