import Criteria.Run

/-!
# The logger

A `Logger` decides which messages are delivered. It is off until it is started;
then it has a threshold and a pattern, and delivers the messages whose severity is
not below the threshold. Obtaining the logger, or setting its threshold or its
pattern, starts it first if it is off.

Nothing that an operation does depends on the logger, and no operation starts it:
`Logger.deliver` is a filter on the events of a run.
-/

namespace Criteria

namespace Severity

/-- The place of a severity in their order. -/
def rank : Severity → Nat
  | .trace => 0
  | .debug => 1
  | .info => 2
  | .warning => 3
  | .error => 4
  | .critical => 5

/-- The name a threshold is set by. -/
def name : Severity → Text
  | .trace => "trace"
  | .debug => "debug"
  | .info => "info"
  | .warning => "warn"
  | .error => "error"
  | .critical => "critical"

/-- The name in delivered messages. -/
def label : Severity → Text
  | .warning => "warning"
  | s => s.name

/-- **The severity of a name**, in letters of any case, with three short or long
forms; other names stand for `info`. -/
def ofName (name : Text) : Severity :=
  let t := name.lower
  if t = "trace" then .trace
  else if t = "debug" then .debug
  else if t = "info" then .info
  else if t = "warn" ∨ t = "warning" then .warning
  else if t = "error" ∨ t = "err" then .error
  else if t = "critical" ∨ t = "crit" then .critical
  else .info

end Severity

/-- The settings of a logger that is on. -/
structure LoggerSettings where
  /-- The least severity that is delivered. -/
  threshold : Severity
  /-- How messages are laid out. -/
  pattern : Text

/-- **A logger**, off or on. -/
structure Logger where
  /-- The settings, if the logger is on. -/
  settings : Option LoggerSettings := none

/-- A message with its severity. -/
abbrev Message := Severity × Text

namespace Logger

/-- Whether the logger is on. -/
def isOn (l : Logger) : Bool := l.settings.isSome

/-- **Whether a message of a severity is delivered.** -/
def shouldLog (l : Logger) (s : Severity) : Bool :=
  match l.settings with
  | none => false
  | some settings => decide (settings.threshold.rank ≤ s.rank)

/-- **The messages among some events that are delivered**, in order. -/
def deliver (l : Logger) (events : List Event) : List Message :=
  events.filterMap fun
    | .message s t => if l.shouldLog s then some (s, t) else none
    | _ => none

/-- The pattern of a logger that has just been started. -/
def defaultPattern : Text := "[%Y-%m-%d %H:%M:%S.%e] [%n] [%^%l%$] [thread %t] %v"

/-- A change of the logger and the messages it delivers. -/
structure Change where
  /-- The logger afterwards. -/
  logger : Logger
  /-- The messages, in order. -/
  delivered : List Message := []

/-- **Starting the logger.** A logger that is on starts anew. -/
def start (file : Text) (threshold : Severity) : Change :=
  let l : Logger := ⟨some ⟨threshold, defaultPattern⟩⟩
  ⟨l, l.deliver [.message .debug
    ("Logger initialized (level=" ++ threshold.name ++ ", file='" ++ file ++ "')")]⟩

/-- The logger, started with the usual settings if it is off. -/
def obtain (l : Logger) : Change := if l.isOn then ⟨l, []⟩ else start .empty .info

/-- The logger with other settings, once it is obtained. -/
def configure (l : Logger) (change : LoggerSettings → LoggerSettings) : Change :=
  let on := l.obtain
  ⟨⟨on.logger.settings.map change⟩, on.delivered⟩

/-- Sets the threshold. -/
def setThreshold (l : Logger) (threshold : Severity) : Change :=
  l.configure fun settings => { settings with threshold := threshold }

/-- Sets the pattern. -/
def setPattern (l : Logger) (pattern : Text) : Change :=
  l.configure fun settings => { settings with pattern := pattern }

/-- The logger that is off. -/
def stopped : Logger := {}

/-- A text with an argument in place of its first pair of braces. -/
def fillFirst (argument : Text) : List UInt8 → List UInt8
  | [] => []
  | 123 :: 125 :: rest => argument.bytes ++ rest
  | b :: rest => b :: fillFirst argument rest

/-- **The event of a message** that a caller composes from a text and an argument. -/
def compose (s : Severity) (text argument : Text) : Event :=
  .message s ⟨fillFirst argument text.bytes⟩

end Logger

end Criteria
