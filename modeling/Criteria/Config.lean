import Criteria.FieldType
import Criteria.Logger
import Criteria.Paging

/-!
# Configuration

A `Config` holds the settings of the logger and the limits on pages and tops. It
is read from a value and written as one. In reading, what is missing has its usual
setting; a section that is not an object, or a setting of the wrong kind, is a
fault. In writing, the file of the log is left out when there is none.
-/

namespace Criteria

/-- **The settings of the log.** -/
structure LogConfig where
  /-- The name of the threshold. -/
  level : Text := "info"
  /-- How messages are laid out. -/
  pattern : Text := "[%Y-%m-%d %H:%M:%S.%e] [%n] [%^%l%$] %v"
  /-- The file, empty for none. -/
  file : Text := .empty
deriving DecidableEq

/-- **A configuration.** -/
structure Config where
  /-- The settings of the log. -/
  logging : LogConfig := {}
  /-- The limits. -/
  limits : Limits := {}
deriving DecidableEq

namespace Config

/-! ## Reading -/

/-- A setting of a section, or its usual value. -/
def setting {α : Type} (read : Value → Except Fault α) (part : Value) (key : Text)
    (usual : α) : Except Fault α :=
  match part with
  | .object ms =>
    match Value.member? key ms with
    | none => .ok usual
    | some v => read v
  | _ => .error (.value .kind)

/-- A setting that is a text. -/
def textSetting (part : Value) (key usual : Text) : Except Fault Text :=
  setting FieldType.text.ofValue part key usual

/-- A setting that is a word, zero if it is missing. -/
def wordSetting (part : Value) (key : Text) : Except Fault UInt64 :=
  setting (fun v => (FieldType.countOfValue v).map fun n => ⟨n.bits⟩) part key 0

/-- The settings of the log from their section, if there is one. -/
def readLogging (v : Value) : Except Fault LogConfig :=
  match v.get? "logging" with
  | none => .ok {}
  | some logging => do
    let level ← textSetting logging "level" ({} : LogConfig).level
    let pattern ← textSetting logging "pattern" ({} : LogConfig).pattern
    let file ← textSetting logging "file" .empty
    .ok ⟨level, pattern, file⟩

/-- The limits from their section, if there is one. -/
def readLimits (v : Value) : Except Fault Limits :=
  match v.get? "limits" with
  | none => .ok {}
  | some limits => do
    let maxPageSize ← wordSetting limits "max_page_size"
    let maxTopCount ← wordSetting limits "max_top_count"
    .ok ⟨maxPageSize, maxTopCount⟩

/-- The fault of a configuration, from the fault of what was read. -/
def asConfigFault : Fault → Fault
  | .value cause => .configuration cause
  | fault => fault

/-- **The configuration that a value holds.** A fault leaves a message. -/
def ofValue (v : Value) : Run Config :=
  match (do
    let logging ← readLogging v
    let limits ← readLimits v
    Except.ok (⟨logging, limits⟩ : Config)) with
  | .ok config => .done config
  | .error fault => do
    Run.log .error ("Failed to parse query configuration from JSON: " ++ fault.message)
    .fail (asConfigFault fault)

/-! ## Writing -/

/-- The settings of the log as a value. -/
def logValue (c : LogConfig) : Value :=
  let always : List (Text × Value) :=
    [("level", .string c.level), ("pattern", .string c.pattern)]
  .object (if c.file.isEmpty then always else ("file", .string c.file) :: always)

/-- **The configuration as a value.** -/
def toValue (c : Config) : Value :=
  .object [
    ("limits", .object [("max_page_size", .uint c.limits.maxPageSize),
      ("max_top_count", .uint c.limits.maxTopCount)]),
    ("logging", logValue c.logging)]

/-! ## Applying -/

/-- **The logger under a configuration.** A logger that is off is started; the
pattern is set in any case. -/
def applyLogging (c : Config) (l : Logger) : Logger.Change :=
  let threshold := Severity.ofName c.logging.level
  let started := if l.isOn then l.setThreshold threshold else Logger.start c.logging.file threshold
  let patterned := started.logger.setPattern c.logging.pattern
  ⟨patterned.logger, started.delivered ++ patterned.delivered⟩

end Config

end Criteria
