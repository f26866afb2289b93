import GlslLayout.Stage

/-!
Diagnostics: what a run reports without stopping, and the log lines it leaves.

* `Diagnostic`: a message with its severity, kind and stage.
* `Diagnostics`: a labelled list of them in the order of recording.
* `LogEntry`: a line of the log; every diagnostic has one.
-/

namespace GlslLayout

set_option autoImplicit false

/-- How much a diagnostic weighs. -/
inductive Severity where
  | warning
  | error
  deriving DecidableEq, Repr

/-- What a diagnostic is about. -/
inductive Kind where
  | multipleUniformsPerLine
  | invalidArraySize
  | malformedDeclaration
  | uniformTypeMismatch
  | duplicateVarying
  | missingVarying
  | attributeLocationCollision
  | unmappedAttribute
  | ignoredVertexOutput
  deriving DecidableEq, Repr

/-- One reported finding. -/
structure Diagnostic where
  severity : Severity
  kind : Kind
  stage : Option Stage
  message : String
  deriving DecidableEq, Repr

/-! ## The log -/

/-- The level of a log line. -/
inductive LogLevel where
  | error
  | warn
  | info
  | debug
  deriving DecidableEq, Repr

def LogLevel.name : LogLevel → String
  | .error => "ERROR"
  | .warn => "WARN"
  | .info => "INFO"
  | .debug => "DEBUG"

/-- A line of the log. -/
structure LogEntry where
  level : LogLevel
  text : String
  deriving DecidableEq, Repr

/-- The line as it is written. -/
def LogEntry.line (entry : LogEntry) : String :=
  entry.level.name ++ " " ++ entry.text

/-- The level at which a diagnostic of the severity is logged. -/
def Severity.logLevel : Severity → LogLevel
  | .warning => .warn
  | .error => .error

/-- The log line of a diagnostic under a label. -/
def Diagnostic.logEntry (label : String) (d : Diagnostic) : LogEntry :=
  ⟨d.severity.logLevel, "[" ++ label ++ "] " ++ d.message⟩

/-! ## Collections -/

/-- The diagnostics of one run, in the order of recording. -/
structure Diagnostics where
  label : String := ""
  entries : List Diagnostic := []
  deriving DecidableEq, Repr

namespace Diagnostics

/-- Adds a diagnostic at the end. -/
def record (ds : Diagnostics) (d : Diagnostic) : Diagnostics :=
  { ds with entries := ds.entries ++ [d] }

def size (ds : Diagnostics) : Nat :=
  ds.entries.length

def isEmpty (ds : Diagnostics) : Bool :=
  ds.entries.isEmpty

/-- The diagnostics of one kind. -/
def ofKind (ds : Diagnostics) (kind : Kind) : List Diagnostic :=
  ds.entries.filter fun d => d.kind == kind

/-- Whether a diagnostic of the kind is recorded. -/
def contains (ds : Diagnostics) (kind : Kind) : Bool :=
  ds.entries.any fun d => d.kind == kind

/-- Whether an error is recorded. -/
def failed (ds : Diagnostics) : Bool :=
  ds.entries.any fun d => d.severity == .error

/-- The log lines of all diagnostics. -/
def log (ds : Diagnostics) : List LogEntry :=
  ds.entries.map (Diagnostic.logEntry ds.label)

end Diagnostics

end GlslLayout
