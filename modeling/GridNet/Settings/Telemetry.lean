import GridNet.Settings.Basic
import GridNet.Text.Blank

/-!
# Telemetry

How long something took is reported at one of five levels of detail. A switch turns all reports off,
and a filter lets through those up to a level.

* `LevelFilter.read` — a filter by its name, in any case of letters.
* `Telemetry.allows` — whether a report of a level is let through.
-/

namespace GridNet

/-- The **level** of a report. -/
inductive ReportLevel
  | error
  | warn
  | info
  | debug
  | trace
deriving DecidableEq

/-- The place of a level, the most urgent one first. -/
def ReportLevel.rank : ReportLevel → Nat
  | error => 1
  | warn => 2
  | info => 3
  | debug => 4
  | trace => 5

/-- The most detailed level that a **filter** lets through, if any. -/
inductive LevelFilter
  | off
  | upTo (level : ReportLevel)
deriving DecidableEq

namespace LevelFilter

/-- How far a filter goes. -/
def rank : LevelFilter → Nat
  | off => 0
  | upTo level => level.rank

/-- The name of a filter. -/
def name : LevelFilter → String
  | off => "OFF"
  | upTo .error => "ERROR"
  | upTo .warn => "WARN"
  | upTo .info => "INFO"
  | upTo .debug => "DEBUG"
  | upTo .trace => "TRACE"

/-- All filters. -/
def all : List LevelFilter :=
  [off, upTo .error, upTo .warn, upTo .info, upTo .debug, upTo .trace]

/-- The filter with the given name, in any case of letters. -/
def read (text : String) : Except String LevelFilter :=
  match all.find? fun f => Text.lower f.name = Text.lower text with
  | some f => .ok f
  | none =>
    .error "attempted to convert a string that doesn't match an existing log level"

end LevelFilter

namespace TelemetrySettings

/-- The filter that the settings ask for; an unknown name lets all but traces through. -/
def filter (t : TelemetrySettings) : LevelFilter :=
  match LevelFilter.read (Text.trim t.level) with
  | .ok f => f
  | .error _ => .upTo .debug

/-- The settings with a filter put in. -/
def withFilter (t : TelemetrySettings) (f : LevelFilter) : TelemetrySettings :=
  { t with level := Text.lower f.name }

end TelemetrySettings

/-- The **state of telemetry**. -/
structure Telemetry where
  enabled : Bool := false
  filter : LevelFilter := .off
deriving DecidableEq

/-- A report of the given level is let through. -/
def Telemetry.allows (t : Telemetry) (level : ReportLevel) : Bool :=
  t.enabled && level.rank ≤ t.filter.rank

end GridNet
