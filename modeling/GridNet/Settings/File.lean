import GridNet.Files.Program
import GridNet.Json.Printer
import GridNet.Settings.Basic

/-!
# Settings files

Settings are kept as one JSON value in a file of their own.

* `Settings.load`, `Settings.save`.
-/

namespace GridNet.Settings

/-- The settings of a text. -/
def read (text : String) : Except ScanFault Settings := form.read.readAll text

/-- The text of settings. -/
def print (s : Settings) : String := Json.pretty (form.write s)

/-- The settings in a file. -/
def load (path : String) : FileAction Settings := do
  let text ← (FileAction.readText path).within s!"failed to read settings file {path}"
  (FileAction.lift ((read text).mapError fun f => .note f.message)).within
    s!"failed to parse settings JSON at {path}"

/-- Writes settings into a file, whatever stood there. -/
def save (path : String) (s : Settings) : FileAction Unit :=
  (FileAction.writeText path s.print).within s!"failed to write settings file {path}"

end GridNet.Settings
