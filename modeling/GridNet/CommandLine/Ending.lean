import GridNet.CommandLine.Words
import GridNet.Failure

/-!
# How a run ends

A run ends with a code and with a text on one of the two outputs. A failure is told by its outermost
cause; below it stand the others, numbered if there are several. Lines after the first one of a
cause stand below its text.

* `Failure.report` — the text of a failure.
* `Ending` — the code and the texts.
-/

namespace GridNet

/-- Cause number `n` among several. -/
def numberedCause (n : Nat) (text : String) : String :=
  let number := toString n
  "\n" ++ "".pushn ' ' (5 - number.length) ++ number ++ ": " ++
    "\n       ".intercalate ((Text.splitBy (· = '\n') text.toList).map String.ofList)

/-- The only cause. -/
def onlyCause (text : String) : String :=
  "\n    " ++ "\n    ".intercalate ((Text.splitBy (· = '\n') text.toList).map String.ofList)

/-- The causes below the outermost one. -/
def causeLines : List String → String
  | [] => ""
  | [text] => "\n\nCaused by:" ++ onlyCause text
  | texts =>
    "\n\nCaused by:" ++ String.join (texts.zipIdx.map fun (text, n) => numberedCause n text)

/-- A failure as it is told at the end of a run. -/
def Failure.report (f : Failure) : String :=
  s!"Error: {f.headline}" ++ causeLines ((f.causes.drop 1).map Cause.message) ++ "\n"

namespace CommandLine

/-- How a **run ends**. -/
structure Ending where
  code : Nat
  output : String := ""
  complaint : String := ""
deriving DecidableEq

/-- The name of the program and its version. -/
def versionText : String := "darknet-cli 0.3.0\n"

/-- How the program is used. -/
def helpText : String :=
  "Compile Darknet cfg + weights and run YOLO detection on the CPU\n\n" ++
  "Usage: darknet-cli [OPTIONS] <COMMAND>\n\n" ++
  "Commands:\n" ++
  "  inspect    Build the network and print its layer table\n" ++
  "  detect     Run detection over an image or a directory of images\n" ++
  "  calibrate  Feed calibration images through the network and write an INT8 scale cache\n" ++
  "  help       Print this message\n\n" ++
  "Options:\n" ++
  "      --config <CONFIG>          Settings JSON [default: config/darknet.json if present]\n" ++
  "      --telemetry                Enable telemetry timing logs\n" ++
  "      --telemetry-level <LEVEL>  Telemetry level: off, error, warn, info, debug, trace\n" ++
  "  -h, --help                     Print help\n" ++
  "  -V, --version                  Print version\n"

/-- The end of a run that was not begun. -/
def Halt.ending : Halt → Ending
  | .help => { code := 0, output := helpText }
  | .version => { code := 0, output := versionText }
  | .misuse reason => { code := 2, complaint := s!"error: {reason}\n\nTry '--help'.\n" }

/-- The end of a run that came to an outcome. A breakdown has a code of its own. -/
def Ending.ofOutcome : Outcome String → Ending
  | .ok output => { code := 0, output }
  | .error .brokenDown => { code := 101 }
  | .error f => { code := 1, complaint := f.report }

end CommandLine

end GridNet
