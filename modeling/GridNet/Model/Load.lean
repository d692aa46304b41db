import GridNet.Files.Program
import GridNet.Model.Basic
import GridNet.Weights.Listing

/-!
# Loading models

A model is loaded from two files: the description, whose name without its ending becomes the name of
the model, and the weights, in text if the ending says so and in bytes otherwise.

* `Blueprint.load`, `Weights.load`, `Model.load`.
-/

namespace GridNet

/-- The blocks of the description in a file. -/
def Block.load (path : String) : FileAction (List Block) := do
  let text ← (FileAction.readText path).within s!"failed to read cfg file {path}"
  (FileAction.lift (readAll text)).within s!"failed to parse {path}"

/-- The blueprint in a file. -/
def Blueprint.load (path : String) : FileAction Blueprint := do
  let blocks ← Block.load path
  FileAction.lift (ofBlocks blocks ((Path.stem? path).getD ""))

namespace Weights

/-- The path names a weight file in text. -/
def isListingPath (path : String) : Bool := (Path.extension? path).map Text.lower = some "wts"

/-- The weights in a file, for the model of the given name. -/
def load (path model : String) : FileAction WeightBuffer :=
  let reading := s!"failed to read weights file {path}"
  if isListingPath path then do
    let text ← (FileAction.readText path).within reading
    (FileAction.lift (readListing text)).within s!"failed to parse {path}"
  else do
    let bytes ← (FileAction.readBytes path).within reading
    (FileAction.lift (decode bytes.toList model)).within s!"failed to decode {path}"

end Weights

/-- A blueprint with the given number of pictures in a batch, if there is one to set. -/
def Blueprint.withBatch (b : Blueprint) : Option Nat → Outcome Blueprint
  | none => .ok b
  | some batch => do
    ensure (0 < batch) "batch size must be positive"
    return { b with input.batch := batch }

/-- Loads and compiles a model. -/
def Model.load (description weights : String) (batch : Option Nat) : FileAction Model := do
  FileAction.check (← FileAction.present description) s!"cfg file not found: {description}"
  FileAction.check (← FileAction.present weights) s!"weights file not found: {weights}"
  let blueprint ← (Blueprint.load description).within s!"failed to parse {description}"
  let blueprint ← FileAction.lift (blueprint.withBatch batch)
  let buffer ← Weights.load weights blueprint.name
  (FileAction.lift (compile blueprint buffer)).within
    s!"failed to build network from {description}"

end GridNet
