import GridNet.Files.Program
import GridNet.Png.Reader
import GridNet.Png.Writer

/-!
# Pictures in files

The ending of a file's name says what its bytes mean; only one kind of picture file is known.

* `FileAction.openPicture`, `FileAction.savePicture` — reading and writing one.
-/

namespace GridNet

/-- The endings of the picture files that are known. -/
def pictureEndings : List String := ["png", "apng"]

/-- The path names a picture file that can be read and written. -/
def isPicturePath (path : String) : Bool :=
  match Path.extension? path with
  | some ending => pictureEndings.contains (Text.lower ending)
  | none => false

namespace FileAction

/-- The failure of a path whose ending is not known. -/
def unknownEnding : Failure := .note "The image format could not be determined"

/-- The picture in a file. -/
def openPicture (path : String) : FileAction Picture :=
  within s!"failed to open image {path}" do
    if (← present path) && !isPicturePath path then throw unknownEnding
    let bytes ← readBytes path
    lift ((Png.decode bytes).mapError Png.Fault.toFailure)

/-- Writes a picture into a file. -/
def savePicture (path : String) (p : Picture) : FileAction Unit := do
  if !isPicturePath path then throw unknownEnding
  writeBytes path (Png.encode p)

end FileAction

end GridNet
