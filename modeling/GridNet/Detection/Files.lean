import GridNet.Detection.Detector
import GridNet.Files.Pictures

/-!
# Detecting in files

* `PreparedBatch.ofFile`, `Detector.detectFile` — one picture file.
* `findImages` — the picture files at a path.
-/

namespace GridNet

/-- Prepares the picture in a file as a batch of one. -/
def PreparedBatch.ofFile (f : InputFormat) (path : String) : FileAction PreparedBatch := do
  let picture ← (FileAction.openPicture path).within s!"failed to load image from {path}"
  FileAction.lift (ofPictures 1 f [picture])

/-- What is detected in the picture in a file. -/
def Detector.detectFile (d : Detector) (path : String) : FileAction Detections := do
  let picture ← FileAction.openPicture path
  FileAction.lift (d.detect picture)

/-- The endings of files that hold a picture. -/
def imageEndings : List String := ["jpg", "jpeg", "png", "bmp", "webp"]

/-- The file name has the ending of a picture. -/
def isImageName (name : String) : Bool :=
  match Path.extension? name with
  | some ending => imageEndings.contains (Text.lower ending)
  | none => false

/-- The parts of the picture files among those below a directory, in order of their parts. -/
def imageParts (files : List (List String)) : List (List String) :=
  (files.filter fun parts => isImageName (parts.getLast?.getD "")).mergeSort Path.precedes

/-- The picture files at a path: the path itself if it is a file, whatever its name, or all picture
files below it. -/
def findImages (path : String) : FileAction (List String) := do
  match ← FileAction.look path with
  | some .file => return [path]
  | some .directory =>
    return (imageParts (← FileAction.filesBelow path)).map fun parts =>
      Path.join path ("/".intercalate parts)
  | _ => throw (.note s!"input path is neither file nor directory: {path}")

end GridNet
