import GridNet.Counting
import GridNet.Detection.Preparation
import GridNet.Files.Pictures
import GridNet.Settings.Basic
import GridNet.Text.Lines

/-!
# Feeding calibration

A feeder hands out the listed pictures batch by batch, in order, each prepared for the network's
input. It stops when too few are left for a whole batch, or once an earlier table was found in the
cache. The pictures of a batch are put one by one into the slots of a staged batch, which takes the
place of the last batch only when all slots are filled. A batch that fails moves the feeder no
further, so that the same pictures are tried again.

* `Feeder.ofBuffer`, `Feeder.ofSettings` — a feeder in front of the first picture.
* `Feeder.nextBatch`, `Feeder.readCache`, `Feeder.writeCache` — what can be asked of it.
-/

namespace GridNet

/-- The **input of the network** that is calibrated. -/
structure InputVolume where
  channels : Nat
  height : Nat
  width : Nat
deriving DecidableEq

/-- The numbers in one picture's planes. -/
def InputVolume.size (v : InputVolume) : Nat := v.channels * v.height * v.width

/-- The numbers in one picture's planes, counted. -/
def InputVolume.count (v : InputVolume) : Outcome Nat := Word.product v.channels [v.height, v.width]

/-- A **feeder**. -/
structure Feeder where
  batchSize : Nat
  input : InputVolume
  normalization : Normalization
  /-- paths of all pictures -/
  images : List String
  /-- pictures handed out so far -/
  position : Nat := 0
  cachePath : String
  useCache : Bool
  /-- an earlier table was found -/
  cacheFound : Bool := false
  /-- the batch that is put together, slot by slot; zeros before the first -/
  staged : Array Scalar
  /-- the batch that was handed out last -/
  buffer : Array Scalar
deriving DecidableEq

/-- A step that may change a feeder, use files, and fail. What was changed before a
failure stays. -/
abbrev Feeding (α : Type) := ExceptT Failure (StateT Feeder FileProgram) α

/-- An action on files as a step that leaves the feeder alone. -/
def Feeding.lift {α : Type} (a : FileAction α) : Feeding α :=
  ExceptT.mk fun f => do return (← a.run, f)

/-- The action of a step that starts at the given feeder. -/
def Feeding.startAt {α : Type} (f : Feeder) (a : Feeding α) : FileAction α :=
  ExceptT.mk do return (← a.run.run f).1

/-- The paths in a list of pictures: lines that are not blank, trimmed. -/
def imagePaths (text : String) : List String :=
  (((Text.lines text.toList).map Text.trimChars).filter (!·.isEmpty)).map String.ofList

/-- Reads a list of pictures. -/
def readImageList (path : String) : FileAction (List String) := do
  return imagePaths (← (FileAction.readText path).within
    s!"failed to read calibration image list {path}")

namespace Feeder

/-- The numbers in a batch. -/
def batchVolume (batchSize : Nat) (input : InputVolume) : Nat := batchSize * input.size

/-- The numbers in a batch, counted. -/
def countBatch (batchSize : Nat) (input : InputVolume) : Outcome Nat := do
  Word.mul batchSize (← input.count)

/-- The pictures to be fed, if the settings agree with the input and with a buffer of the given
length. -/
def listed (s : CalibrationSettings) (input : InputVolume) (length : Nat) :
    FileAction (List String) := do
  FileAction.check (0 < s.batchSize) "calibration batch size must be positive"
  FileAction.check (input.channels = 1 || input.channels = 3)
    s!"calibration supports 1 or 3 input channels, got {input.channels}"
  match s.imageList with
  | none => throw (.note "no calibration image list configured")
  | some list =>
    let images ← readImageList list
    let volume ← FileAction.lift (countBatch s.batchSize input)
    FileAction.check (length = volume)
      s!"device buffer holds {length} floats but a batch needs {volume}"
    return images

/-- The feeder in front of the first of some pictures. -/
def start (s : CalibrationSettings) (input : InputVolume) (images : List String)
    (buffer : Array Scalar) : Feeder :=
  { input, images, buffer
    batchSize := s.batchSize
    normalization := { scale := s.scaleFactor, offsets := s.offsets }
    cachePath := s.cachePath
    useCache := s.useCache
    staged := Array.replicate (batchVolume s.batchSize input) .zero }

/-- A feeder for the given input, over the given buffer. -/
def ofBuffer (s : CalibrationSettings) (input : InputVolume) (buffer : Array Scalar) :
    FileAction Feeder := do
  return start s input (← listed s input buffer.size) buffer

/-- A feeder for the given input, over a buffer of zeros of the given length. -/
def ofSettings (s : CalibrationSettings) (input : InputVolume) (length : Nat) :
    FileAction Feeder := do
  return start s input (← listed s input length) (Array.replicate length .zero)

/-- A feeder over a buffer that holds just one batch. -/
def ofSettingsExact (s : CalibrationSettings) (input : InputVolume) : FileAction Feeder := do
  ofSettings s input (← FileAction.lift (countBatch s.batchSize input))

/-- The planes of a picture, cropped around its centre. -/
def planesOf (input : InputVolume) (n : Normalization) (p : Picture) : Tensor :=
  let target : Size := ⟨input.width % Word.modulus32, input.height % Word.modulus32⟩
  (p.toRgb.centerCrop .catmullRom target).inputPlanes input.channels n

/-- The planes of the picture in a file. -/
def loadPlanes (input : InputVolume) (n : Normalization) (path : String) : FileAction Tensor :=
  FileAction.within s!"calibration image {path} failed" do
    return planesOf input n (← FileAction.openPicture path)

/-- The paths of the next batch; none if too few are left or a cache was found. -/
def nextPaths (f : Feeder) : Option (List String) :=
  if f.cacheFound || f.images.length < f.position + f.batchSize then none
  else some ((f.images.drop f.position).take f.batchSize)

/-- What a buffer of the given length holds after an upload, which has to fill it exactly. -/
def upload (length : Nat) (values : Array Scalar) : Outcome (Array Scalar) := do
  ensure (values.size = length) s!"upload of {values.size} floats into a buffer of {length}"
  return values

/-- A batch with other numbers from a place on. -/
def overwrite (first : Nat) (values batch : Array Scalar) : Array Scalar :=
  batch.extract 0 first ++ values ++ batch.extract (first + values.size) batch.size

/-- Fills a slot of a batch. Numbers that it has no room for are left out, and where there are
fewer, what stood there stays. -/
def fillSlot (volume slot : Nat) (values batch : Array Scalar) : Outcome (Array Scalar) := do
  let first ← Word.mul slot volume
  let stop ← Word.mul (slot + 1) volume
  demand (first ≤ stop && stop ≤ batch.size)
  return overwrite first (values.extract 0 (stop - first)) batch

/-- Puts the picture at a path into a slot of the staged batch. -/
def loadSlot (slot : Nat) (path : String) : Feeding Unit := do
  let f ← get
  let planes ← Feeding.lift (loadPlanes f.input f.normalization path)
  let staged ← Feeding.lift (FileAction.lift (fillSlot f.input.size slot planes.data f.staged))
  set { f with staged }

/-- Puts the pictures at some paths into the slots from the given one on. -/
def loadSlots : (slot : Nat) → List String → Feeding Unit
  | _, [] => pure ()
  | slot, path :: rest => do
    loadSlot slot path
    loadSlots (slot + 1) rest

/-- Hands out the staged batch, the feeder being past its pictures. -/
def handOut : Feeding (Array Scalar) := do
  modify fun f => { f with position := f.position + f.batchSize }
  let f ← get
  let buffer ← Feeding.lift (FileAction.lift (upload f.buffer.size f.staged))
  set { f with buffer }
  return buffer

/-- The next batch for the one input that there is. -/
def nextBatch (names : List String) : Feeding (Option (Array Scalar)) := do
  Feeding.lift <| FileAction.check (names.length = 1)
    s!"calibration feeds a single input binding, {names.length} requested"
  match (← get).nextPaths with
  | none => return none
  | some paths =>
    loadSlots 0 paths
    return some (← handOut)

/-- The bytes of an earlier table, if there is one to be used. -/
def readCache : Feeding (Option ByteArray) := do
  let f ← get
  if !f.useCache then return none
  if !(← Feeding.lift (FileAction.present f.cachePath)) then return none
  let bytes ← Feeding.lift <| (FileAction.readBytes f.cachePath).within
    s!"failed to read calibration cache {f.cachePath}"
  set { f with cacheFound := true }
  return some bytes

/-- Writes a table. -/
def writeCache (bytes : ByteArray) : Feeding Unit := do
  let f ← get
  Feeding.lift <| (FileAction.writeBytes f.cachePath bytes).within
    s!"failed to write calibration cache {f.cachePath}"

end Feeder

end GridNet
