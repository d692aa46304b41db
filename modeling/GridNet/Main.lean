import GridNet.CommandLine.Run

/-!
# The program

The one place where files are really touched: each request of a file program is put to the file
system, and its reply goes on to the program.
-/

namespace GridNet.Main

/-- A fault as the system reports it. -/
def faultOf (e : IO.Error) : SystemFault :=
  match e with
  | .noFileOrDirectory .. => .notFound
  | .alreadyExists .. => .alreadyExists
  | .inappropriateType .. => .notDirectory
  | e => .other (toString e)

/-- The result of an action of the system, or the fault that it ran into. -/
def attempt {α : Type} (a : IO α) : IO (Except SystemFault α) := do
  try return .ok (← a)
  catch e => return .error (faultOf e)

/-- What stands at a path. -/
def look (path : String) : IO (Option FileKind) := do
  match ← attempt ((← IO.currentDir) / path).metadata with
  | .error _ => return none
  | .ok m =>
    match m.type with
    | .file => return some .file
    | .dir => return some .directory
    | _ => return some .other

/-- The bytes of a file. -/
def read (path : String) : IO (Except SystemFault ByteArray) := do
  match ← look path with
  | some .directory => return .error .isDirectory
  | _ => attempt (IO.FS.readBinFile path)

/-- Replaces the bytes of a file. -/
def write (path : String) (bytes : ByteArray) : IO (Except SystemFault Unit) := do
  match ← look path with
  | some .directory => return .error .isDirectory
  | _ => attempt (IO.FS.writeBinFile path bytes)

/-- All files below a directory, each by its parts behind those of `front`. Links are not
followed. -/
partial def filesBelow (path : String) (front : List String) : IO (List (List String)) := do
  match ← attempt ((← IO.currentDir) / path).readDir with
  | .error _ => return []
  | .ok entries =>
    let mut files := []
    for entry in entries do
      let parts := front ++ [entry.fileName]
      match ← attempt entry.path.symlinkMetadata with
      | .error _ => pure ()
      | .ok m =>
        match m.type with
        | .file => files := files ++ [parts]
        | .dir => files := files ++ (← filesBelow entry.path.toString parts)
        | _ => pure ()
    return files

/-- The reply of the file system to a request. -/
def answer : (r : FileRequest) → IO r.Reply
  | .read path => read path
  | .write path bytes => write path bytes
  | .makeDirectories path => attempt (IO.FS.createDirAll path)
  | .look path => look path
  | .resolve path => attempt do return (← IO.FS.realPath path).toString
  | .filesBelow path => filesBelow path []
  | .here => do return (← IO.currentDir).toString

/-- Runs a program on the real file system. -/
def perform {α : Type} : FileProgram α → IO α
  | .done value => return value
  | .ask request next => do perform (next (← answer request))

end GridNet.Main

/-- Runs the command line. -/
def main (words : List String) : IO UInt32 := do
  let images ← IO.getEnv GridNet.imageListVariable
  let size ← IO.getEnv GridNet.batchSizeVariable
  let environment : GridNet.Environment := fun name =>
    if name = GridNet.imageListVariable then images
    else if name = GridNet.batchSizeVariable then size
    else none
  let ending ← GridNet.Main.perform (GridNet.CommandLine.runCommandLine environment words)
  IO.print ending.output
  IO.eprint ending.complaint
  return ending.code.toUInt32
