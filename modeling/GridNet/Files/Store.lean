import GridNet.Files.Program

/-!
# Stores

A `Store` is a file system as a value: a current directory, and what stands at each path below the
root. A path is walked step by step, and each step starts in a directory.

* `Store.locate` — where a path leads.
* `Store.answer` — the reply to a request, and the store after it.
* `FileProgram.run` — a whole program.
-/

namespace GridNet

/-- What a store holds at a place. -/
inductive StoreEntry
  | file (bytes : ByteArray)
  | directory

/-- What stands there is a directory. -/
def StoreEntry.isDirectory : StoreEntry → Bool
  | file _ => false
  | directory => true

/-- A **file system as a value**. Places are lists of names, from the root down. -/
structure Store where
  /-- the current directory -/
  here : List String
  /-- everything but the root; the first entry of a place counts -/
  entries : List (List String × StoreEntry)

namespace Store

/-- A store with nothing but the current directory and those above it. -/
def empty (here : List String) : Store :=
  { here
    entries := (List.range here.length).map fun i => (here.take (i + 1), .directory) }

/-- What stands at a place. -/
def entry? (s : Store) (place : List String) : Option StoreEntry :=
  if place.isEmpty then some .directory
  else (s.entries.find? (·.1 = place)).map (·.2)

/-- Confirms that a place is a directory. -/
def enter (s : Store) (place : List String) : Except SystemFault Unit :=
  match s.entry? place with
  | some .directory => .ok ()
  | some (.file _) => .error .notDirectory
  | none => .error .notFound

/-- The longest name, in bytes. -/
def nameLimit : Nat := 255

/-- The longest path, in bytes. -/
def pathLimit : Nat := 4095

/-- Where one step leads from a place. What is there need not hold anything. -/
def step (s : Store) (place : List String) (part : String) : Except SystemFault (List String) := do
  s.enter place
  if part = "." then return place
  if part = ".." then return place.dropLast
  if nameLimit < part.utf8ByteSize then throw .nameTooLong
  return place ++ [part]

/-- Walks from a place along the steps of a path. -/
def walk (s : Store) : (place : List String) → List String → Except SystemFault (List String)
  | place, [] => .ok place
  | place, part :: rest => do walk s (← s.step place part) rest

/-- Confirms that a text can be a path at all. -/
def checkPath (path : String) : Except SystemFault Unit := do
  if path.toList.contains '\x00' then throw .zeroInPath
  if path = "" then throw .notFound
  if pathLimit < path.utf8ByteSize then throw .nameTooLong

/-- Where the walk along a path starts. -/
def origin (s : Store) (path : String) : List String := if Path.isAbsolute path then [] else s.here

/-- Where a path leads. -/
def locate (s : Store) (path : String) : Except SystemFault (List String) := do
  checkPath path
  let place ← s.walk (s.origin path) (Path.steps path)
  if Path.hasTrailingSlash path then
    match s.entry? place with
    | some (.file _) => throw .notDirectory
    | _ => pure ()
  return place

/-- The directory that holds what a path names, and the name there. There is no name if the last
step is one of dots, or if there is no step at all; that step has to be possible. -/
def locateName (s : Store) (path : String) :
    Except SystemFault (List String × Option String) := do
  checkPath path
  match (Path.steps path).getLast? with
  | none => return ([], none)
  | some name =>
    let holder ← s.walk (s.origin path) (Path.steps path).dropLast
    s.enter holder
    return (holder, if name = "." || name = ".." then none else some name)

/-- The entry at a path. -/
def find (s : Store) (path : String) : Except SystemFault StoreEntry := do
  match s.entry? (← s.locate path) with
  | some e => return e
  | none => throw .notFound

/-- The bytes of the file at a path. -/
def read (s : Store) (path : String) : Except SystemFault ByteArray := do
  match ← s.find path with
  | .file bytes => return bytes
  | .directory => throw .isDirectory

/-- Holds an entry at a place, whatever stood there. -/
def put (s : Store) (place : List String) (e : StoreEntry) : Store :=
  { s with entries := (place, e) :: s.entries.filter (·.1 ≠ place) }

/-- The store without the file at a path. -/
def remove (s : Store) (path : String) : Except SystemFault Store := do
  match ← s.find path with
  | .directory => throw .isDirectory
  | .file _ =>
    let place ← s.locate path
    return { s with entries := s.entries.filter (·.1 ≠ place) }

/-- The store with a file written. A slash at the end asks for a directory, also where there is
none. -/
def write (s : Store) (path : String) (bytes : ByteArray) : Except SystemFault Store := do
  match ← s.locateName path with
  | (_, none) => throw .isDirectory
  | (holder, some name) =>
    if Path.hasTrailingSlash path then throw .isDirectory
    let place ← s.step holder name
    if (s.entry? place).any (·.isDirectory) then throw .isDirectory
    return s.put place (.file bytes)

/-- The store with one directory made, where nothing stood before. -/
def makeDirectory (s : Store) (path : String) : Except SystemFault Store := do
  match ← s.locateName path with
  | (_, none) => throw .alreadyExists
  | (holder, some name) =>
    let place ← s.step holder name
    if (s.entry? place).isSome then throw .alreadyExists
    return s.put place .directory

/-- A directory stands at a path. -/
def holdsDirectory (s : Store) (path : String) : Bool :=
  match s.find path with
  | .ok e => e.isDirectory
  | .error _ => false

/-- The store with a directory made, unless there is one. -/
def ensureDirectory (s : Store) (path : String) : Except SystemFault Store :=
  match s.makeDirectory path with
  | .ok after => .ok after
  | .error e => if s.holdsDirectory path then .ok s else .error e

/-- The store with a directory made, after those above it if they are missing. Each of these has a
shorter path. -/
def makeWithParents (s : Store) : (fuel : Nat) → (path : String) → Except SystemFault Store
  | 0, _ => .ok s
  | fuel + 1, path =>
    if path = "" then .ok s
    else
      match s.ensureDirectory path with
      | .error .notFound => do
        ensureDirectory (← makeWithParents s fuel (Path.parent path)) path
      | r => r

/-- The store with a directory and those above it made. -/
def makeDirectories (s : Store) (path : String) : Except SystemFault Store :=
  s.makeWithParents (path.length + 1) path

/-- The store with a file written, and the directories above it made. Nothing changes if that cannot
be done. -/
def withFile (s : Store) (path : String) (bytes : ByteArray) : Store :=
  match s.makeDirectories (Path.parent path) >>= fun s => s.write path bytes with
  | .ok after => after
  | .error _ => s

/-- The store with a directory and those above it made, if that can be done. -/
def withDirectory (s : Store) (path : String) : Store :=
  match s.makeDirectories path with
  | .ok after => after
  | .error _ => s

/-- What stands at a path. -/
def look (s : Store) (path : String) : Option FileKind :=
  match s.find path with
  | .ok (.file _) => some .file
  | .ok .directory => some .directory
  | .error _ => none

/-- The absolute path of a place. -/
def placeText (place : List String) : String := "/" ++ "/".intercalate place

/-- The absolute path of something that is there. -/
def resolve (s : Store) (path : String) : Except SystemFault String := do
  let _ ← s.find path
  return placeText (← s.locate path)

/-- What follows a first list at the start of a second one. -/
def below? : (front place : List String) → Option (List String)
  | [], rest => some rest
  | _ :: _, [] => none
  | x :: xs, y :: ys => if x = y then below? xs ys else none

/-- All files below a directory. -/
def filesBelow (s : Store) (path : String) : List (List String) :=
  match s.locate path with
  | .error _ => []
  | .ok root =>
    s.entries.filterMap fun (place, e) =>
      match e with
      | .file _ => below? root place
      | .directory => none

/-- A change that may fail, as a reply and the store after it. -/
def change (s : Store) (r : Except SystemFault Store) : Except SystemFault Unit × Store :=
  match r with
  | .ok after => (.ok (), after)
  | .error e => (.error e, s)

/-- The reply to a request, and the store after it. -/
def answer (s : Store) : (r : FileRequest) → r.Reply × Store
  | .read path => (s.read path, s)
  | .write path bytes => s.change (s.write path bytes)
  | .makeDirectories path => s.change (s.makeDirectories path)
  | .look path => (s.look path, s)
  | .resolve path => (s.resolve path, s)
  | .filesBelow path => (s.filesBelow path, s)
  | .here => (placeText s.here, s)

end Store

/-- Runs a program on a store. -/
def FileProgram.run {α : Type} : FileProgram α → Store → α × Store
  | .done value, s => (value, s)
  | .ask request next, s =>
    let (reply, s) := s.answer request
    (next reply).run s

/-- Running two programs after each other is running the second on the store that the
first leaves. -/
theorem FileProgram.run_andThen {α β : Type} (p : FileProgram α) (f : α → FileProgram β)
    (s : Store) : (p.andThen f).run s = (f (p.run s).1).run (p.run s).2 := by
  induction p generalizing s with
  | done value => rfl
  | ask request next ih => exact ih _ _

/-- Runs an action on a store. -/
def FileAction.runOn {α : Type} (a : FileAction α) (s : Store) : Outcome α × Store :=
  FileProgram.run (ExceptT.run a) s

end GridNet
