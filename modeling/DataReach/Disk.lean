import DataReach.Dict
import DataReach.Disk.Path
import DataReach.Json.Reader
/-!
A disk as a value: a tree of directories and files. A path is followed name by name from the
top, and every name but the last has to lead to a directory.
-/

namespace DataReach

inductive DiskError where
  | notFound
  | alreadyExists
  | notDirectory
  | isDirectory
  | nameTooLong
  | nulInName
  deriving DecidableEq, Repr, Inhabited

def DiskError.message : DiskError → String
  | .notFound => "No such file or directory (os error 2)"
  | .alreadyExists => "File exists (os error 17)"
  | .notDirectory => "Not a directory (os error 20)"
  | .isDirectory => "Is a directory (os error 21)"
  | .nameTooLong => "File name too long (os error 36)"
  | .nulInName => "file name contained an unexpected NUL byte"

/-- What a file holds: text, or a document that was written as a whole, as it is read. -/
inductive Content where
  | text (s : String)
  | document (j : Json)
  deriving Inhabited

def Content.json? : Content → Option Json
  | .text s => Json.parse s
  | .document j => some j

inductive DiskEntry where
  | file (content : Content)
  | directory (children : List (FileName × DiskEntry))
  deriving Inhabited

abbrev Place := List FileName

namespace DiskEntry

def emptyDirectory : DiskEntry := .directory []

def children : DiskEntry → List (FileName × DiskEntry)
  | .file _ => []
  | .directory children => children

def at? : DiskEntry → Place → Option DiskEntry
  | e, [] => some e
  | .file _, _ :: _ => none
  | .directory children, name :: rest => (Dict.get? children name).bind fun e => e.at? rest

def put : DiskEntry → Place → DiskEntry → DiskEntry
  | _, [], new => new
  | .file c, _ :: _, _ => .file c
  | .directory children, name :: rest, new =>
    .directory (Dict.alter children name fun e => (e.getD emptyDirectory).put rest new)

def drop : DiskEntry → Place → DiskEntry
  | .directory children, [name] => .directory (Dict.erase children name)
  | .directory children, name :: rest =>
    match Dict.get? children name with
    | some e => .directory (Dict.insert children name (e.drop rest))
    | none => .directory children
  | e, _ => e

end DiskEntry

structure Disk where
  children : List (FileName × DiskEntry) := []
  deriving Inhabited

namespace Disk

def empty : Disk := {}

def top (d : Disk) : DiskEntry := .directory d.children

def at? (d : Disk) (p : Place) : Option DiskEntry := d.top.at? p

def put (d : Disk) (p : Place) (e : DiskEntry) : Disk := ⟨(d.top.put p e).children⟩

def drop (d : Disk) (p : Place) : Disk := ⟨(d.top.drop p).children⟩

/-! ### Following paths -/

def step (here : Place) (name : FileName) : Place :=
  if name.text == ".." then here.dropLast else here ++ [name]

def requireDirectory (d : Disk) (p : Place) : Except DiskError Place :=
  match d.at? p with
  | none => .error .notFound
  | some (.file _) => .error .notDirectory
  | some (.directory _) => .ok p

/-- Where names lead from a directory; the last of them need not exist. -/
def follow (d : Disk) (here : Place) : List FileName → Except DiskError Place
  | [] => .ok here
  | name :: rest =>
    if Path.maxNameBytes < name.text.utf8ByteSize then .error .nameTooLong
    else if rest.isEmpty then .ok (step here name)
    else do d.follow (← d.requireDirectory (step here name)) rest

def enter (d : Disk) (names : List FileName) : Except DiskError Place := do
  d.requireDirectory (← d.follow [] names)

def checkPath (path : String) : Except DiskError Unit :=
  if path.toList.contains '\x00' then .error .nulInName
  else if Path.maxBytes < path.utf8ByteSize then .error .nameTooLong
  else .ok ()

def locate (d : Disk) (path : String) : Except DiskError Place := do
  checkPath path
  if Path.meansDirectory path then d.enter (Path.steps path)
  else d.follow [] (Path.steps path)

def find (d : Disk) (path : String) : Except DiskError (Place × DiskEntry) := do
  let p ← d.locate path
  match d.at? p with
  | some e => .ok (p, e)
  | none => .error .notFound

/-! ### Files -/

def isFile (d : Disk) (path : String) : Bool :=
  match d.find path with
  | .ok (_, .file _) => true
  | _ => false

def read (d : Disk) (path : String) : Except DiskError Content := do
  match ← d.find path with
  | (_, .file c) => .ok c
  | (_, .directory _) => .error .isDirectory

def write (d : Disk) (path : String) (c : Content) : Except DiskError Disk := do
  let p ← d.locate path
  match d.at? p with
  | some (.directory _) => .error .isDirectory
  | _ => .ok (d.put p (.file c))

def rename (d : Disk) (source target : String) : Except DiskError Disk := do
  let (p, e) ← d.find source
  let q ← d.locate target
  match d.at? q with
  | some (.directory _) => .error .isDirectory
  | _ => .ok ((d.drop p).put q e)

def removeFile (d : Disk) (path : String) : Except DiskError Disk := do
  match ← d.find path with
  | (p, .file _) => .ok (d.drop p)
  | (_, .directory _) => .error .isDirectory

/-! ### Directories -/

def list (d : Disk) (path : String) : Except DiskError (List String) := do
  match ← d.find path with
  | (_, .directory children) => .ok ((Dict.keys children).map (·.text))
  | (_, .file _) => .error .notDirectory

/-- Makes the directories that names lead through, up to the first that cannot be made. -/
def makeEach (d : Disk) (here : Place) : List FileName → Except DiskError Unit × Disk
  | [] => (.ok (), d)
  | name :: rest =>
    if Path.maxNameBytes < name.text.utf8ByteSize then (.error .nameTooLong, d)
    else
      match d.at? (step here name) with
      | some (.directory _) => d.makeEach (step here name) rest
      | some (.file _) => (.error .alreadyExists, d)
      | none => (d.put (step here name) .emptyDirectory).makeEach (step here name) rest

/-- Makes a directory and those above it that are missing. A dot at the end names a directory that
has to be there already. -/
def createDirectories (d : Disk) (path : String) : Except DiskError Unit × Disk :=
  let names := Path.steps path
  let dot := Path.endsInDot path
  let above := do
    checkPath path
    d.enter (if dot then names else names.dropLast)
  match above with
  | .ok _ | .error .notFound =>
    match d.makeEach [] (if dot then names.dropLast else names) with
    | (.ok (), d) => (if dot then (d.enter names).map fun _ => () else .ok (), d)
    | r => r
  | .error e => (.error e, d)

/-- Removes a directory with everything in it, and tells whether it is gone. One that is named by a
dot is emptied but stays. -/
def removeDirectory (d : Disk) (path : String) : Bool × Disk :=
  match d.find path with
  | .ok (p, .directory _) =>
    if Path.endsInDot path then (false, d.put p .emptyDirectory) else (true, d.drop p)
  | _ => (false, d)

end Disk

end DataReach
