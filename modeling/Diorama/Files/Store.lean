import Diorama.Files.Fault
import Diorama.Files.Path

/-! # File stores

What stands at which place of a file system, the working directory, and what the file system refuses
although nothing that stands there is in the way. Places are told from the root. A path is followed
step by step, from the root or from the working directory, and every step starts from a directory. A
link on the way is replaced by the path that it stands for. Only the last step may lead to nothing.
-/

namespace Diorama

inductive StoreEntry where
  | file (contents : ByteArray)
  | directory

/-- The names that lead from the root to a place. -/
abbrev Place := List String

/-- What a file system refuses for want of a permission or of room. -/
structure Refusals where
  /-- Going through the directory at a place. -/
  entering : Place → Option FileFault
  /-- Reading the file at a place. -/
  reading : Place → Option FileFault
  /-- Making a new file in the directory at a place. -/
  making : Place → Option FileFault
  /-- Filling a new file. Some of the bytes may find room. -/
  filling : ByteArray → Option (Nat × FileFault)
  /-- Taking a place. -/
  replacing : Place → Option FileFault

def Refusals.empty : Refusals :=
  ⟨fun _ => none, fun _ => none, fun _ => none, fun _ => none, fun _ => none⟩

structure Store where
  entries : List (Place × StoreEntry)
  /-- Places that stand for other paths, which are followed from the directory of the link. -/
  links : List (Place × String)
  workingDirectory : Place
  refusals : Refusals

/-- What a place holds. -/
inductive Standing where
  | entry (entry : StoreEntry)
  | link (path : String)

namespace Store

/-- Nothing but the root, in which one works. -/
def empty : Store := ⟨[], [], [], .empty⟩

/-- What stands at a place. The root is the empty place. -/
def standing? (s : Store) (place : Place) : Option Standing :=
  if place = [] then some (.entry .directory)
  else match s.links.lookup place with
    | some path => some (.link path)
    | none => (s.entries.lookup place).map .entry

def isDirectory (s : Store) (place : Place) : Bool :=
  match s.standing? place with
  | some (.entry .directory) => true
  | _ => false

/-- The contents of the file at a place. -/
def contents? (s : Store) (place : Place) : Option ByteArray :=
  match s.standing? place with
  | some (.entry (.file contents)) => some contents
  | _ => none

/-- The path that the link at a place stands for. -/
def linkAt? (s : Store) (place : Place) : Option String :=
  match s.standing? place with
  | some (.link path) => some path
  | _ => none

/-- Puts an entry at a place, instead of what was there. -/
def put (s : Store) (place : Place) (entry : StoreEntry) : Store :=
  { s with
    entries := if (s.entries.lookup place).isSome then
        s.entries.map fun (p, e) => if p = place then (p, entry) else (p, e)
      else s.entries ++ [(place, entry)]
    links := s.links.filter fun (p, _) => p ≠ place }

/-- Takes away what is at a place. -/
def remove (s : Store) (place : Place) : Store :=
  { s with
    entries := s.entries.filter fun (p, _) => p ≠ place
    links := s.links.filter fun (p, _) => p ≠ place }

/-- Makes the directories on the way to a place that are missing. -/
def makeParents (s : Store) (place : Place) : Store :=
  (List.range place.length).foldl (fun s n =>
    if (s.standing? (place.take n)).isSome then s else s.put (place.take n) .directory) s

/-! ### Following paths -/

def expectDirectory (s : Store) (place : Place) : Except FileFault Unit :=
  match s.standing? place with
  | none => .error .notFound
  | some (.entry .directory) => .ok ()
  | some _ => .error .notADirectory

/-- Only directories can be entered, and perhaps not all of them. -/
def enter (s : Store) (place : Place) : Except FileFault Unit := do
  s.expectDirectory place
  match s.refusals.entering place with
  | none => return
  | some fault => throw fault

/-- What a name leads to from a directory. The root is above itself. -/
def child (place : Place) (name : String) : Except FileFault Place :=
  if 255 < name.utf8ByteSize then .error .invalidFilename
  else if name = "." then .ok place
  else if name = ".." then .ok place.dropLast
  else .ok (place ++ [name])

/-- One step from a place. A step without a name stays there. -/
def step (s : Store) (place : Place) (name : String) : Except FileFault Place := do
  if name = "" then
    s.expectDirectory place
    return place
  else
    s.enter place
    child place name

/-- Where a path starts that is followed from a directory. -/
def startOf (directory : Place) (path : String) : Place :=
  if Path.isAbsolute path then [] else directory

/-- Takes steps from a place, up to the first link. `through` goes on from there, with the path of the
link before the steps that are left. -/
def walk (s : Store) (through : Place → List String → Except FileFault Place) :
    Place → List String → Except FileFault Place
  | place, [] => .ok place
  | place, name :: names => do
    let next ← s.step place name
    match s.linkAt? next with
    | some path => through (startOf place path) (Path.trail path ++ names)
    | none => s.walk through next names

/-- Takes steps from a place, through so many links at most. What the last step leads to may be
missing. -/
def follow (s : Store) : Nat → Place → List String → Except FileFault Place
  | 0 => s.walk fun _ _ => .error .filesystemLoop
  | links + 1 => s.walk (s.follow links)

/-- The number of links that a lookup goes through at most. -/
def maxLinks : Nat := 40

/-- Where a path starts. -/
def start (s : Store) (path : String) : Place := startOf s.workingDirectory path

/-- Whether a path can be looked up at all. -/
def checkPath (path : String) : Except FileFault Unit :=
  if !Path.isProper path then .error .invalidInput
  else if Path.maxLength < path.utf8ByteSize then .error .invalidFilename
  else if path = "" then .error .notFound
  else .ok ()

/-- What a path leads to. -/
def resolve (s : Store) (path : String) : Except FileFault Place := do
  checkPath path
  s.follow maxLinks (s.start path) (Path.trail path)

/-! ### Reading -/

/-- The contents of the file at a place. -/
def fileAt (s : Store) (place : Place) : Except FileFault ByteArray :=
  match s.standing? place with
  | none => .error .notFound
  | some (.entry .directory) => .error .isADirectory
  | some (.link _) => .error .filesystemLoop
  | some (.entry (.file contents)) =>
    match s.refusals.reading place with
    | none => .ok contents
    | some fault => .error fault

/-- The contents of a file. -/
def read (s : Store) (path : String) : Except FileFault ByteArray := do
  s.fileAt (← s.resolve path)

/-- Something stands at a path. -/
def present (s : Store) (path : String) : Bool :=
  match s.resolve path with
  | .error _ => false
  | .ok place => (s.standing? place).isSome

/-! ### Writing -/

/-- The name of a new file until it takes its place has ten bytes. -/
def preparedLength : Nat := 10

/-- The names that a new file may have until it takes its place. -/
def preparedName (n : Nat) : String := ".tmp" ++ toString (100000 + n)

/-- The path from the root to the directory of a path, in which a new file is made before it takes its
place. The root itself has no such directory: the working directory stands in for it. -/
def parentPath (s : Store) (path : String) : String :=
  let parent := Path.parent path
  if Path.isAbsolute path ∧ Path.steps path ≠ [] then parent
  else "/".intercalate ("" :: s.workingDirectory ++ [if parent = "" then "." else parent])

/-- The directory of a path, if a new file can be made there. -/
def enterParent (s : Store) (path : String) : Except FileFault Place := do
  let parent := s.parentPath path
  if !Path.isProper parent then throw .invalidInput
  if Path.maxLength < parent.utf8ByteSize + 1 + preparedLength then throw .invalidFilename
  let directory ← s.follow maxLinks [] (Path.pieces parent)
  s.enter directory
  match s.refusals.making directory with
  | none => return directory
  | some fault => throw fault

/-- The names that a path, the working directory and the links speak of. -/
def spokenNames (s : Store) (path : String) : List String :=
  s.workingDirectory ++ Path.pieces path ++ s.links.flatMap fun (_, other) => Path.trail other

/-- How many names there are to try for a new file: more than can be taken or spoken of. -/
def tries (s : Store) (path : String) : Nat :=
  s.entries.length + s.links.length + (s.spokenNames path).length + 1

/-- A name for a new file in a directory. Nothing stands there under this name, and no path that is
followed speaks of it. -/
def preparedName? (s : Store) (directory : Place) (path : String) : Option String :=
  ((List.range (s.tries path)).map preparedName).find? fun name =>
    (s.standing? (directory ++ [name])).isNone ∧ name ∉ s.spokenNames path

/-- The place at which a file of this path would stand, given its directory and its last step. A link
at this place is not followed. -/
def placeIn (s : Store) (path : String) (directory : Place) (name : String) :
    Except FileFault Place :=
  if name = "." ∨ name = ".." then .error .resourceBusy
  else match child directory name with
    | .error fault => .error fault
    | .ok place =>
      if Path.endsInSlash path then .error .notADirectory
      else if s.isDirectory place then .error .isADirectory
      else match s.refusals.replacing place with
        | none => .ok place
        | some fault => .error fault

/-- The place at which a file of this path would stand. -/
def placeOf (s : Store) (path : String) : Except FileFault Place := do
  checkPath path
  let directory ← s.follow maxLinks (s.start path) (Path.pieces path).dropLast
  s.enter directory
  match (Path.pieces path).getLast? with
  | none => .error .resourceBusy
  | some name => s.placeIn path directory name

/-- Replaces or makes a file. A new file is made in the same directory and filled; then it takes the
place of the old one, or it is taken away again. -/
def write (s : Store) (path : String) (contents : ByteArray) : Except FileFault Unit × Store :=
  match s.enterParent path with
  | .error fault => (.error fault, s)
  | .ok directory =>
    match s.preparedName? directory path with
    | none => (.error .other, s)
    | some name =>
      let prepared := directory ++ [name]
      let made := s.put prepared (.file .empty)
      match s.refusals.filling contents with
      | some (room, fault) =>
        let begun := made.put prepared (.file (contents.extract 0 room))
        (.error fault, begun.remove prepared)
      | none =>
        let filled := made.put prepared (.file contents)
        match filled.placeOf path with
        | .error fault => (.error fault, filled.remove prepared)
        | .ok place => (.ok (), (filled.remove prepared).put place (.file contents))

end Store

end Diorama
