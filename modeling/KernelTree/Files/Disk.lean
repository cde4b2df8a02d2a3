import KernelTree.Files.Basic
import KernelTree.Files.Path
/-! A disk in memory. A place on it is the list of names that lead there from the top. -/
namespace KernelTree

inductive DiskEntry where
  | directory
  | file (text : String)
deriving DecidableEq, Repr, Inhabited

structure Disk where
  /-- The working directory. -/
  home : List String := []
  /-- What stands at which place; the top is a directory without being listed. -/
  entries : List (List String × DiskEntry) := []
deriving Repr, Inhabited

namespace Disk

def entry? (d : Disk) (place : List String) : Option DiskEntry :=
  if place = [] then some .directory else d.entries.lookup place

/-- Puts something at a place, in the stead of what stood there. -/
def put (d : Disk) (place : List String) (entry : DiskEntry) : Disk :=
  { d with entries := (place, entry) :: d.entries.filter (·.1 ≠ place) }

/-- The files below the working directory, by the names that lead there from it. -/
def filesAtHome (d : Disk) : List (List String × String) :=
  d.entries.filterMap fun (place, entry) =>
    match entry with
    | .directory => none
    | .file text => if d.home.isPrefixOf place then some (place.drop d.home.length, text) else none

def checkDirectory (d : Disk) (place : List String) : Except FileError Unit :=
  match d.entry? place with
  | some .directory => .ok ()
  | some (.file _) => .error .notADirectory
  | none => .error .notFound

/-- A name has room for 255 bytes. -/
def checkName (name : String) : Except FileError Unit :=
  if 255 < name.utf8ByteSize then .error .nameTooLong else .ok ()

/-- Follows the pieces of a path. Nothing need stand at the place where it ends, but all places
before are directories. -/
def follow (d : Disk) : List String → List String → Except FileError (List String)
  | place, [] => .ok place
  | place, piece :: rest => do
    d.checkDirectory place
    if piece = "" ∨ piece = "." then d.follow place rest
    else if piece = ".." then d.follow place.dropLast rest
    else
      checkName piece
      d.follow (place ++ [piece]) rest

def start (d : Disk) (path : String) : List String :=
  if Path.isAbsolute path then [] else d.home

/-- Checks what the system asks of every path. -/
def checkPath (path : String) : Except FileError Unit :=
  if path.toList.contains '\x00' then .error .zeroInName
  else if path = "" then .error .notFound
  else if 4096 ≤ path.utf8ByteSize then .error .nameTooLong
  else .ok ()

def locate (d : Disk) (path : String) : Except FileError (List String) := do
  checkPath path
  d.follow (d.start path) (Path.pieces path)

def isDirectory (d : Disk) (path : String) : Bool :=
  match d.locate path with
  | .ok place => d.entry? place = some .directory
  | .error _ => false

/-- The directory around the last name of a path, that name, and whether slashes follow it. The
name is empty if there is none. -/
def locateAround (d : Disk) (path : String) : Except FileError (List String × String × Bool) := do
  checkPath path
  let backward := (Path.pieces path).reverse
  let (ends, backward) := (backward.takeWhile (· = ""), backward.dropWhile (· = ""))
  let place ← d.follow (d.start path) backward.tail.reverse
  d.checkDirectory place
  let name := backward.head?.getD ""
  if name ≠ ".." ∧ name ≠ "." then checkName name
  return (place, name, !ends.isEmpty)

def read (d : Disk) (path : String) : Except FileError String := do
  match d.entry? (← d.locate path) with
  | some (.file text) => return text
  | some .directory => throw .isADirectory
  | none => throw .notFound

def write (d : Disk) (path text : String) : Except FileError Disk := do
  let (around, name, ended) ← d.locateAround path
  if ended ∨ name = "" ∨ name = "." ∨ name = ".." then throw .isADirectory
  if d.entry? (around ++ [name]) = some .directory then throw .isADirectory
  return d.put (around ++ [name]) (.file text)

def createDirectory (d : Disk) (path : String) : Except FileError Disk := do
  let (around, name, _) ← d.locateAround path
  if name = "" ∨ name = "." ∨ name = ".." then throw .alreadyExists
  if (d.entry? (around ++ [name])).isSome then throw .alreadyExists
  return d.put (around ++ [name]) .directory

/-- Makes a directory, after `before` has been done in case the one around it is missing. -/
def createBehind (path : String) (before : Disk → Except FileError Disk) (d : Disk) :
    Except FileError Disk :=
  match d.createDirectory path with
  | .ok d => .ok d
  | .error .notFound => do
    let d ← before d
    match d.createDirectory path with
    | .ok d => .ok d
    | .error e => if d.isDirectory path then .ok d else .error e
  | .error e => if d.isDirectory path then .ok d else .error e

/-- Makes the directories to which the names of a path lead; the names are listed from the last
on. -/
def createAlong : List String → Disk → Except FileError Disk
  | [], d => .ok d
  | name :: rest, d =>
    createBehind ("/".intercalate (name :: rest).reverse) (createAlong rest) d

/-- Makes a directory and those around it, as far as they are missing. -/
def createDirectories (d : Disk) (path : String) : Except FileError Disk :=
  if path = "" then .ok d
  else createBehind path (createAlong (Path.names path).reverse.tail) d

instance : Files (StateM Disk) where
  read path := do return (← get).read path
  createDirectories path := do
    match (← get).createDirectories path with
    | .ok d =>
      set d
      return .ok ()
    | .error e => return .error e
  write path text := do
    match (← get).write path text with
    | .ok d =>
      set d
      return .ok ()
    | .error e => return .error e

end Disk
end KernelTree
