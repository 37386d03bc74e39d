import Classwright.ClassFile.Bytes

/-! # File trees

The files below one directory. A path is followed part by part: `.` stays where it is, `..` goes up, and any other
part must be a directory that is there. Above the top a directory is known only by the way up to it. -/

namespace Classwright

/-- Directories and files are known by their places: the parts on the way from the top, the innermost first. -/
structure FileTree where
  directories : List (List String) := []
  /-- The files, the latest first. -/
  files : List (List String × Bytes) := []
deriving Inhabited

namespace FileTree

/-- The parts of a path. -/
def parts (path : String) : List String :=
  ((path.toList.splitOn '/').filter fun part => !part.isEmpty).map String.ofList

/-- The place above another one. -/
def up : List String → List String
  | [] => [".."]
  | ".." :: above => ".." :: ".." :: above
  | _ :: outer => outer

/-- The place that a part leads to from another one. -/
def step (place : List String) (part : String) : List String :=
  if part = "." then place else if part = ".." then up place else part :: place

/-- The top and what is above it are always there. -/
def isDirectory (t : FileTree) (place : List String) : Bool :=
  place.all (· == "..") || t.directories.contains place

/-- The directory that parts lead to. All that they pass through must be there. -/
def enter? (t : FileTree) (place : List String) : List String → Option (List String)
  | [] => some place
  | part :: rest =>
    let place := step place part
    if t.isDirectory place then t.enter? place rest else none

/-- Makes a directory unless it is there. -/
def make (t : FileTree) (place : List String) : FileTree :=
  if t.isDirectory place then t else { t with directories := place :: t.directories }

/-- Makes all directories that parts pass through. -/
def makeAll (t : FileTree) (place : List String) : List String → FileTree
  | [] => t
  | part :: rest =>
    let place := step place part
    (t.make place).makeAll place rest

/-- What the file of a path holds. -/
def read? (t : FileTree) (path : String) : Option Bytes := do
  let parts := parts path
  let file ← parts.getLast?
  let place ← t.enter? [] parts.dropLast
  t.files.lookup (file :: place)

/-- Writes a file and makes the directories on the way to it. Without a name for the file nothing is written. -/
def write (t : FileTree) (path : String) (bytes : Bytes) : FileTree :=
  let parts := parts path
  match parts.getLast? with
  | none => t
  | some file =>
    let t := t.makeAll [] parts.dropLast
    { t with files := (file :: parts.dropLast.foldl step [], bytes) :: t.files }

/-- Files written one after another; of two in one place the later counts. -/
def ofFiles (files : List (String × Bytes)) : FileTree :=
  files.foldl (fun t (path, bytes) => t.write path bytes) {}

end FileTree

end Classwright
