import Unnest.Host.Path

/-!
# Directories on disk

Writing the classes of a program needs little of a file system: directories are made
where they are missing, and files are written whole.  A `Disk` is the part of a file
system that was written like this.  Its places are the names on the way from the root,
and every path starts in one directory, the home.  The operations fail the way a file
system does: where a file stands in the way of a directory or the other way round, where
a directory on the way is missing, and on names that no file can have.
-/

namespace Unnest

/-- What is on a disk.  Every entry is named by the way to it from the root. -/
structure Disk where
  directories : List (List String) := [["tmp"], ["tmp", "build"]]
  files : List (List String × String) := []
  deriving DecidableEq, Repr, Inhabited

namespace Disk

/-- The directory that paths start in. -/
def home : List String := ["tmp", "build"]

/-- The longest name of a file or directory, in bytes. -/
def nameLimit : Nat := 255

/-- The longest path that can be used, in bytes. -/
def pathLimit : Nat := 4095

/-- Whether a file system takes a path at all. -/
def isUsable (path : String) : Bool :=
  decide (path.utf8ByteSize ≤ pathLimit) && !path.toList.contains '\x00' &&
    (Path.components path).all fun name => decide (name.utf8ByteSize ≤ nameLimit)

/-- Whether there is a file. -/
def isFile (d : Disk) (place : List String) : Bool := d.files.any (·.1 == place)

/-- Whether there is a directory. -/
def isDirectory (d : Disk) (place : List String) : Bool := place == [] || d.directories.contains place

/-- The place that a path starts from. -/
def start (path : String) : List String := if Path.isAbsolute path then [] else home

/-- Where names lead from a place through directories, if they are all there. -/
def walk (d : Disk) (here : List String) : List String → Option (List String)
  | [] => some here
  | name :: rest =>
    if name = ".." then walk d here.dropLast rest
    else if d.isDirectory (here ++ [name]) then walk d (here ++ [name]) rest
    else none

/-- Makes one directory, unless it is there; `none` if a file is. -/
def makeDirectory (d : Disk) (place : List String) : Option Disk :=
  if d.isFile place then none
  else if d.isDirectory place then some d
  else some { d with directories := d.directories ++ [place] }

/-- Makes the directories that names lead through, from a place on. -/
def makeFrom (d : Disk) (here : List String) : List String → Option Disk
  | [] => some d
  | name :: rest =>
    if name = ".." then makeFrom d here.dropLast rest
    else do
      let d ← d.makeDirectory (here ++ [name])
      makeFrom d (here ++ [name]) rest

/-- Makes a directory and the ones on the way to it; `none` if that fails.  For the
empty path there is nothing to make. -/
def makeDirectories (d : Disk) (path : String) : Option Disk :=
  if isUsable path then d.makeFrom (start path) (Path.components path) else none

/-- Puts a text into a file, in place of what was there. -/
def put (d : Disk) (place : List String) (text : String) : Disk :=
  { d with files := d.files.filter (·.1 != place) ++ [(place, text)] }

/-- Writes a file into a directory that is there; `none` if that fails, as it does for
a path that can only mean a directory. -/
def writeFile (d : Disk) (path text : String) : Option Disk :=
  if !isUsable path || Path.isOpenEnded path then none
  else
    match (Path.components path).getLast? with
    | none | some ".." => none
    | some name => do
      let directory ← d.walk (start path) (Path.components path).dropLast
      let place := directory ++ [name]
      if d.isDirectory place then none else some (d.put place text)

/-- Every file inside of home with its path from there, ordered by path. -/
def listing (d : Disk) : List (String × String) :=
  (d.files.filterMap fun f =>
    if home.isPrefixOf f.1 then some ("/".intercalate (f.1.drop home.length), f.2) else none).mergeSort
      fun f g => decide (f.1 ≤ g.1)

end Disk

end Unnest
