/-!
# Paths

A path is a text with slashes between its components.  Empty components and single
dots mean nothing, except that a path which starts with a slash is absolute.  The
operations keep the text of a path as it was written as far as they can: paths are
shown in messages, and `a//b/` stays `a//b/`.
-/

namespace Unnest.Path

/-- The pieces of a text between slashes; there is always one piece. -/
def pieces : List Char → List (List Char)
  | [] => [[]]
  | '/' :: rest => [] :: pieces rest
  | c :: rest =>
    match pieces rest with
    | [] => [[c]]
    | piece :: others => (c :: piece) :: others

/-- Whether a path starts at the root. -/
def isAbsolute (path : String) : Bool := path.toList.head? == some '/'

/-- The names on a path, without those that mean nothing.  Two dots mean the
directory above. -/
def components (path : String) : List String :=
  ((pieces path.toList).filter fun p => p != [] && p != ['.']).map String.ofList

/-- Whether a path can only mean a directory: it ends in a slash, or in a single dot. -/
def isOpenEnded (path : String) : Bool :=
  match (pieces path.toList).getLast? with
  | some [] | some ['.'] => true
  | _ => false

/-- The name of the file that a path ends in. -/
def fileName? (path : String) : Option String :=
  (components path).getLast?.filter (· != "..")

/-- A file name up to its last dot.  A name that has no dot but at its start is kept
whole. -/
def stem (name : String) : String :=
  match name.toList.reverse.dropWhile (· != '.') with
  | [] | ['.'] => name
  | _ :: before => String.ofList before.reverse

/-- The stem of the file that a path ends in. -/
def fileStem? (path : String) : Option String := (fileName? path).map stem

/-- A path inside a directory.  An absolute one stands for itself. -/
def join (directory path : String) : String :=
  if isAbsolute path then path
  else if directory.toList.getLast?.all (· == '/') then directory ++ path
  else directory ++ "/" ++ path

/-- Drops what means nothing from the end of a path, given from its end: slashes,
and dots behind a slash.  The first character stays. -/
def trimEnd : List Char → List Char
  | '/' :: c :: rest => trimEnd (c :: rest)
  | '.' :: '/' :: c :: rest => trimEnd ('/' :: c :: rest)
  | text => text

/-- The directory that a file is in, for a path that ends in a file name. -/
def parent (path : String) : String :=
  String.ofList (trimEnd (path.toList.reverse.dropWhile (· != '/'))).reverse

end Unnest.Path
