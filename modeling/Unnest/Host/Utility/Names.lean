import Unnest.Host.Utility.Basic

/-!
# Names of files

Programs that take paths apart, follow links, and say where a path leads.  They look at
names only, or at what is under them, but change nothing.
-/

namespace Unnest.Host.Utility

open Work

/-- A path without the slashes at its end, unless there is nothing else. -/
def withoutSlashes (path : String) : String :=
  match (path.toList.reverse.dropWhile (· == '/')).reverse with
  | [] => if path = "" then "" else "/"
  | cs => String.ofList cs

/-- The last part of a path. -/
def lastName (path : String) : String :=
  let path := withoutSlashes path
  if path = "/" then "/" else String.ofList (path.toList.reverse.takeWhile (· != '/')).reverse

/-- What stands before the last part of a path. -/
def parentOf (path : String) : String :=
  let path := withoutSlashes path
  if path = "/" then "/"
  else
    match path.toList.reverse.dropWhile (· != '/') with
    | [] => "."
    | rest => withoutSlashes (String.ofList rest.reverse)

/-- A name inside of a directory. -/
def inside (directory name : String) : String :=
  if Files.isOpenEnded directory then directory ++ name else directory ++ "/" ++ name

/-- Prints the last part of a path, without an ending if one is given. -/
def baseName : Utility := fun args => do
  let g ← options
    { letters := "as:z", isOrdered := true
      words := [("multiple", .nothing, "a"), ("suffix", .value, "s"), ("zero", .nothing, "z")] } args
  let ending := if g.has "z" then "\x00" else "\n"
  let strip (suffix name : String) : String :=
    match Octets.before? suffix name with
    | some rest => if suffix = "" || rest = "" then name else rest
    | none => name
  if g.has "a" || g.has "s" then
    if g.operands.isEmpty then missingOperand []
    for path in g.operands do
      print (strip ((g.value? "s").getD "") (lastName path) ++ ending)
    return 0
  match g.operands with
  | [] => missingOperand []
  | [path] => print (lastName path ++ ending)
  | [path, suffix] => print (strip suffix (lastName path) ++ ending)
  | _ :: _ :: extra :: _ => extraOperand extra
  return 0

/-- Prints what stands before the last part of paths. -/
def directoryName : Utility := fun args => do
  let g ← options { letters := "z", words := [("zero", .nothing, "z")] } args
  if g.operands.isEmpty then missingOperand []
  for path in g.operands do
    print (parentOf path ++ (if g.has "z" then "\x00" else "\n"))
  return 0

/-! ## Following links -/

/-- What has to exist of a path. -/
inductive Demand where
  | nothing
  | allButLast
  | all
  deriving DecidableEq

/-- The path without links that a path leads to, one name after the other from a
directory that is reached by `here`. -/
def canonicalFrom (fs : Files) (demand : Demand) :
    (steps : Nat) → (directory? : Option Nat) → (here : List String) → List String → Except Fault (List String)
  | 0, _, _, _ => .error .loop
  | _, _, here, [] => .ok here
  | steps + 1, directory?, here, name :: rest =>
    if name = "." then canonicalFrom fs demand steps directory? here rest
    else if name = ".." then
      canonicalFrom fs demand steps (directory?.map fs.above) here.dropLast rest
    else
      let node? := directory?.bind fun d => (fs.entries d).lookup name
      match node? with
      | none =>
        if directory?.any fun d => !fs.isDirectory d then .error .notDirectory
        else
          match demand with
          | .all => .error .missing
          | .allButLast =>
            if rest.isEmpty && directory?.isSome then .ok (here ++ [name]) else .error .missing
          | .nothing => canonicalFrom fs demand steps none (here ++ [name]) rest
      | some i =>
        match (fs.get i).form with
        | .link target =>
          if Path.isAbsolute target then
            canonicalFrom fs demand steps (some Files.root) [] (Files.names target ++ rest)
          else canonicalFrom fs demand steps directory? here (Files.names target ++ rest)
        | .directory .. => canonicalFrom fs demand steps (some i) (here ++ [name]) rest
        | _ =>
          if rest.isEmpty then .ok (here ++ [name])
          else if demand == .nothing then canonicalFrom fs demand steps none (here ++ [name]) rest
          else .error .notDirectory

/-- The path without links that a path leads to. -/
def canonical (demand : Demand) (path : String) : Work (Except Fault String) := do
  if path = "" then return .error .missing
  let fs ← files
  let start ← if Path.isAbsolute path then pure Files.root else here
  let lead := if Path.isAbsolute path then [] else Files.names (fs.pathOf start)
  return (canonicalFrom fs demand 5000 (some start) lead (Files.names path)).map fun names =>
    "/" ++ "/".intercalate names

/-- Prints what links hold, or where paths lead. -/
def readLink : Utility := fun args => do
  let g ← options
    { letters := "femnqsvz"
      words := [("canonicalize", .nothing, "f"), ("canonicalize-existing", .nothing, "e"),
        ("canonicalize-missing", .nothing, "m"), ("no-newline", .nothing, "n"), ("quiet", .nothing, "q"),
        ("silent", .nothing, "s"), ("verbose", .nothing, "v"), ("zero", .nothing, "z")] } args
  if g.operands.isEmpty then missingOperand []
  let ending := if g.has "z" then "\x00" else if g.has "n" && g.operands.length = 1 then "" else "\n"
  let well ← forEach g.operands fun path => do
    let found : Except Fault String ←
      match g.last? ["f", "e", "m"] with
      | some "f" => canonical .allButLast path
      | some "e" => canonical .all path
      | some _ => canonical .nothing path
      | none => do
        match ← ask fun fs here => (fs.findLink here path).map fun i => (fs.get i).form with
        | .ok (.link target) => pure (.ok target)
        | .ok _ => pure (.error .invalid)
        | .error f => pure (.error f)
    match found with
    | .ok text => do
      print (text ++ ending)
      return true
    | .error f => do
      if g.has "v" then complain s!"{Quoting.ifNeeded path}: {f.text}"
      return false
  return code well

/-- A path from one directory to another place. -/
def relativePath (start target : String) : String :=
  let a := Files.names start
  let b := Files.names target
  let shared := ((a.zip b).takeWhile fun p => p.1 == p.2).length
  let up := List.replicate (a.length - shared) ".."
  match up ++ b.drop shared with
  | [] => "."
  | names => "/".intercalate names

/-- Prints where paths lead. -/
def realPath : Utility := fun args => do
  let g ← options
    { letters := "eELmPqsz"
      words := [("canonicalize-existing", .nothing, "e"), ("canonicalize-missing", .nothing, "m"),
        ("logical", .nothing, "L"), ("physical", .nothing, "P"), ("quiet", .nothing, "q"),
        ("strip", .nothing, "s"), ("no-symlinks", .nothing, "s"), ("zero", .nothing, "z"),
        ("relative-to", .value, "to"), ("relative-base", .value, "base")] } args
  if g.operands.isEmpty then missingOperand []
  let demand := if g.has "e" then Demand.all else if g.has "m" then .nothing else .allButLast
  let start? ←
    match g.value? "to" with
    | some path =>
      match ← canonical demand path with
      | .ok path => pure (some path)
      | .error f => fail 1 s!"{Quoting.ifNeeded path}: {f.text}"
    | none => pure none
  let well ← forEach g.operands fun path => do
    match ← canonical demand path with
    | .ok text => do
      let shown := match start? with
        | some start => relativePath start text
        | none => text
      print (shown ++ (if g.has "z" then "\x00" else "\n"))
      return true
    | .error f => do
      if !g.has "q" then complain s!"{Quoting.ifNeeded path}: {f.text}"
      return false
  return code well

end Unnest.Host.Utility
