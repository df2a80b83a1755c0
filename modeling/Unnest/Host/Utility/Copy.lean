import Unnest.Host.Utility.Entries

/-!
# Copying and moving

A copy of a file is a new file with the same text, or new text in a file that is there.
A directory is copied with everything in it.  Moving gives what is under a path another
name, in place of what had it.
-/

namespace Unnest.Host.Utility

open Work

/-- How files are copied. -/
structure Copying where
  isRecursive : Bool := false
  isForced : Bool := false
  asks : Bool := false
  neverReplaces : Bool := false
  onlyNewer : Bool := false
  /-- Whether links are copied as links, also where they are operands. -/
  keepsLinks : Bool := false
  /-- Whether links inside of directories are followed. -/
  followsAll : Bool := false
  keepsMode : Bool := false
  isVerbose : Bool := false
  linksFiles : Bool := false
  linksByPath : Bool := false
  /-- The ending of the names that files get which are replaced. -/
  backup? : Option String := none
  /-- Permissions that every copy gets. -/
  mode? : Option Nat := none

/-- Whether a file is newer than another. -/
def isNewer (fs : Files) (i j : Nat) : Bool := decide ((fs.get j).changed < (fs.get i).changed)

/-- Whether what is under a path may be replaced, which is asked where that is wanted;
`none` if it stays without a complaint. -/
def mayReplace (c : Copying) (source target : Nat) (path : String) : Work Bool := do
  let fs ← files
  if c.neverReplaces then return false
  if c.onlyNewer && !isNewer fs source target then return false
  if c.asks then confirm s!"overwrite {Quoting.always path}?" else return true

/-- Puts what is under a path aside, if that is wanted. -/
def putBackup (c : Copying) (path : String) : Work Unit := do
  match c.backup? with
  | none => return
  | some ending =>
    let _ ← change fun fs here => fs.rename here path (path ++ ending)

/-- Reports a copy. -/
def reportCopy (c : Copying) (source target : String) : Work Unit := do
  if c.isVerbose then printLine s!"{Quoting.always source} -> {Quoting.always target}"

/-- Copies one file that is no directory; whether that went well. -/
def copyFile (c : Copying) (source target : String) (i : Nat) (hasLinks : Bool) : Work Bool := do
  let fs ← files
  let node := fs.get i
  let target? ← ask fun fs here => if hasLinks then fs.findLink? here target else fs.find? here target
  match target? with
  | some j => do
    if i = j then
      if c.linksFiles then return true
      complain s!"{Quoting.always source} and {Quoting.always target} are the same file"
      return false
    if fs.isDirectory j then
      complain s!"cannot overwrite directory {Quoting.always target} with non-directory"
      return false
    if !(← mayReplace c i j target) then return true
    if c.backup?.isSome then putBackup c target
    else if hasLinks || c.linksFiles || c.linksByPath then
      let _ ← change fun fs here => fs.unlink here target
  | none => pure ()
  let place ← ask fun fs here => fs.place here target (!hasLinks)
  let result : Option Fault ←
    match node.form with
    | .link text =>
      if hasLinks then change fun fs here => return (← fs.create here target (.link text) 0o777).2
      else pure (some .missing)
    | _ =>
      if c.linksByPath then change fun fs here => return (← fs.create here target (.link source) 0o777).2
      else if c.linksFiles then change fun fs here => fs.addName here i target
      else do
        match place with
        | .error f => pure (some f)
        | .ok p =>
          match p.node? with
          | some j => do
            let t ← get
            match t.machine.openPath t.process target .write with
            | .error f => pure (some f)
            | .ok (o, m) => do
              let text := if node.isDevice then "" else fs.text i
              match m.write o text with
              | .ok m => setMachine m
              | .error _ => setMachine m
              match node.form with
              | .program name => do
                if (fs.get j).isFile then setFiles ((← files).setForm j (.program name))
              | _ => pure ()
              if c.keepsMode then setFiles ((← files).setMode j node.mode)
              pure none
          | none => do
            if p.isOpenEnded then pure (some .notDirectory)
            else
              let form :=
                match node.form with
                | .file _ | .program _ => node.form
                | .queue text => if c.isRecursive then .queue text else .file text
                | .device d => if c.isRecursive then .device d else .file ""
                | _ => .file ""
              let mode ← if c.keepsMode then pure node.mode else newMode (node.mode &&& 0o777)
              change fun fs here => return (← fs.create here target form mode).2
  match result with
  | none => do
    match ← ask fun fs here => fs.findLink? here target with
    | some j => do
      match c.mode? with
      | some mode => setFiles ((← files).setMode j mode)
      | none => pure ()
      if c.keepsMode && !hasLinks then setFiles ((← files).setChanged j node.changed)
    | none => pure ()
    reportCopy c source target
    return true
  | some f => do
    let what :=
      if hasLinks || c.linksByPath then "cannot create symbolic link"
      else if c.linksFiles then "cannot create hard link"
      else "cannot create regular file"
    complain s!"{what} {Quoting.always target}: {f.text}"
    return false

/-- Copies what is under a path, with everything in it; whether all went well.  The
directories that were made on the way are not copied themselves. -/
def copyTree (c : Copying) (isOperand : Bool) (made : List Nat) : (depth : Nat) → (source target : String) → Work Bool
  | 0, _, _ => return false
  | depth + 1, source, target => do
    let keepsLink := c.keepsLinks && !c.followsAll || (!isOperand && !c.followsAll)
    let found ← ask fun fs here => if keepsLink then fs.findLink here source else fs.find here source
    match found with
    | .error f => do
      complain s!"cannot stat {Quoting.always source}: {f.text}"
      return false
    | .ok i => do
      let fs ← files
      if !fs.isDirectory i then copyFile c source target i (fs.get i).isLink
      else if !c.isRecursive then
        complain s!"-r not specified; omitting directory {Quoting.always source}"
        return false
      else
        let target? ← ask fun fs here => fs.find? here target
        let into : Option Nat ←
          match target? with
          | some j => do
            if !fs.isDirectory j then
              complain s!"cannot overwrite non-directory {Quoting.always target} with directory {Quoting.always source}"
              pure none
            else if i = j then
              complain s!"{Quoting.always source} and {Quoting.always target} are the same file"
              pure none
            else pure (some j)
          | none => do
            let parent? ← ask fun fs here => fs.place here (withoutSlashes target) false
            let isInside := parent?.toOption.any fun p => fs.isWithin i 4096 p.directory
            let mode ← newMode ((fs.get i).mode &&& 0o777)
            match ← change fun fs here => fs.makeDirectory here target mode with
            | some f => do
              complain s!"cannot create directory {Quoting.always target}: {f.text}"
              pure none
            | none => do
              reportCopy c source target
              let j? ← ask fun fs here => fs.find? here target
              if isInside then
                complain s!"cannot copy a directory, {Quoting.always source}, into itself, {Quoting.always target}"
              -- the copy is there, but it is not copied into itself
              pure (if isInside then none else j?)
        match into with
        | none => return false
        | some j => do
          let entries := (fs.entries i).filter fun e => !(j :: made).contains e.2
          let well ← forEach entries fun (name, _) =>
            copyTree c false (j :: made) depth (inside source name) (inside target name)
          if c.keepsMode then
            setFiles (((← files).setMode j (fs.get i).mode).setChanged j (fs.get i).changed)
          return well

/-- The ending of backups that was asked for. -/
def backupOf (g : Given) : Option String :=
  if g.has "b" || g.has "backup" || g.has "S" then
    match g.value? "backup" with
    | some "none" | some "off" => none
    | some "numbered" | some "t" => some ".~1~"
    | _ => some ((g.value? "S").getD "~")
  else none

/-- The path that an operand goes to with all the directories on its path. -/
def withParents (directory source : String) : Work (Option String) := do
  let target := inside directory source
  match ← makeParents 0o777 (parentOf target) (target.length + 1) with
  | none => return some target
  | some f => do
    let parent := parentOf target
    complain s!"cannot make directory {Quoting.always parent}: {f.text}"
    return none

/-- Does something for each source and destination, of which no destination may be
used twice. -/
def eachPair (pairs : List (String × String)) (act : (source target : String) → Work Bool) : Work Bool := do
  let (well, _) ← pairs.foldlM (fun (sofar : Bool × List (Nat × String × String)) (source, target) => do
    let (well, used) := sofar
    let place? ← ask fun fs here => (fs.place here (withoutSlashes target) false).toOption.map fun p => (p.directory, p.name)
    let isDirectory ← ask fun fs here => (fs.find? here source).any fs.isDirectory
    match place? with
    | some (directory, name) =>
      match used.find? fun u => u.1 == directory && u.2.1 == name with
      | some _ => do
        if isDirectory then return (well, used)
        complain s!"will not overwrite just-created {Quoting.always target} with {Quoting.always source}"
        return (false, used)
      | none => do
        let done ← act source target
        return (well && done, if done then (directory, name, source) :: used else used)
    | none => do
      let done ← act source target
      return (well && done, used)) (true, [])
  return well

/-- Copies files. -/
def copy : Utility := fun args => do
  let g ← options
    { letters := "abdfHilLnprRsS:t:TuvxPZ"
      words := [("archive", .nothing, "a"), ("attributes-only", .nothing, "attributes"), ("backup", .attached, "backup"),
        ("copy-contents", .nothing, "contents"), ("debug", .nothing, "debug"), ("dereference", .nothing, "L"),
        ("force", .nothing, "f"), ("interactive", .nothing, "i"), ("link", .nothing, "l"),
        ("no-clobber", .nothing, "n"), ("no-dereference", .nothing, "P"), ("no-preserve", .value, "no-preserve"),
        ("no-target-directory", .nothing, "T"), ("one-file-system", .nothing, "x"), ("parents", .nothing, "parents"),
        ("preserve", .attached, "preserve"), ("recursive", .nothing, "r"), ("reflink", .attached, "reflink"),
        ("remove-destination", .nothing, "remove"), ("sparse", .value, "sparse"),
        ("strip-trailing-slashes", .nothing, "strip"), ("suffix", .value, "S"), ("symbolic-link", .nothing, "s"),
        ("target-directory", .value, "t"), ("update", .attached, "u"), ("verbose", .nothing, "v")] } args
  let has (os : List String) : Bool := os.any g.has
  let isRecursive := has ["r", "R", "a"]
  let c : Copying :=
    { isRecursive, isForced := g.has "f"
      asks := g.last? ["i", "n", "f"] == some "i", neverReplaces := g.last? ["i", "n"] == some "n"
      onlyNewer := g.has "u" && ["", "older"].contains ((g.value? "u").getD "")
      keepsLinks := has ["P", "d", "a"] || (isRecursive && !has ["L", "H"])
      followsAll := g.last? ["L", "P", "d", "a"] == some "L"
      keepsMode := has ["p", "a", "preserve"], isVerbose := g.has "v"
      linksFiles := g.has "l", linksByPath := g.has "s", backup? := backupOf g }
  if g.has "parents" then
    let (directory, sources) ←
      match g.value? "t" with
      | some d => pure (d, g.operands)
      | none => do
        if g.operands.length < 2 then
          match g.operands with
          | [] => misuse 1 "missing file operand"
          | one :: _ => misuse 1 s!"missing destination file operand after {Quoting.always one}"
        pure (g.operands.getLastD "", g.operands.dropLast)
    if !(← ask fun fs here => (fs.find? here directory).any fs.isDirectory) then
      misuse 1 "with --parents, the destination must be a directory"
    let well ← forEach sources fun source => do
      match ← withParents directory source with
      | some target => copyTree c true [] 1000 source target
      | none => return false
    return code well
  let pairs ← destinations g false
  let well ← eachPair pairs fun source target => do
    if g.has "remove" then
      let _ ← change fun fs here => fs.unlink here target
    copyTree c true [] 1000 (if g.has "strip" then withoutSlashes source else source) target
  return code well

/-! ## Moving -/

/-- Moves what is under a path; whether that went well. -/
def moveOne (c : Copying) (source target : String) : Work Bool := do
  match ← ask fun fs here => fs.findLink here source with
  | .error f => do
    complain s!"cannot stat {Quoting.always source}: {f.text}"
    return false
  | .ok i => do
    let fs ← files
    let target? ← ask fun fs here => fs.findLink? here (if fs.isDirectory i then withoutSlashes target else target)
    let isDirectory := fs.isDirectory i
    match target? with
    | some j => do
      if i = j then
        -- two names of one file: one of them goes away
        let places ← ask fun fs here => (fs.place here source false, fs.place here target false)
        match places with
        | (.ok p, .ok q) =>
          if p.directory = q.directory && p.name = q.name then
            complain s!"{Quoting.always source} and {Quoting.always target} are the same file"
            return false
          let _ ← change fun fs here => fs.unlink here source
          return true
        | _ => return false
      if fs.isDirectory j && !isDirectory then
        complain s!"cannot overwrite directory {Quoting.always target} with non-directory"
        return false
      if isDirectory && !fs.isDirectory j then
        complain s!"cannot overwrite non-directory {Quoting.always target} with directory {Quoting.always source}"
        return false
      if !(← mayReplace c i j target) then return true
      putBackup c target
    | none => pure ()
    match ← change fun fs here => fs.rename here source target with
    | none => do
      if c.isVerbose then printLine s!"renamed {Quoting.always source} -> {Quoting.always target}"
      return true
    | some .invalid => do
      complain s!"cannot move {Quoting.always source} to a subdirectory of itself, {Quoting.always target}"
      return false
    | some .notEmpty => do
      complain s!"cannot overwrite {Quoting.always target}: {Fault.notEmpty.text}"
      return false
    | some f => do
      complain s!"cannot move {Quoting.always source} to {Quoting.always target}: {f.text}"
      return false

/-- Moves files. -/
def move : Utility := fun args => do
  let g ← options
    { letters := "bfinS:t:TuvZ"
      words := [("backup", .attached, "backup"), ("debug", .nothing, "debug"), ("force", .nothing, "f"),
        ("interactive", .nothing, "i"), ("no-clobber", .nothing, "n"), ("no-copy", .nothing, "no-copy"),
        ("no-target-directory", .nothing, "T"), ("strip-trailing-slashes", .nothing, "strip"),
        ("suffix", .value, "S"), ("target-directory", .value, "t"), ("update", .attached, "u"),
        ("verbose", .nothing, "v"), ("exchange", .nothing, "exchange")] } args
  let c : Copying :=
    { asks := g.last? ["i", "n", "f"] == some "i", neverReplaces := g.last? ["i", "n", "f"] == some "n"
      onlyNewer := g.has "u" && ["", "older"].contains ((g.value? "u").getD "")
      isVerbose := g.has "v", backup? := backupOf g }
  let pairs ← destinations g false
  let well ← eachPair pairs fun source target =>
    moveOne c (if g.has "strip" then withoutSlashes source else source) target
  return code well

/-! ## Installing -/

/-- Copies files with permissions, or makes directories. -/
def install : Utility := fun args => do
  let g ← options
    { letters := "bcCdDg:m:o:psS:t:TvZ"
      words := [("backup", .attached, "backup"), ("compare", .nothing, "C"), ("directory", .nothing, "d"),
        ("group", .value, "g"), ("mode", .value, "m"), ("owner", .value, "o"),
        ("preserve-timestamps", .nothing, "p"), ("strip", .nothing, "s"), ("suffix", .value, "S"),
        ("target-directory", .value, "t"), ("no-target-directory", .nothing, "T"), ("verbose", .nothing, "v")] } args
  let mode ←
    match g.value? "m" with
    | none => pure 0o755
    | some text =>
      match Mode.read? text with
      | some spec => pure (spec.apply 0 false 0)
      | none => fail 1 s!"invalid mode {Quoting.always text}"
  if g.has "d" then
    if g.operands.isEmpty then misuse 1 "missing file operand"
    let well ← forEach g.operands fun path => do
      match ← makeParents 0o755 path (path.length + 1) with
      | none => do
        match ← ask fun fs here => fs.find? here path with
        | some i => setFiles ((← files).setMode i mode)
        | none => pure ()
        return true
      | some f => refuse "cannot create directory" path f
    return code well
  if g.has "D" then
    let parents :=
      match g.value? "t", g.operands with
      | some d, _ => [d]
      | none, [_, target] => [parentOf target]
      | none, _ => []
    for parent in parents do
      let _ ← makeParents 0o755 parent (parent.length + 1)
  let pairs ← destinations g false
  let c : Copying := { mode? := some mode, isVerbose := g.has "v", backup? := backupOf g }
  let well ← eachPair pairs fun source target => do
    match ← ask fun fs here => fs.find here source with
    | .error f => do
      complain s!"cannot stat {Quoting.always source}: {f.text}"
      return false
    | .ok i => do
      if ← ask fun fs _ => fs.isDirectory i then
        complain s!"omitting directory {Quoting.always source}"
        return false
      if (← ask fun fs here => fs.find? here target) != some i then
        let isThere ← ask fun fs here => (fs.find? here target).any fun j => !fs.isDirectory j
        if isThere && c.backup?.isNone then
          let _ ← change fun fs here => fs.unlink here target
      copyFile c source target i false
  return code well

end Unnest.Host.Utility
