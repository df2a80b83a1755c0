import Unnest.Host.Mode
import Unnest.Host.Utility.Names

/-!
# Making and taking away

Programs that make directories, links and empty files, take files and directories away,
and change who may use them.  What is under each operand is changed in turn, and an
operand for which that fails is left alone.
-/

namespace Unnest.Host.Utility

open Work

/-- Complains about a file, and says that all is not well. -/
def refuse (what name : String) (f : Fault) : Work Bool := do
  complain s!"{what} {Quoting.always name}: {f.text}"
  return false

/-- Asks a question and reads the answer. -/
def confirm (question : String) : Work Bool := do
  let name := (← get).name
  let _ ← tryWrite 2 s!"{name}: {question} "
  match ← drain 0 with
  | .ok text => return text.toList.head?.any fun c => c = 'y' || c = 'Y'
  | .error _ => return false

/-! ## Directories -/

/-- Makes a directory and the ones that it is in. -/
def makeParents (mode : Nat) (path : String) : (steps : Nat) → Work (Option Fault)
  | 0 => return some .loop
  | steps + 1 => do
    match ← ask fun fs here => (fs.find here path).map fs.isDirectory with
    | .ok true => return none
    | .ok false => return some .present
    | .error .missing => do
      let parent := parentOf path
      if parent != "." && parent != "/" && parent != path then
        match ← makeParents 0o777 parent steps with
        | some .present => return some .notDirectory
        | some f => return some f
        | none => pure ()
      let mode ← newMode mode
      change fun fs here => fs.makeDirectory here path mode
    | .error f => return some f

/-- Makes directories. -/
def makeDirectories : Utility := fun args => do
  let g ← options
    { letters := "m:pvZ"
      words := [("mode", .value, "m"), ("parents", .nothing, "p"), ("verbose", .nothing, "v"),
        ("context", .attached, "Z")] } args
  if g.operands.isEmpty then missingOperand []
  let exactMode? ←
    match g.value? "m" with
    | none => pure none
    | some text =>
      match Mode.read? text with
      | some spec => do
        let mask := (← process).mask
        pure (some (spec.apply mask true 0o777))
      | none => fail 1 s!"invalid mode {Quoting.always text}"
  let well ← forEach g.operands fun path => do
    let isThere ← ask fun fs here => (fs.find? here path).any fs.isDirectory
    if g.has "p" && isThere then return true
    let result ←
      if g.has "p" then makeParents 0o777 path (path.length + 1)
      else do
        let mode ← newMode 0o777
        change fun fs here => fs.makeDirectory here path mode
    match result with
    | some f => refuse "cannot create directory" path f
    | none => do
      match exactMode?, ← ask fun fs here => fs.find? here path with
      | some mode, some i => setFiles ((← files).setMode i mode)
      | _, _ => pure ()
      if g.has "v" then
        let name := (← get).name
        printLine s!"{name}: created directory {Quoting.always path}"
      return true
  return code well

/-- The directories that a path goes through, from the last on. -/
def ancestors (path : String) : (steps : Nat) → List String
  | 0 => []
  | steps + 1 =>
    let parent := parentOf path
    if parent = "." || parent = "/" || parent = path then [] else parent :: ancestors parent steps

/-- Takes empty directories away. -/
def removeDirectories : Utility := fun args => do
  let g ← options
    { letters := "pv"
      words := [("parents", .nothing, "p"), ("verbose", .nothing, "v"),
        ("ignore-fail-on-non-empty", .nothing, "ignore")] } args
  if g.operands.isEmpty then missingOperand []
  let well ← forEach g.operands fun path => do
    let paths := path :: if g.has "p" then ancestors path path.length else []
    let mut well := true
    for path in paths do
      if well then
        if g.has "v" then
          let name := (← get).name
          printLine s!"{name}: removing directory, {Quoting.always path}"
        match ← change fun fs here => fs.removeDirectory here path with
        | none => pure ()
        | some f =>
          well := false
          if f != .notEmpty || !g.has "ignore" then
            let what := if paths.head? == some path then "failed to remove" else "failed to remove directory"
            let _ ← refuse what path f
    return well || g.has "ignore"
  return code well

/-! ## Taking away -/

/-- How files are taken away. -/
structure Removal where
  isForced : Bool := false
  asks : Bool := false
  isRecursive : Bool := false
  takesEmpty : Bool := false
  isVerbose : Bool := false

/-- Takes away what is under a path, with everything in it; whether all went well. -/
def removeTree (r : Removal) : (depth : Nat) → String → Work Bool
  | 0, _ => return false
  | depth + 1, path => do
    match ← ask fun fs here => (fs.findLink here path).map fun i => (fs.isDirectory i, fs.entries i, fs.get i) with
    | .error f =>
      if r.isForced && (f == .missing || f == .notDirectory) then return true
      else refuse "cannot remove" path f
    | .ok (true, entries, _) => do
      if !r.isRecursive && !(r.takesEmpty && entries.isEmpty) then
        return ← refuse "cannot remove" path (if r.takesEmpty then .notEmpty else .isDirectory)
      if r.asks && !entries.isEmpty then
        if !(← confirm s!"descend into directory {Quoting.always path}?") then return true
      let well ← forEach entries fun (name, _) => removeTree r depth (inside path name)
      if !well then return false
      if r.asks && !(← confirm s!"remove directory {Quoting.always path}?") then return true
      match ← change fun fs here => fs.removeDirectory here path with
      | none => do
        if r.isVerbose then printLine s!"removed directory {Quoting.always path}"
        return true
      | some f => refuse "cannot remove" path f
    | .ok (false, _, node) => do
      let kind := if node.isLink then "symbolic link" else if node.size = 0 then "regular empty file" else "regular file"
      if r.asks && !(← confirm s!"remove {kind} {Quoting.always path}?") then return true
      match ← change fun fs here => fs.unlink here path with
      | none => do
        if r.isVerbose then printLine s!"removed {Quoting.always path}"
        return true
      | some f => refuse "cannot remove" path f

/-- Takes files away. -/
def remove : Utility := fun args => do
  let g ← options
    { letters := "dfiIrRv"
      words := [("dir", .nothing, "d"), ("force", .nothing, "f"), ("interactive", .attached, "interactive"),
        ("recursive", .nothing, "r"), ("verbose", .nothing, "v"), ("preserve-root", .attached, "preserve"),
        ("no-preserve-root", .nothing, "no-preserve"), ("one-file-system", .nothing, "one")] } args
  if g.operands.isEmpty then
    if g.has "f" then return 0
    missingOperand []
  let r : Removal :=
    { isForced := g.has "f", asks := g.last? ["f", "i"] == some "i"
      isRecursive := g.has "r" || g.has "R", takesEmpty := g.has "d", isVerbose := g.has "v" }
  if g.has "I" && (r.isRecursive || g.operands.length > 3) then
    let count := g.operands.length
    let noun := if count = 1 then "argument" else "arguments"
    let how := if r.isRecursive then " recursively" else ""
    if !(← confirm s!"remove {count} {noun}{how}?") then return 0
  let well ← forEach g.operands fun path => do
    let last := lastName path
    if r.isRecursive && (last = "." || last = "..") then
      complain s!"refusing to remove '.' or '..' directory: skipping {Quoting.always path}"
      return false
    if r.isRecursive && !g.has "no-preserve" &&
        (← ask fun fs here => fs.findLink? here path) == some Files.root then
      complain "it is dangerous to operate recursively on '/'"
      complain "use --no-preserve-root to override this failsafe"
      return false
    removeTree r 1000 path
  return code well

/-- Takes one file away. -/
def unlinkOne : Utility := fun args => do
  let g ← options {} args
  match g.operands with
  | [path] =>
    match ← change fun fs here => fs.unlink here path with
    | none => return 0
    | some f => fail 1 s!"cannot unlink {Quoting.always path}: {f.text}"
  | [] => missingOperand []
  | _ :: extra :: _ => extraOperand extra

/-! ## Links -/

/-- Gives a file a further name. -/
def linkOne : Utility := fun args => do
  let g ← options {} args
  match g.operands with
  | [path, new] =>
    match ← change fun fs here => do fs.addName here (← fs.findLink here path) new with
    | none => return 0
    | some f => fail 1 s!"cannot create link {Quoting.always new} to {Quoting.always path}: {f.text}"
  | _ :: _ :: extra :: _ => extraOperand extra
  | operands => missingOperand operands

/-- Where the operands of a program go that puts files somewhere: each with its
destination. -/
def destinations (g : Given) (intoOne : Bool) : Work (List (String × String)) := do
  let asDirectory (path : String) : Work Bool := ask fun fs here => (fs.find? here path).any fs.isDirectory
  let into (directory : String) (sources : List String) : List (String × String) :=
    sources.map fun s => (s, inside directory (lastName s))
  match g.value? "t" with
  | some directory => do
    if g.operands.isEmpty then misuse 1 "missing file operand"
    if g.has "T" then fail 1 "cannot combine --target-directory (-t) and --no-target-directory (-T)"
    match ← ask fun fs here => fs.findDirectory here directory with
    | .ok _ => return into directory g.operands
    | .error f => fail 1 s!"target directory {Quoting.always directory}: {f.text}"
  | none =>
    match g.operands with
    | [] => misuse 1 "missing file operand"
    | [one] =>
      if intoOne then return [(one, inside "." (lastName one))]
      else misuse 1 s!"missing destination file operand after {Quoting.always one}"
    | operands => do
      let target := operands.getLastD ""
      let sources := operands.dropLast
      if g.has "T" then
        match sources with
        | [source] => return [(source, target)]
        | _ :: extra :: _ =>
          let extra := if sources.length > 1 then (operands[2]?).getD extra else extra
          misuse 1 s!"extra operand {Quoting.always extra}"
        | [] => return []
      else if ← asDirectory target then return into target sources
      else
        match sources with
        | [source] => return [(source, target)]
        | _ =>
          match ← ask fun fs here => fs.findDirectory here target with
          | .error f => fail 1 s!"target {Quoting.always target}: {f.text}"
          | .ok _ => return into target sources

/-- Makes links. -/
def link : Utility := fun args => do
  let g ← options
    { letters := "bdfFinLPrsS:t:Tv"
      words := [("backup", .attached, "backup"), ("directory", .nothing, "d"), ("force", .nothing, "f"),
        ("interactive", .nothing, "i"), ("logical", .nothing, "L"), ("no-dereference", .nothing, "n"),
        ("physical", .nothing, "P"), ("relative", .nothing, "r"), ("symbolic", .nothing, "s"),
        ("suffix", .value, "S"), ("target-directory", .value, "t"), ("no-target-directory", .nothing, "T"),
        ("verbose", .nothing, "v")] } args
  -- a link to a directory can itself be the destination
  let targetIsLink ← ask fun fs here =>
    match g.operands with
    | [_, target] => (fs.findLink? here target).any fun i => (fs.get i).isLink
    | _ => false
  let pairs ←
    if g.has "n" && targetIsLink then
      match g.operands with
      | [source, target] => pure [(source, target)]
      | _ => destinations g true
    else destinations g true
  let isSymbolic := g.has "s"
  let well ← forEach pairs fun (source, target) => do
    let what := if isSymbolic then "symbolic link" else "hard link"
    let source? ← ask fun fs here => if g.has "L" then fs.find here source else fs.findLink here source
    match isSymbolic, source? with
    | false, .error f => refuse "failed to access" source f
    | _, _ =>
      if !isSymbolic && (← ask fun fs _ => source?.toOption.any fs.isDirectory) then
        complain s!"{Quoting.ifNeeded source}: hard link not allowed for directory"
        return false
      let there? ← ask fun fs here => fs.findLink? here target
      match there? with
      | some i =>
        if ← ask fun fs _ => fs.isDirectory i then
          if g.has "f" then
            complain s!"{Quoting.ifNeeded target}: cannot overwrite directory"
            return false
        else if g.has "f" then
          if source?.toOption == some i then
            complain s!"{Quoting.always source} and {Quoting.always target} are the same file"
            return false
          let _ ← change fun fs here => fs.unlink here target
      | none => pure ()
      let text ←
        if g.has "r" then do
          match ← canonical .nothing source, ← canonical .nothing (parentOf target) with
          | .ok s, .ok t => pure (relativePath t s)
          | _, _ => pure source
        else pure source
      let result ←
        if isSymbolic then
          if text = "" then pure (some Fault.missing)
          else change fun fs here => return (← fs.create here target (.link text) 0o777).2
        else
          match source? with
          | .ok i => change fun fs here => fs.addName here i target
          | .error f => pure (some f)
      match result with
      | none => do
        if g.has "v" then
          let arrow := if isSymbolic then "->" else "=>"
          printLine s!"{Quoting.always target} {arrow} {Quoting.always text}"
        return true
      | some f =>
        if isSymbolic || f == .present || f == .missing then refuse s!"failed to create {what}" target f
        else do
          complain s!"failed to create {what} {Quoting.always target} => {Quoting.always source}: {f.text}"
          return false
  return code well

/-! ## Empty files and permissions -/

/-- Makes files that are not there, and changes the times of the others. -/
def touch : Utility := fun args => do
  let g ← options
    { letters := "acd:fhmr:t:"
      words := [("no-create", .nothing, "c"), ("date", .value, "d"), ("no-dereference", .nothing, "h"),
        ("reference", .value, "r"), ("time", .value, "time")] } args
  if g.operands.isEmpty then misuse 1 "missing file operand"
  let changed? ←
    match g.value? "r" with
    | none => pure (if g.has "d" || g.has "t" then some 0 else none)
    | some path =>
      match ← ask fun fs here => (fs.find here path).map fun i => (fs.get i).changed with
      | .ok n => pure (some n)
      | .error f => fail 1 s!"failed to get attributes of {Quoting.always path}: {f.text}"
  let well ← forEach g.operands fun path => do
    let path' := if path = "-" then "/dev/stdout" else path
    match ← ask fun fs here => fs.place here path' true with
    | .error f =>
      if g.has "c" && f == .missing then return true else refuse "cannot touch" path f
    | .ok place =>
      match place.node? with
      | some i => do
        let fs ← files
        setFiles (({ fs with changes := fs.changes + 1 } : Files).setChanged i (changed?.getD (fs.changes + 1)))
        return true
      | none => do
        if g.has "c" then return true
        if place.isOpenEnded then return ← refuse "setting times of" path .missing
        let mode ← newMode 0o666
        match ← change fun fs here => return (← fs.create here path' (.file "") mode).2 with
        | none => do
          match changed?, ← ask fun fs here => fs.find? here path' with
          | some n, some i => setFiles ((← files).setChanged i n)
          | _, _ => pure ()
          return true
        | some f => refuse "cannot touch" path f
  return code well

/-- Whether an argument that starts with a dash changes permissions. -/
def isModeArgument (arg : String) : Bool :=
  match arg.toList with
  | '-' :: c :: _ => "rwxXstugoa,+=".toList.contains c || ('0' ≤ c && c ≤ '7')
  | _ => false

/-- Changes permissions. -/
def changeMode : Utility := fun args => do
  -- changes that look like options are put in front of the operands
  let early := args.takeWhile (· != "--")
  let (modes, others) := (early.filter isModeArgument, args.filter fun a => !(isModeArgument a && early.contains a))
  let g ← options
    { letters := "cfvR"
      words := [("changes", .nothing, "c"), ("silent", .nothing, "f"), ("quiet", .nothing, "f"),
        ("verbose", .nothing, "v"), ("recursive", .nothing, "R"), ("reference", .value, "reference"),
        ("preserve-root", .nothing, "preserve"), ("no-preserve-root", .nothing, "no-preserve")] } others
  let (text, operands) ←
    match modes, g.value? "reference" with
    | _ :: _, _ => pure (",".intercalate modes, g.operands)
    | [], some _ => pure ("", g.operands)
    | [], none =>
      match g.operands with
      | [] => missingOperand []
      | mode :: operands => pure (mode, operands)
  if operands.isEmpty then
    if text = "" then missingOperand [] else misuse 1 s!"missing operand after {Quoting.always text}"
  let spec ←
    match g.value? "reference" with
    | some path =>
      match ← ask fun fs here => (fs.find here path).map fun i => (fs.get i).mode with
      | .ok mode => pure (Mode.Spec.number mode)
      | .error f => fail 1 s!"failed to get attributes of {Quoting.always path}: {f.text}"
    | none =>
      match Mode.read? text with
      | some spec => pure spec
      | none => misuse 1 s!"invalid mode: {Quoting.always text}"
  let mask := (← process).mask
  let well ← forEach operands fun path => do
    match ← ask fun fs here => fs.find here path with
    | .error f => do
      if !g.has "f" then
        let _ ← refuse "cannot access" path f
      return false
    | .ok i => do
      let nodes ← ask fun fs _ =>
        if g.has "R" then ((fs.tree 1000 path i).filter fun n => !(fs.get n.2).isLink).map (·.2) else [i]
      for j in nodes do
        let fs ← files
        let n := fs.get j
        setFiles (fs.setMode j (spec.apply mask n.isDirectory n.mode))
      return true
  return code well

/-- The users and groups that a host has. -/
def userNames : List String :=
  ["root", "daemon", "bin", "sys", "sync", "games", "man", "lp", "mail", "news", "uucp", "proxy", "www-data",
    "backup", "list", "irc", "_apt", "nobody"]

/-- The groups besides those that users have. -/
def groupNames : List String :=
  ["root", "daemon", "bin", "sys", "adm", "tty", "disk", "lp", "mail", "news", "uucp", "man", "proxy", "kmem",
    "dialout", "fax", "voice", "cdrom", "floppy", "tape", "sudo", "audio", "dip", "www-data", "backup",
    "operator", "list", "irc", "src", "shadow", "utmp", "video", "sasl", "plugdev", "staff", "games", "users",
    "nogroup"]

/-- Changes who files belong to, as far as the names are known. -/
def changeOwner (onlyGroup : Bool) : Utility := fun args => do
  let g ← options
    { letters := "cfhHLPRv"
      words := [("changes", .nothing, "c"), ("silent", .nothing, "f"), ("quiet", .nothing, "f"),
        ("verbose", .nothing, "v"), ("recursive", .nothing, "R"), ("no-dereference", .nothing, "h"),
        ("dereference", .nothing, "deref"), ("from", .value, "from"), ("reference", .value, "reference")] } args
  let (owner, operands) ←
    if g.has "reference" then pure ("", g.operands)
    else
      match g.operands with
      | [] => missingOperand []
      | [one] => misuse 1 s!"missing operand after {Quoting.always one}"
      | owner :: operands => pure (owner, operands)
  let isNumber (s : String) : Bool := (Numeral.decimal? s).isSome
  let (user, group?) :=
    if onlyGroup then ("", some owner)
    else
      match Octets.cut ':' owner with
      | (user, some group) => (user, some group)
      | (user, none) => (user, none)
  if user != "" && !userNames.contains user && !isNumber user then
    fail 1 s!"invalid user: {Quoting.always owner}"
  match group? with
  | some group =>
    if group != "" && !groupNames.contains group && !isNumber group then
      fail 1 s!"invalid group: {Quoting.always owner}"
  | none => pure ()
  let well ← forEach operands fun path => do
    match ← ask fun fs here => if g.has "h" then fs.findLink here path else fs.find here path with
    | .ok _ => return true
    | .error f => do
      if !g.has "f" then
        let _ ← refuse "cannot access" path f
      return false
  return code well

/-! ## Sizes -/

/-- A text cut or filled up to a size. -/
def resized (text : String) (size : Nat) : String :=
  if size ≤ text.length then Octets.take size text
  else text ++ Octets.repeated (size - text.length) '\x00'

/-- The most that a file is filled up to. -/
def sizeLimit : Nat := Nat.pow 2 26

/-- Cuts files, or fills them up, to a size. -/
def truncate : Utility := fun args => do
  let g ← options
    { letters := "cor:s:"
      words := [("no-create", .nothing, "c"), ("io-blocks", .nothing, "o"), ("reference", .value, "r"),
        ("size", .value, "s")] } args
  if !g.has "s" && !g.has "r" then misuse 1 "you must specify either '--size' or '--reference'"
  let text := (g.value? "s").getD "+0"
  let cs := text.toList.dropWhile Octets.isSpace
  let (sign?, cs) :=
    match cs with
    | c :: rest => if "+-<>/%".toList.contains c then (some c, rest) else (none, cs)
    | [] => (none, [])
  let amount ←
    match Numeral.size? (String.ofList cs) with
    | some n => pure n
    | none => fail 1 s!"Invalid number: {Quoting.always text}"
  if amount = 0 && (sign? == some '/' || sign? == some '%') then fail 1 "division by zero"
  if g.operands.isEmpty then misuse 1 "missing file operand"
  let base? ←
    match g.value? "r" with
    | none => pure none
    | some path =>
      match ← ask fun fs here => (fs.find here path).map fun i => (fs.get i).size with
      | .ok n => pure (some n)
      | .error f => fail 1 s!"cannot stat {Quoting.always path}: {f.text}"
  let well ← forEach g.operands fun path => do
    let isThere := (← ask fun fs here => fs.find? here path).isSome
    if g.has "c" && !isThere then return true
    let t ← get
    match t.machine.openPath t.process path .readWrite with
    | .error f => do
      complain s!"cannot open {Quoting.always path} for writing: {f.text}"
      return false
    | .ok (o, m) => do
      match (m.opening o).channel with
      | .node i =>
        let old := m.files.text i
        let size := base?.getD old.length
        let size :=
          match sign? with
          | some '+' => size + amount
          | some '-' => size - amount
          | some '<' => min size amount
          | some '>' => max size amount
          | some '/' => size / amount * amount
          | some '%' => (size + amount - 1) / amount * amount
          | _ => if g.has "s" then amount else size
        let isFile := (m.files.get i).isFile
        if isFile && size ≤ sizeLimit then
          setMachine { m with files := m.files.setForm i (.file (resized old size)) }
          return true
        else do
          setMachine m
          complain s!"failed to truncate {Quoting.always path} at {size} bytes: {Fault.invalid.text}"
          return false
      | _ => return false
  return code well

/-- Makes queues. -/
def makeQueues : Utility := fun args => do
  let g ← options { letters := "m:Z", words := [("mode", .value, "m"), ("context", .attached, "Z")] } args
  if g.operands.isEmpty then missingOperand []
  let well ← forEach g.operands fun path => do
    let mode ← newMode 0o666
    match ← change fun fs here => return (← fs.create here path (.queue "") mode).2 with
    | none => return true
    | some f => do
      complain s!"cannot create fifo {Quoting.always path}: {f.text}"
      return false
  return code well

/-- Makes a file or directory with a name that nothing has, and prints its path. -/
def makeTemporary : Utility := fun args => do
  let g ← options
    { letters := "dp:qtu"
      words := [("directory", .nothing, "d"), ("dry-run", .nothing, "u"), ("quiet", .nothing, "q"),
        ("suffix", .value, "suffix"), ("tmpdir", .attached, "tmpdir")] } args
  let template ←
    match g.operands with
    | [] => pure "tmp.XXXXXXXXXX"
    | [one] => pure one
    | _ => misuse 1 "too many templates"
  let base := (← process).value? "TMPDIR"
  let place? : Option String :=
    match g.value? "p", g.value? "tmpdir" with
    | some d, _ => some (if d = "" then base.getD "/tmp" else d)
    | none, some d => some (if d = "" then base.getD "/tmp" else d)
    | none, none => if g.has "t" || g.operands.isEmpty then some (base.getD "/tmp") else none
  let suffix := (g.value? "suffix").getD ""
  let cs := template.toList
  -- the last run of the letter is exchanged
  let tail := (cs.reverse.takeWhile (· != 'X')).reverse
  let (tail, body) := if tail.length = cs.length then ([], cs) else (tail, cs.take (cs.length - tail.length))
  let marks := (body.reverse.takeWhile (· == 'X')).length
  if marks < 3 then fail 1 s!"too few X's in template {Quoting.always template}"
  let fs ← files
  let lead := String.ofList (body.take (body.length - marks))
  let filled := Octets.padLeft 'a' marks (Octets.take marks (toString (Nat.pow 10 (min marks 9 - 1) + fs.changes)))
  let name := lead ++ filled ++ String.ofList tail ++ suffix
  let path := match place? with
    | some place => inside place name
    | none => name
  if !g.has "u" then
    let result ←
      if g.has "d" then change fun fs here => fs.makeDirectory here path 0o700
      else change fun fs here => return (← fs.create here path (.file "") 0o600).2
    match result with
    | none => pure ()
    | some f =>
      let kind := if g.has "d" then "directory" else "file"
      let shown := match place? with
        | some place => inside place (template ++ suffix)
        | none => template ++ suffix
      fail 1 s!"failed to create {kind} via template {Quoting.always shown}: {f.text}"
  printLine path
  return 0

end Unnest.Host.Utility
