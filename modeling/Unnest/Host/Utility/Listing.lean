import Unnest.Host.Escape
import Unnest.Host.Utility.Sort
import Unnest.Host.Utility.Entries

/-!
# Listing files

Directories are listed by the names in them, in the order of their octets or of what
else is asked for; names that start with a dot are left out.  Times are counted from the
start of the host, so a long list shows all of them alike.
-/

namespace Unnest.Host.Utility

open Work

/-- How files are listed. -/
structure ListStyle where
  showsHidden : Bool := false
  /-- Whether the directory and the one above it are shown as well. -/
  showsDots : Bool := false
  isLong : Bool := false
  isRecursive : Bool := false
  /-- Whether directories are listed by themselves. -/
  isFlat : Bool := false
  marksDirectories : Bool := false
  marksKinds : Bool := false
  showsNumbers : Bool := false
  showsSizes : Bool := false
  isReadable : Bool := false
  isReverse : Bool := false
  followsLinks : Bool := false
  order : Char := 'n'
  separator : String := "\n"
  quotes : Char := 'N'
  hidesOwner : Bool := false
  hidesGroup : Bool := false
  usesNumbers : Bool := false
  putsDirectoriesFirst : Bool := false

/-- A file in a list. -/
structure Listed where
  name : String
  number : Nat
  node : Node

/-- A size with a unit, rounded up. -/
def readableSize (n : Nat) : String :=
  if n < 1024 then toString n
  else
    let units := ["K", "M", "G", "T", "P"]
    let (tenths, unit) := units.foldl (fun ((t, u) : Nat × String) unit =>
      if u = "" then ((n * 10 + 1023) / 1024, unit)
      else if t < 10240 then (t, u)
      else
        let scale := Nat.pow 1024 (units.idxOf unit + 1)
        ((n * 10 + scale - 1) / scale, unit)) (0, "")
    if tenths < 100 then toString (tenths / 10) ++ "." ++ toString (tenths % 10) ++ unit
    else toString ((tenths + 9) / 10) ++ unit

/-- How many blocks of a thousand octets a file takes. -/
def blocks (n : Node) : Nat :=
  match n.form with
  | .file _ | .program _ | .directory .. => (n.size + 4095) / 4096 * 4
  | _ => 0

/-- The letter of a kind of file. -/
def kindLetter (n : Node) : Char :=
  match n.form with
  | .directory .. => 'd'
  | .link _ => 'l'
  | .device _ => 'c'
  | .queue _ => 'p'
  | _ => '-'

/-- A name as a list shows it. -/
def shownName (s : ListStyle) (f : Listed) : String :=
  let name :=
    match s.quotes with
    | 'Q' => "\"" ++ String.join (f.name.toList.map fun c =>
        if c = '"' || c = '\\' then "\\" ++ c.toString else if Octets.isPrintable c then c.toString else Quoting.escaped c) ++ "\""
    | 'b' => String.join (f.name.toList.map fun c =>
        if c = '\\' then "\\\\" else if c = ' ' then "\\ " else if Octets.isPrintable c then c.toString else Quoting.escaped c)
    | 'q' => f.name.map fun c => if Octets.isPrintable c then c else '?'
    | _ => f.name
  let mark :=
    if f.node.isDirectory && (s.marksDirectories || s.marksKinds) then "/"
    else if s.marksKinds then
      match f.node.form with
      | .link _ => if s.isLong then "" else "@"
      | .queue _ => "|"
      | .file _ | .program _ => if f.node.isExecutable then "*" else ""
      | _ => ""
    else ""
  name ++ mark

/-- Files in the order of a style. -/
def listOrder (s : ListStyle) (files : List Listed) : List Listed :=
  let byName (a b : Listed) : Bool := decide (a.name ≤ b.name)
  let ending (name : String) : String :=
    let tail := (name.toList.reverse.takeWhile (· != '.')).reverse
    if tail.length = name.length then "" else String.ofList tail
  let le : Listed → Listed → Bool :=
    match s.order with
    | 'S' => fun a b => if a.node.size = b.node.size then byName a b else decide (b.node.size < a.node.size)
    | 't' => fun a b =>
      if a.node.changed = b.node.changed then byName a b else decide (b.node.changed < a.node.changed)
    | 'X' => fun a b => if ending a.name = ending b.name then byName a b else decide (ending a.name ≤ ending b.name)
    | 'v' => fun a b =>
      (Sorting.compareVersions (a.name.length + b.name.length + 1) a.name.toList b.name.toList).then
        (Sorting.compareTexts a.name.toList b.name.toList) != .gt
    | _ => byName
  let sorted := if s.order = 'U' then files else files.mergeSort le
  let sorted := if s.isReverse && s.order != 'U' then sorted.reverse else sorted
  if s.putsDirectoriesFirst then
    sorted.filter (·.node.isDirectory) ++ sorted.filter (!·.node.isDirectory)
  else sorted

/-- The lines that show files. -/
def listLines (s : ListStyle) (fs : Files) (files : List Listed) : List String :=
  let widest (f : Listed → String) : Nat := (files.map fun x => (f x).length).foldl max 0
  let size (x : Listed) : String := if s.isReadable then readableSize x.node.size else toString x.node.size
  let links (x : Listed) : String := toString (fs.nameCount x.number)
  let inode (x : Listed) : String := toString (x.number + 2)
  let taken (x : Listed) : String :=
    if s.isReadable then readableSize (blocks x.node * 1024) else toString (blocks x.node)
  let inodes := widest inode
  let sizes := widest size
  let counts := widest links
  let blockWidth := widest taken
  let owner := if s.usesNumbers then "0" else "root"
  files.map fun x =>
    let lead := (if s.showsNumbers then Octets.padLeft ' ' inodes (inode x) ++ " " else "") ++
      (if s.showsSizes then Octets.padLeft ' ' blockWidth (taken x) ++ " " else "")
    let name := shownName s x
    if !s.isLong then lead ++ name
    else
      let arrow :=
        match x.node.form with
        | .link target => " -> " ++ target
        | _ => ""
      lead ++ (kindLetter x.node).toString ++ Mode.letters x.node.mode ++ " " ++
        Octets.padLeft ' ' counts (links x) ++ " " ++ (if s.hidesOwner then "" else owner ++ " ") ++
        (if s.hidesGroup then "" else owner ++ " ") ++ Octets.padLeft ' ' sizes (size x) ++
        " Jan  1 00:00 " ++ name ++ arrow

/-- Prints files in a style. -/
def printListed (s : ListStyle) (files : List Listed) : Work Unit := do
  let fs ← Work.files
  let lines := listLines s fs (listOrder s files)
  if !lines.isEmpty then
    if s.separator = "\n" then print (Octets.ofLines lines)
    else print (s.separator.intercalate lines ++ "\n")

/-- Prints what is in a directory, and in the ones in it if that is asked for. -/
def printDirectoryList (s : ListStyle) (isNamed : Bool) : (depth : Nat) → (path : String) → Nat → Work Unit
  | 0, _, _ => return
  | depth + 1, path, i => do
    let fs ← Work.files
    if isNamed then print (path ++ ":\n")
    let here := (fs.entries i).filter fun e => s.showsHidden || s.showsDots || e.1.toList.head? != some '.'
    let dots := if s.showsDots then [(".", i), ("..", fs.above i)] else []
    let listed : List Listed := (dots ++ here).map fun (name, j) =>
      let j' := if s.followsLinks then ((fs.find? i name).getD j) else j
      { name, number := j', node := fs.get j' }
    if s.isLong || s.showsSizes then
      let total := listed.foldl (fun n x => n + blocks x.node) 0
      print ("total " ++ (if s.isReadable then readableSize (total * 1024) else toString total) ++ "\n")
    printListed s listed
    if s.isRecursive then
      for x in listOrder s (listed.filter fun x => x.node.isDirectory && x.name != "." && x.name != "..") do
        print "\n"
        printDirectoryList s true depth (inside path x.name) x.number

/-- Lists files and directories. -/
def list : Utility := fun args => do
  let g ← options
    { letters := "abcdfghiklmnopqrstuvw:xABCDFGHI:LNQRST:UXZ1", failure := 2
      words := [("all", .nothing, "a"), ("almost-all", .nothing, "A"), ("author", .nothing, "author"),
        ("escape", .nothing, "b"), ("block-size", .value, "block"), ("ignore-backups", .nothing, "B"),
        ("color", .attached, "color"), ("directory", .nothing, "d"), ("dired", .nothing, "D"),
        ("classify", .attached, "F"), ("file-type", .nothing, "p"), ("format", .value, "format"),
        ("full-time", .nothing, "l"), ("group-directories-first", .nothing, "first"), ("no-group", .nothing, "G"),
        ("human-readable", .nothing, "h"), ("si", .nothing, "h"), ("dereference", .nothing, "L"),
        ("dereference-command-line", .nothing, "H"), ("hide", .value, "hide"), ("indicator-style", .value, "style"),
        ("inode", .nothing, "i"), ("ignore", .value, "I"), ("kibibytes", .nothing, "k"),
        ("numeric-uid-gid", .nothing, "n"), ("literal", .nothing, "N"), ("hide-control-chars", .nothing, "q"),
        ("show-control-chars", .nothing, "N"), ("quote-name", .nothing, "Q"), ("quoting-style", .value, "quoting"),
        ("reverse", .nothing, "r"), ("recursive", .nothing, "R"), ("size", .nothing, "s"), ("sort", .value, "sort"),
        ("time", .value, "time"), ("time-style", .value, "time-style"), ("tabsize", .value, "T"),
        ("width", .value, "w"), ("zero", .nothing, "zero")] } args
  let has (os : List String) : Bool := os.any g.has
  let order : Char :=
    match g.value? "sort" with
    | some "size" => 'S'
    | some "time" => 't'
    | some "none" => 'U'
    | some "extension" => 'X'
    | some "version" => 'v'
    | _ =>
      match g.last? ["S", "t", "U", "X", "v", "f"] with
      | some "f" => 'U'
      | some o => o.toList.headD 'n'
      | none => 'n'
  let s : ListStyle :=
    { showsHidden := g.has "A", showsDots := has ["a", "f"], isLong := has ["l", "g", "o", "n"]
      isRecursive := g.has "R", isFlat := g.has "d", marksDirectories := g.has "p", marksKinds := g.has "F"
      showsNumbers := g.has "i", showsSizes := g.has "s", isReadable := g.has "h", isReverse := g.has "r"
      followsLinks := g.has "L", order
      separator := if g.has "m" then ", " else if g.has "x" || g.has "C" then "  " else "\n"
      quotes := if g.has "Q" then 'Q' else if g.has "b" then 'b' else if g.has "q" then 'q' else 'N'
      hidesOwner := g.has "g", hidesGroup := has ["o", "G"], usesNumbers := g.has "n"
      putsDirectoriesFirst := g.has "first" }
  let follows := s.followsLinks || g.has "H" || !(s.isLong || s.isFlat || s.marksKinds)
  let mut flat : List Listed := []
  let mut folders : List Listed := []
  let mut status := 0
  for path in (if g.operands.isEmpty then ["."] else g.operands) do
    let found : Except Fault Nat ← ask fun fs here =>
      match if follows then fs.find here path else fs.findLink here path with
      | .ok i => .ok i
      -- a link that leads nowhere is shown itself
      | .error f => if s.followsLinks then .error f else (fs.findLink here path).mapError fun _ => f
    match found with
    | .ok i =>
      let node := (← Work.files).get i
      let x : Listed := { name := path, number := i, node }
      if node.isDirectory && !s.isFlat then folders := folders ++ [x] else flat := flat ++ [x]
    | .error f =>
      complain s!"cannot access {Quoting.always path}: {f.text}"
      status := 2
  printListed s flat
  let isNamed := s.isRecursive || decide (g.operands.length > 1)
  let mut isFirst := flat.isEmpty
  for x in listOrder { s with putsDirectoriesFirst := false } folders do
    if !isFirst then print "\n"
    isFirst := false
    printDirectoryList s isNamed 100 x.name x.number
  return status

/-! ## One file -/

/-- The name of a kind of file. -/
def kindName (n : Node) : String :=
  match n.form with
  | .directory .. => "directory"
  | .link _ => "symbolic link"
  | .device _ => "character special file"
  | .queue _ => "fifo"
  | _ => if n.size = 0 then "regular empty file" else "regular file"

/-- The number of a kind of file above its permissions. -/
def kindNumber (n : Node) : Nat :=
  match n.form with
  | .directory .. => 0o040000
  | .link _ => 0o120000
  | .device _ => 0o020000
  | .queue _ => 0o010000
  | _ => 0o100000

/-- Fills what is known of a file into a format. -/
def fillFacts (fs : Files) (path : String) (i : Nat) : List Char → String
  | '%' :: c :: cs =>
    let n := fs.get i
    let value :=
      match c with
      | 'n' => path
      | 'N' =>
        match n.form with
        | .link target => Quoting.always path ++ " -> " ++ Quoting.always target
        | _ => Quoting.always path
      | 's' => toString n.size
      | 'F' => kindName n
      | 'a' => Numeral.digits 8 n.mode
      | 'A' => (kindLetter n).toString ++ Mode.letters n.mode
      | 'f' => Numeral.digits 16 (n.mode ||| kindNumber n)
      | 'h' => toString (fs.nameCount i)
      | 'i' => toString (i + 2)
      | 'u' | 'g' => "0"
      | 'U' | 'G' => "root"
      | 'b' => toString (blocks n * 2)
      | 'B' => "512"
      | 'o' => "4096"
      | 'd' => "1"
      | 'X' | 'Y' | 'Z' => toString n.changed
      | 'W' => "0"
      | 't' | 'T' => "0"
      | '%' => "%"
      | c => "?" ++ c.toString
    value ++ fillFacts fs path i cs
  | c :: cs => c.toString ++ fillFacts fs path i cs
  | [] => ""

/-- Prints what is known of files. -/
def stat : Utility := fun args => do
  let g ← options
    { letters := "c:fLt"
      words := [("format", .value, "c"), ("printf", .value, "printf"), ("dereference", .nothing, "L"),
        ("file-system", .nothing, "f"), ("terse", .nothing, "t")] } args
  if g.operands.isEmpty then missingOperand []
  let well ← forEach g.operands fun path => do
    match ← ask fun fs here => if g.has "L" then fs.find here path else fs.findLink here path with
    | .error f => do
      complain s!"cannot statx {Quoting.always path}: {f.text}"
      return false
    | .ok i => do
      let fs ← Work.files
      let text :=
        match g.value? "c", g.value? "printf" with
        | some form, _ => fillFacts fs path i form.toList ++ "\n"
        | none, some form =>
          fillFacts fs path i (({ hidden := ['\\', '"'] } : EscapeRules).read form).1.toList
        | none, none =>
          fillFacts fs path i "  File: %n\n  Size: %s\tBlocks: %b\tIO Block: %o\t%F\n".toList
      print text
      return true
  return code well

/-- Prints how much room files and directories take. -/
def usage : Utility := fun args => do
  let g ← options
    { letters := "0abcd:hHklLmPsSt:xX:"
      words := [("all", .nothing, "a"), ("apparent-size", .nothing, "apparent"), ("bytes", .nothing, "b"),
        ("total", .nothing, "c"), ("human-readable", .nothing, "h"), ("max-depth", .value, "d"),
        ("summarize", .nothing, "s"), ("block-size", .value, "B")] } args
  let isApparent := g.has "b" || g.has "apparent"
  let deepest := if g.has "s" then 0 else ((g.value? "d").bind Numeral.decimal?).getD 1000
  let mut well := true
  let mut total := 0
  let form (n : Nat) : String :=
    if g.has "h" then readableSize n else if g.has "b" then toString n else toString ((n + 1023) / 1024)
  for path in (if g.operands.isEmpty then ["."] else g.operands) do
    match ← ask fun fs here => fs.findLink here path with
    | .error f =>
      complain s!"cannot access {Quoting.always path}: {f.text}"
      well := false
    | .ok i =>
      let fs ← Work.files
      let size (n : Node) : Nat := if isApparent then n.size else blocks n * 1024
      let rows := fs.tree 1000 path i
      let start := (Files.names path).length
      -- a directory comes after what is in it
      for (p, j) in rows.reverse do
        let isFolder := fs.isDirectory j
        let depth := (Files.names p).length - start
        if (isFolder || g.has "a" || p = path) && depth ≤ deepest then
          let sum := (fs.tree 1000 p j).foldl (fun n (_, k) => n + size (fs.get k)) 0
          print (form sum ++ "\t" ++ p ++ "\n")
      total := rows.foldl (fun n (_, k) => n + size (fs.get k)) total
  if g.has "c" then print (form total ++ "\ttotal\n")
  return code well

end Unnest.Host.Utility
