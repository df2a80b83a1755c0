import Unnest.Host.Fault
import Unnest.Host.Octets
import Unnest.Host.Path

/-!
# File systems

Everything on a file system is a node with a number.  A directory is a node that gives
names to others, so that one node can have several names, and what was taken away stays
as long as somebody holds its number.  A symbolic link is a node with a path in it,
which is followed from the directory that the link is in.

Paths are followed one name at a time: each name is looked up in a directory, and a
name after something else is a fault.  The steps are bounded, so links that lead to
each other end in a fault as well.
-/

namespace Unnest.Host

/-- What is in no directory but can be opened like a file. -/
inductive Device where
  /-- Takes everything and holds nothing. -/
  | null
  /-- Holds nulls without an end. -/
  | zero
  /-- Takes nothing. -/
  | full
  /-- What a descriptor of the process that asks leads to. -/
  | descriptor (number : Nat)
  deriving DecidableEq, Repr

/-- What a node is. -/
inductive Form where
  | file (text : String)
  /-- A directory with the one that it is in. -/
  | directory (above : Nat) (entries : List (String × Nat))
  | link (target : String)
  | device (d : Device)
  /-- What was written to be read once. -/
  | queue (text : String)
  /-- A program that the host came with. -/
  | program (name : String)
  deriving Repr, Inhabited

/-- A node: what it is, who may use it, and when it was last changed. -/
structure Node where
  form : Form
  mode : Nat
  changed : Nat := 0
  deriving Repr, Inhabited

namespace Node

def isDirectory (n : Node) : Bool := n.form matches .directory ..

def isLink (n : Node) : Bool := n.form matches .link _

def isFile (n : Node) : Bool := n.form matches .file _ | .program _

def isDevice (n : Node) : Bool := n.form matches .device _

def isQueue (n : Node) : Bool := n.form matches .queue _

/-- Whether somebody may run a file or look into a directory. -/
def isExecutable (n : Node) : Bool := n.isDirectory || n.mode &&& 0o111 != 0

/-- How many octets a node holds. -/
def size (n : Node) : Nat :=
  match n.form with
  | .file text => text.length
  | .directory .. => 4096
  | .link target => target.length
  | .device _ | .queue _ => 0
  | .program name => 4096 + name.length

end Node

/-- A file system: its nodes by their numbers.  The root is the first. -/
structure Files where
  nodes : Array Node := #[⟨.directory 0 [], 0o755, 0⟩]
  /-- The changes so far, by which times are told apart. -/
  changes : Nat := 0
  deriving Repr, Inhabited

/-- Where the last name of a path stands: in which directory, and what it names. -/
structure Place where
  directory : Nat
  /-- The name; a dot for what has no name of its own on the path. -/
  name : String
  node? : Option Nat
  /-- Whether the path can only mean a directory. -/
  isOpenEnded : Bool := false
  deriving Repr, Inhabited

namespace Files

/-- The number of the root. -/
def root : Nat := 0

def get (fs : Files) (i : Nat) : Node := fs.nodes[i]?.getD ⟨.file "", 0, 0⟩

/-- Changes what a node is. -/
def setForm (fs : Files) (i : Nat) (form : Form) : Files :=
  { nodes := fs.nodes.modify i fun n => { n with form, changed := fs.changes + 1 }
    changes := fs.changes + 1 }

def setMode (fs : Files) (i mode : Nat) : Files :=
  { fs with nodes := fs.nodes.modify i fun n => { n with mode } }

/-- Changes when a node was last changed. -/
def setChanged (fs : Files) (i changed : Nat) : Files :=
  { fs with nodes := fs.nodes.modify i fun n => { n with changed } }

/-- Makes a node that has no name yet. -/
def make (fs : Files) (form : Form) (mode : Nat) : Nat × Files :=
  (fs.nodes.size,
    { nodes := fs.nodes.push ⟨form, mode, fs.changes + 1⟩, changes := fs.changes + 1 })

/-- The entries of a directory, in the order in which they were made. -/
def entries (fs : Files) (i : Nat) : List (String × Nat) :=
  match (fs.get i).form with
  | .directory _ entries => entries
  | _ => []

/-- The directory that a directory is in. -/
def above (fs : Files) (i : Nat) : Nat :=
  match (fs.get i).form with
  | .directory above _ => above
  | _ => root

def isDirectory (fs : Files) (i : Nat) : Bool := (fs.get i).isDirectory

/-- Takes a name out of a directory. -/
def unname (fs : Files) (directory : Nat) (name : String) : Files :=
  fs.setForm directory (.directory (fs.above directory) ((fs.entries directory).filter (·.1 != name)))

/-- Gives a node a name in a directory, in place of what had it. -/
def name (fs : Files) (directory : Nat) (name : String) (i : Nat) : Files :=
  let entries := fs.entries directory
  let entries :=
    if entries.any (·.1 == name) then entries.map fun e => if e.1 == name then (name, i) else e
    else entries ++ [(name, i)]
  let fs := fs.setForm directory (.directory (fs.above directory) entries)
  match (fs.get i).form with
  | .directory _ inside => fs.setForm i (.directory directory inside)
  | _ => fs

/-! ## Following paths -/

/-- The longest name of a file or directory. -/
def nameLimit : Nat := 255

/-- The longest path that can be used. -/
def pathLimit : Nat := 4095

/-- How many links a path may lead through. -/
def linkLimit : Nat := 40

/-- The names on a path with its dots. -/
def names (path : String) : List String :=
  ((Path.pieces path.toList).filter (· != [])).map String.ofList

/-- Whether a path ends in a slash. -/
def isOpenEnded (path : String) : Bool := path.toList.getLast? == some '/'

/-- Follows names from a directory; `links` of the links on the way may be followed,
and the last name only if it is asked for. -/
def walk (fs : Files) (follow : Bool) : (steps links here : Nat) → List String → Except Fault Place
  | 0, _, _, _ => .error .loop
  | _ + 1, _, here, [] => .ok { directory := here, name := ".", node? := some here }
  | steps + 1, links, here, name :: rest =>
    if !fs.isDirectory here then .error .notDirectory
    else if name.length > nameLimit then .error .nameTooLong
    else if name = "." then walk fs follow steps links here rest
    else if name = ".." then walk fs follow steps links (fs.above here) rest
    else
      match (fs.entries here).lookup name with
      | none =>
        if rest.isEmpty then .ok { directory := here, name, node? := none } else .error .missing
      | some i =>
        match (fs.get i).form, rest.isEmpty && !follow with
        | .link target, false =>
          match links with
          | 0 => .error .loop
          | links + 1 =>
            if target = "" then .error .missing
            else
              walk fs follow steps links (if Path.isAbsolute target then root else here)
                (names target ++ rest)
        | _, _ =>
          if rest.isEmpty then .ok { directory := here, name, node? := some i }
          else walk fs follow steps links i rest

/-- Where a path leads that starts in a directory. -/
def place (fs : Files) (here : Nat) (path : String) (follow : Bool) : Except Fault Place := do
  if path = "" then throw .missing
  if path.length > pathLimit then throw .nameTooLong
  let isOpenEnded := isOpenEnded path
  let start := if Path.isAbsolute path then root else here
  let p ← walk fs (follow || isOpenEnded) (pathLimit * (linkLimit + 1)) linkLimit start (names path)
  if isOpenEnded && p.node?.any (!fs.isDirectory ·) then throw .notDirectory
  return { p with isOpenEnded }

/-- The node that a path leads to. -/
def find (fs : Files) (here : Nat) (path : String) : Except Fault Nat := do
  match (← fs.place here path true).node? with
  | some i => return i
  | none => throw .missing

/-- The node that a path names, which may be a link. -/
def findLink (fs : Files) (here : Nat) (path : String) : Except Fault Nat := do
  match (← fs.place here path false).node? with
  | some i => return i
  | none => throw .missing

/-- The directory that a path leads to. -/
def findDirectory (fs : Files) (here : Nat) (path : String) : Except Fault Nat := do
  let i ← fs.find here path
  if fs.isDirectory i then return i else throw .notDirectory

/-- The node that a path leads to, if there is one. -/
def find? (fs : Files) (here : Nat) (path : String) : Option Nat := (fs.find here path).toOption

/-- The node that a path names, if there is one. -/
def findLink? (fs : Files) (here : Nat) (path : String) : Option Nat :=
  (fs.findLink here path).toOption

/-- The names on the way to a directory from the root. -/
def route (fs : Files) : (steps : Nat) → (directory : Nat) → List String
  | 0, _ => []
  | steps + 1, i =>
    if i = root then []
    else
      let above := fs.above i
      route fs steps above ++
        (((fs.entries above).find? fun e => e.2 == i).map (·.1)).toList

/-- The path of a directory. -/
def pathOf (fs : Files) (directory : Nat) : String :=
  "/" ++ "/".intercalate (fs.route pathLimit directory)

/-! ## Changing files -/

/-- Makes a node under a path where nothing is. -/
def create (fs : Files) (here : Nat) (path : String) (form : Form) (mode : Nat) :
    Except Fault (Nat × Files) := do
  let p ← fs.place here path false
  if p.node?.isSome then throw .present
  if p.isOpenEnded then throw .missing
  let (i, fs) := fs.make form mode
  return (i, fs.name p.directory p.name i)

/-- Makes a directory. -/
def makeDirectory (fs : Files) (here : Nat) (path : String) (mode : Nat) : Except Fault Files := do
  let p ← fs.place here path false
  if p.node?.isSome then throw .present
  let (i, fs) := fs.make (.directory p.directory []) mode
  return fs.name p.directory p.name i

/-- The last name on a path. -/
def lastName (path : String) : String := (names path).getLastD ""

/-- Takes away the name of what is no directory. -/
def unlink (fs : Files) (here : Nat) (path : String) : Except Fault Files := do
  let p ← fs.place here path false
  match p.node? with
  | none => throw .missing
  | some i => if fs.isDirectory i then throw .isDirectory else return fs.unname p.directory p.name

/-- Takes away an empty directory. -/
def removeDirectory (fs : Files) (here : Nat) (path : String) : Except Fault Files := do
  let last := lastName path
  let p ← fs.place here path false
  match p.node? with
  | none => throw .missing
  | some i =>
    if !fs.isDirectory i then throw .notDirectory
    else if last = "." then throw .invalid
    else if !(fs.entries i).isEmpty || last = ".." then throw .notEmpty
    else if i = root then throw .busy
    else return fs.unname p.directory p.name

/-- Whether a directory is another, or inside of it. -/
def isWithin (fs : Files) (outer : Nat) : (steps : Nat) → (inner : Nat) → Bool
  | 0, _ => false
  | steps + 1, inner => inner == outer || (inner != root && isWithin fs outer steps (fs.above inner))

/-- Gives what is under a path another name, in place of what had it. -/
def rename (fs : Files) (here : Nat) (path newPath : String) : Except Fault Files := do
  let p ← fs.place here path false
  let q ← fs.place here newPath false
  let isDots (path : String) : Bool := lastName path = "." || lastName path = ".."
  match p.node? with
  | none => throw .missing
  | some i =>
    if isDots path || isDots newPath || q.name = "." || p.name = "." then throw .busy
    else if fs.isDirectory i && fs.isWithin i pathLimit q.directory then throw .invalid
    else
      match q.node? with
      | none =>
        if q.isOpenEnded && !fs.isDirectory i then throw .notDirectory
        else return (fs.unname p.directory p.name).name q.directory q.name i
      | some j =>
        if i = j then return fs
        else if fs.isDirectory i && !fs.isDirectory j then throw .notDirectory
        else if fs.isDirectory j && !fs.isDirectory i then throw .isDirectory
        else if !(fs.entries j).isEmpty then throw .notEmpty
        else return (fs.unname p.directory p.name).name q.directory q.name i

/-- Gives a node a further name. -/
def addName (fs : Files) (here : Nat) (i : Nat) (path : String) : Except Fault Files := do
  if fs.isDirectory i then throw .notPermitted
  let p ← fs.place here path false
  if p.node?.isSome then throw .present
  if p.isOpenEnded then throw .missing
  return fs.name p.directory p.name i

/-- How many names a node has. -/
def nameCount (fs : Files) (i : Nat) : Nat :=
  if fs.isDirectory i then 2 + ((fs.entries i).filter fun e => fs.isDirectory e.2).length
  else fs.nodes.toList.foldl (fun count n =>
    match n.form with
    | .directory _ entries => count + (entries.filter fun e => e.2 == i).length
    | _ => count) 0

/-- The text that a node holds. -/
def text (fs : Files) (i : Nat) : String :=
  match (fs.get i).form with
  | .file text | .queue text => text
  | .program name => "\x7fELF\x02\x01\x01\x00" ++ name
  | _ => ""

/-- The text of the file that a path leads to. -/
def read (fs : Files) (here : Nat) (path : String) : Except Fault String := do
  let i ← fs.find here path
  if fs.isDirectory i then throw .isDirectory else return fs.text i

/-- A node and all that is in it, with paths from a first path on; what a directory
holds follows it. -/
def tree (fs : Files) : (depth : Nat) → (path : String) → Nat → List (String × Nat)
  | 0, path, i => [(path, i)]
  | depth + 1, path, i =>
    (path, i) ::
      ((fs.entries i).map fun e =>
        tree fs depth (if isOpenEnded path then path ++ e.1 else path ++ "/" ++ e.1) e.2).flatten

end Files

end Unnest.Host
