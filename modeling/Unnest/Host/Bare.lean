import Unnest.Host.Basic
import Unnest.Host.Programs
import Unnest.Host.System

/-!
# A bare host

A host with nothing installed still has its utilities, its shells, and programs that
only run another one.  Programs start each other to some depth, which is far more than
a script can need.

A disk is brought onto the host as a part of its file system, and what the programs
have left there is the disk that is found afterwards.  Files behind links are found
under every path that leads to them.
-/

namespace Unnest.Host

/-! ## Starting programs -/

/-- The largest size of an argument, in octets. -/
def argumentLimit : Nat := 128 * 1024

/-- What the first line of a script says about who runs it: a program, and an argument
if there is one. -/
def interpreter? (text : String) : Option (String × List String) :=
  match text.toList with
  | '#' :: '!' :: cs =>
    let line := (cs.takeWhile (· != '\n')).take 253
    let isBlank (c : Char) : Bool := Octets.isBlank c
    let line := line.dropWhile isBlank
    let name := line.takeWhile fun c => !isBlank c
    let rest := (line.drop name.length).dropWhile isBlank
    let rest := (rest.reverse.dropWhile isBlank).reverse
    if name.isEmpty then none
    else some (String.ofList name, if rest.isEmpty then [] else [String.ofList rest])
  | _ => none

/-- What the file of a program of the system starts with. -/
def programMark : String := "\x7fELF\x02\x01\x01\x00"

/-- How a program ended, which may have got a signal in the meantime. -/
def settle (process : Process) (status : ExitStatus) (machine : Machine) : ExitStatus × Machine :=
  let isMine (p : Nat × Signal) : Bool := p.1 == process.number
  let isFatal (p : Nat × Signal) : Bool :=
    isMine p && p.2.isFatal && (p.2.number = 9 || !process.ignored.contains p.2)
  match machine.posted.find? isFatal with
  | some (_, signal) =>
    (.signal signal, { machine with posted := machine.posted.filter fun p => !isMine p })
  | none => (status, machine)

/-- Starts programs, at most so deep inside of each other. -/
def launchWithin : (depth : Nat) → Launcher
  | 0, _, _, _, _ => .error .notAllowed
  | depth + 1, process, path, args, machine => do
    if args.any fun arg => decide (argumentLimit ≤ arg.length) then throw .argumentsTooLong
    let node := machine.files.get (← machine.files.find process.directory path)
    if !node.isFile || !node.isExecutable then throw .notAllowed
    let run (name : String) : Except Fault (ExitStatus × Machine) :=
      match program? name with
      | some program =>
        let (status, machine) := program (launchWithin depth) process args machine
        .ok (settle process status machine)
      | none => .error .format
    match node.form with
    | .program name => run name
    | .file text =>
      match interpreter? text, Octets.after? programMark text with
      | some (name, argument), _ =>
        launchWithin depth process name (name :: argument ++ path :: args.tail) machine
      | none, some name => run name
      | none, none => throw .format
    | _ => throw .notAllowed

/-- Starts programs. -/
def launch : Launcher := launchWithin 64

/-! ## Disks -/

/-- The path of a place on a disk. -/
def pathOfPlace (place : List String) : String := Octets.encode ("/" ++ "/".intercalate place)

/-- Brings a disk onto a host. -/
def mount (fs : Files) (d : Disk) : Files :=
  let fs := d.directories.foldl (fun fs place => System.put fs (System.directory (pathOfPlace place))) fs
  d.files.foldl (fun fs (place, text) => System.put fs ⟨pathOfPlace place, .file (Octets.encode text), 0o644⟩) fs

/-- The files and directories at a path, with the places that they have from there on. -/
def collect (fs : Files) : (depth : Nat) → (place : List String) → Disk → Disk
  | 0, _, d => d
  | depth + 1, place, d =>
    let path := "/" ++ "/".intercalate place
    match fs.find? Files.root path with
    | none => d
    | some i =>
      let shown := place.map Octets.decode
      match (fs.get i).form with
      | .directory _ entries =>
        entries.foldl (fun d e => collect fs depth (place ++ [e.1]) d)
          { d with directories := d.directories ++ [shown] }
      | .file _ | .program _ => { d with files := d.files ++ [(shown, Octets.decode (fs.text i))] }
      | _ => d

/-- The disk that is left on a host. -/
def unmount (fs : Files) : Disk :=
  collect fs Files.pathLimit Disk.home { directories := [["tmp"]], files := [] }

/-! ## The host -/

/-- The environment of the programs that a build runs. -/
def usualEnvironment : List (String × String) :=
  [("PATH", "/usr/local/sbin:/usr/local/bin:/usr/sbin:/usr/bin:/sbin:/bin"), ("HOME", "/root")]

/-- The file system of a host with nothing installed. -/
def bareFiles : Files := System.tree programNames

/-- A host with nothing installed. -/
def bare : Host := fun i d => do
  let words := i.program :: i.args
  if words.any fun word => Octets.has word '\x00' then none
  let files := mount bareFiles d
  let home ← files.find? Files.root (pathOfPlace Disk.home)
  let directory ← (files.findDirectory home (Octets.encode i.directory)).toOption
  let (console, machine) := ({ files } : Machine).addOpening { channel := .console }
  let (null, machine) := machine.addOpening { channel := .console, isReadable := false }
  let process : Process :=
    { number := 2, parent := 1, directory, environment := usualEnvironment
      descriptors := [(0, console), (1, null), (2, null)] }
  let machine := { machine with nextProcess := 3 }
  let words := words.map Octets.encode
  let path ←
    match (Work.findProgram (words.headD "")).run.run { machine, process, name := "" } with
    | (.ok (.ok path), _) => some path
    | _ => none
  match launch process path words machine with
  | .ok (status, machine) => some { status, disk := unmount machine.files }
  | .error _ => none

end Unnest.Host
