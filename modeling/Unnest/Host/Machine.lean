import Unnest.Host.ExitStatus
import Unnest.Host.Files

/-!
# The machine that programs run on

Processes share a file system, what they have open, and the pipes between them; the
`Machine` is all of this as one value.  A process has numbers for what it has open, its
descriptors; several descriptors can lead to one opening, and then they share how far
it was read or written.

Programs run one after the other.  A pipe therefore holds all that was written to it
until it is read, up to a limit: a program that goes on writing is ended as it would be
when its reader stops.  Time passes only where a program waits.  A program that would
wait beyond a deadline, or for what nobody writes, stalls, and whoever set the deadline
goes on from there.
-/

namespace Unnest.Host

/-- What an opening leads to. -/
inductive Channel where
  | node (number : Nat)
  | pipe (number : Nat)
  /-- Where the first program was started from: it can be read, and takes everything. -/
  | console
  deriving DecidableEq, Repr, Inhabited

/-- Something that is open. -/
structure Opening where
  channel : Channel
  /-- How many octets of a file were read or written. -/
  offset : Nat := 0
  isReadable : Bool := true
  isWritable : Bool := true
  /-- Whether everything is written at the end. -/
  appends : Bool := false
  deriving Repr, Inhabited

/-- How a file is to be opened. -/
inductive Access where
  | read
  /-- Written from the start, in place of what was there. -/
  | write
  /-- Written at the end. -/
  | append
  | readWrite
  /-- Written from the start, and there may be no file yet. -/
  | fresh
  deriving DecidableEq, Repr

/-- A process, as far as programs that it starts take over from it. -/
structure Process where
  number : Nat := 1
  parent : Nat := 0
  /-- The directory that its paths start in. -/
  directory : Nat := Files.root
  environment : List (String × String) := []
  /-- What its descriptors lead to. -/
  descriptors : List (Nat × Nat) := []
  ignored : List Signal := []
  /-- The permissions that new files do not get. -/
  mask : Nat := 0o022
  deriving Repr, Inhabited

/-- What processes share. -/
structure Machine where
  files : Files := {}
  openings : Array Opening := #[]
  pipes : Array String := #[]
  /-- What can be read from the console. -/
  console : String := ""
  /-- The time that programs have waited, in nanoseconds. -/
  clock : Nat := 0
  deadline? : Option Nat := none
  isStalled : Bool := false
  nextProcess : Nat := 2
  /-- Signals on their way to processes. -/
  posted : List (Nat × Signal) := []
  deriving Repr, Inhabited

namespace Process

/-- What a descriptor leads to. -/
def opening? (p : Process) (descriptor : Nat) : Option Nat := p.descriptors.lookup descriptor

/-- Lets a descriptor lead somewhere, or nowhere. -/
def setDescriptor (p : Process) (descriptor : Nat) (opening? : Option Nat) : Process :=
  let others := p.descriptors.filter (·.1 != descriptor)
  { p with
    descriptors :=
      match opening? with
      | some opening => (descriptor, opening) :: others
      | none => others }

/-- The value of a variable of the environment. -/
def value? (p : Process) (name : String) : Option String := p.environment.lookup name

/-- Changes a variable of the environment. -/
def setVariable (p : Process) (name value : String) : Process :=
  if p.environment.any (·.1 == name) then
    { p with environment := p.environment.map fun e => if e.1 == name then (name, value) else e }
  else { p with environment := p.environment ++ [(name, value)] }

/-- Takes a variable out of the environment. -/
def unsetVariable (p : Process) (name : String) : Process :=
  { p with environment := p.environment.filter (·.1 != name) }

end Process

namespace Machine

/-- How much a pipe holds at most. -/
def pipeLimit : Nat := Nat.pow 2 18

def opening (m : Machine) (i : Nat) : Opening := m.openings[i]?.getD { channel := .console }

/-- Adds an opening. -/
def addOpening (m : Machine) (o : Opening) : Nat × Machine :=
  (m.openings.size, { m with openings := m.openings.push o })

/-- Makes a pipe: the openings of its ends for reading and for writing. -/
def makePipe (m : Machine) : Nat × Nat × Machine :=
  let pipe := Channel.pipe m.pipes.size
  let m := { m with pipes := m.pipes.push "" }
  let (reader, m) := m.addOpening { channel := pipe, isWritable := false }
  let (writer, m) := m.addOpening { channel := pipe, isReadable := false }
  (reader, writer, m)

/-- Opens what is under a path for a process. -/
def openPath (m : Machine) (p : Process) (path : String) (access : Access) :
    Except Fault (Nat × Machine) := do
  let isWritable := access != .read
  let opened (m : Machine) (i : Nat) : Nat × Machine :=
    m.addOpening
      { channel := .node i, isReadable := access matches .read | .readWrite, isWritable
        appends := access matches .append }
  let place ← m.files.place p.directory path true
  match place.node? with
  | none =>
    if access == .read then throw .missing
    if place.isOpenEnded then throw .isDirectory
    let (i, files) := m.files.make (.file "") (0o666 - (0o666 &&& p.mask))
    return opened { m with files := files.name place.directory place.name i } i
  | some i =>
    if access == .fresh then
      match (m.files.get i).form with
      | .device _ | .queue _ => pure ()
      | _ => throw .present
    match (m.files.get i).form with
    | .device (.descriptor d) =>
      match p.opening? d with
      | none => throw .missing
      | some o =>
        match (m.opening o).channel with
        | .node j =>
          let m := if access == .write then { m with files := m.files.setForm j (.file "") } else m
          return opened m j
        | _ => return (o, m)
    | .directory .. => if isWritable then throw .isDirectory else return opened m i
    | .file _ =>
      let m :=
        if access == .write then { m with files := m.files.setForm i (.file "") } else m
      return opened m i
    | _ => return opened m i

/-- What can still be read of an opening.  Of a device that never ends it is some. -/
def rest (m : Machine) (opening : Nat) : Except Fault String :=
  let o := m.opening opening
  if !o.isReadable then .error .badDescriptor
  else
    match o.channel with
    | .pipe n => .ok (m.pipes[n]?.getD "")
    | .console => .ok m.console
    | .node i =>
      match (m.files.get i).form with
      | .directory .. => .error .isDirectory
      | .queue text => .ok text
      | .device .zero | .device .full => .ok (Octets.repeated pipeLimit '\x00')
      | _ => .ok (Octets.drop o.offset (m.files.text i))

/-- Changes an opening. -/
def setOffset (m : Machine) (opening offset : Nat) : Machine :=
  { m with openings := m.openings.modify opening fun o => { o with offset } }

/-- Goes on behind what was read. -/
def consume (m : Machine) (opening count : Nat) : Machine :=
  let o := m.opening opening
  match o.channel with
  | .pipe n => { m with pipes := m.pipes.modify n (Octets.drop count) }
  | .console => { m with console := Octets.drop count m.console }
  | .node i =>
    match (m.files.get i).form with
    | .queue text => { m with files := m.files.setForm i (.queue (Octets.drop count text)) }
    | _ => m.setOffset opening (o.offset + count)

/-- A text in which another was written from an offset on. -/
def overwritten (text : String) (offset : Nat) (new : String) : String :=
  let size := text.length
  if offset = size then text ++ new
  else if size < offset then text ++ Octets.repeated (offset - size) '\x00' ++ new
  else Octets.take offset text ++ new ++ Octets.drop (offset + new.length) text

/-- Writes to an opening. -/
def write (m : Machine) (opening : Nat) (text : String) : Except Fault Machine :=
  let o := m.opening opening
  if !o.isWritable then .error .badDescriptor
  else if text = "" then .ok m
  else
    match o.channel with
    | .console => .ok m
    | .pipe n =>
      if (m.pipes[n]?.getD "").utf8ByteSize > pipeLimit then .error .brokenPipe
      else .ok { m with pipes := m.pipes.modify n (· ++ text) }
    | .node i =>
      match (m.files.get i).form with
      | .file old =>
        let offset := if o.appends then old.length else o.offset
        .ok ({ m with files := m.files.setForm i (.file (overwritten old offset text)) }.setOffset
          opening (offset + text.length))
      | .queue old => .ok { m with files := m.files.setForm i (.queue (old ++ text)) }
      | .device .full => .error .noSpace
      | _ => .ok m

/-- A process that takes over what another has. -/
def fork (m : Machine) (p : Process) : Process × Machine :=
  ({ p with number := m.nextProcess, parent := p.number }, { m with nextProcess := m.nextProcess + 1 })

/-- Lets time pass, up to the deadline. -/
def wait (m : Machine) (duration : Nat) : Machine :=
  let clock := m.clock + duration
  match m.deadline? with
  | some deadline => if deadline < clock then { m with clock := deadline, isStalled := true } else { m with clock }
  | none => { m with clock }

/-- Sends a signal to a process. -/
def post (m : Machine) (process : Nat) (s : Signal) : Machine :=
  { m with posted := m.posted ++ [(process, s)] }

end Machine

/-- Runs the program under a path, with its name and arguments, as a process. -/
abbrev Launcher := Process → (path : String) → List String → Machine → Except Fault (ExitStatus × Machine)

end Unnest.Host
