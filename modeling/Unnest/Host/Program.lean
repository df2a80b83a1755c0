import Unnest.Host.Utility.Basic

/-!
# Programs

A program is run as a process with its arguments, the first of which is the name that
it was called by.  Most programs are utilities and do their work alone.  A few start
others, and get to know for this how that is done.
-/

namespace Unnest.Host

/-- A program that can start others. -/
abbrev Program := Launcher → Process → (args : List String) → Machine → ExitStatus × Machine

namespace Program

/-- The program that does the work of a utility. -/
def ofWork (utility : Launcher → Utility) : Program := fun launch process args machine =>
  match (utility launch args.tail).run.run { machine, process, name := args.headD "" } with
  | (.ok code, t) => (.code code, t.machine)
  | (.error status, t) => (status, t.machine)

/-- A program that starts no others. -/
def ofUtility (utility : Utility) : Program := ofWork fun _ => utility

end Program

/-- The directories with programs that are searched unless the environment says which. -/
def usualPath : String := "/bin:/usr/bin"

namespace Work

/-- The paths at which a program of a name can be. -/
def candidates (name : String) : Work (List String) := do
  if Octets.has name '/' then return [name]
  let path := ((← process).value? "PATH").getD usualPath
  return (Octets.split (· == ':') path).map fun d =>
    if d = "" then "./" ++ name else if Files.isOpenEnded d then d ++ name else d ++ "/" ++ name

/-- The path of a program: the first at which a file can be run. -/
def findProgram (name : String) : Work (Except Fault String) := do
  if name = "" then return .error .missing
  let candidates ← candidates name
  let files ← files
  let here ← here
  let runs (path : String) : Bool :=
    (files.find? here path).any fun i => (files.get i).isFile && (files.get i).isExecutable
  match candidates.find? runs with
  | some path => return .ok path
  | none =>
    if Octets.has name '/' then
      return match files.find here name with
        | .error f => .error f
        | .ok _ => .error .notAllowed
    else
      return .error (if candidates.any fun c => (files.find? here c).isSome then .notAllowed else .missing)

/-- Runs a program by its name as a process.  A file in no known form is a script. -/
def runAs (launch : Launcher) (process : Process) (name : String) (args : List String) :
    Work (Except Fault ExitStatus) := do
  match ← findProgram name with
  | .error f => return .error f
  | .ok path => do
    let machine ← modifyGet fun t => (t.machine, { t with machine := {} })
    let done :=
      match launch process path (name :: args) machine with
      | .error .format => launch process "/bin/sh" ("/bin/sh" :: path :: args) machine
      | done => done
    match done with
    | .ok (status, m) => setMachine m; return .ok status
    | .error f => setMachine machine; return .error f

/-- Runs a program by its name beside the one at work. -/
def start (launch : Launcher) (name : String) (args : List String) :
    Work (Except Fault ExitStatus) := do
  let t ← get
  let (process, machine) := t.machine.fork t.process
  setMachine machine
  runAs launch process name args

/-- The code of a program that could not start another. -/
def startCode (f : Fault) : Nat := if f == .missing then 127 else 126

/-- Runs a program by its name in place of the one at work; how it ended is how that
ends. -/
def replace {α : Type} (launch : Launcher) (name : String) (args : List String) : Work α := do
  match ← runAs launch (← process) name args with
  | .ok status => throw status
  | .error f => fail (startCode f) s!"{Quoting.always name}: {f.text}"

end Work

end Unnest.Host
