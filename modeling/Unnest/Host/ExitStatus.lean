/-!
# How a process ends

A process ends by itself, with a code that is zero where all went well, or it is ended
by a signal.  Signals are numbers; the low ones have names.
-/

namespace Unnest

/-- A signal, by its number. -/
structure Signal where
  number : Nat
  deriving DecidableEq, Repr

namespace Signal

/-- The names of the signals, from number `1` on. -/
def names : List String :=
  ["HUP", "INT", "QUIT", "ILL", "TRAP", "ABRT", "BUS", "FPE", "KILL", "USR1", "SEGV", "USR2",
    "PIPE", "ALRM", "TERM", "STKFLT", "CHLD", "CONT", "STOP", "TSTP", "TTIN", "TTOU", "URG",
    "XCPU", "XFSZ", "VTALRM", "PROF", "WINCH", "IO", "PWR", "SYS"]

/-- The signal that is sent if no other is asked for. -/
def termination : Signal := ⟨15⟩

/-- The largest number of a signal. -/
def limit : Nat := 64

/-- The name of a signal, if it has one. -/
def name? (s : Signal) : Option String :=
  match s.number with
  | 0 => none
  | n + 1 => names[n]?

/-- The signal with a name, in whatever case its letters are. -/
def ofName? (name : String) : Option Signal :=
  (names.findIdx? (· == name.toUpper)).map fun n => ⟨n + 1⟩

/-- The signals that leave a process running which does nothing about them. -/
def harmless : List String := ["CHLD", "CONT", "STOP", "TSTP", "TTIN", "TTOU", "URG", "WINCH"]

/-- Whether the signal ends a process.  Number `0` is only a question whether there
is one. -/
def isFatal (s : Signal) : Bool := s.number != 0 && s.name?.all (!harmless.contains ·)

/-- A signal in words. -/
def text (s : Signal) : String :=
  match s.name? with
  | some name => s!"{s.number} (SIG{name})"
  | none => toString s.number

/-- What a shell says about a program that a signal ended. -/
def description (s : Signal) : String :=
  match s.number with
  | 1 => "Hangup"
  | 3 => "Quit"
  | 4 => "Illegal instruction"
  | 5 => "Trace/breakpoint trap"
  | 6 => "Aborted"
  | 7 => "Bus error"
  | 8 => "Floating point exception"
  | 9 => "Killed"
  | 10 => "User defined signal 1"
  | 11 => "Segmentation fault"
  | 12 => "User defined signal 2"
  | 14 => "Alarm clock"
  | 15 => "Terminated"
  | n => s!"Signal {n}"

end Signal

/-- How a process ended. -/
inductive ExitStatus where
  /-- By itself, with a code. -/
  | code (n : Nat)
  /-- By a signal. -/
  | signal (s : Signal)
  deriving DecidableEq, Repr

namespace ExitStatus

/-- The status of a process that did what it should. -/
def success : ExitStatus := .code 0

/-- A status in words. -/
def text : ExitStatus → String
  | .code n => s!"exit status: {n}"
  | .signal s => s!"signal: {s.text}"

/-- The one number that a shell keeps of a status. -/
def number : ExitStatus → Nat
  | .code n => n
  | .signal s => 128 + s.number

end ExitStatus

end Unnest
