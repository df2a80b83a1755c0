import Unnest.Host.Disk
import Unnest.Host.ExitStatus

/-!
# Hosts

A build runs one program that is not its own.  All that it learns from it is whether
it could be started and how it ended; what else is left of the program is the disk.
-/

namespace Unnest

/-- A program to run. -/
structure Invocation where
  /-- The program by its name, or by a path to it. -/
  program : String
  args : List String := []
  /-- The directory that it runs in. -/
  directory : String
  deriving DecidableEq, Repr

/-- What a program left when it ended. -/
structure Ended where
  status : ExitStatus
  disk : Disk
  deriving Repr

/-- What becomes of a program that is run on a disk; `none` if it cannot be started. -/
abbrev Host := Invocation → Disk → Option Ended

end Unnest
