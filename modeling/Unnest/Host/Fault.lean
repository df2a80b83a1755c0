/-!
# Faults

What a file system answers when it does not do what it was asked for.  Programs show
the fault in words behind the name of what they were at.
-/

namespace Unnest.Host

/-- A reason why an operation on files failed. -/
inductive Fault where
  /-- There is nothing under a name. -/
  | missing
  /-- There is something under a name already. -/
  | present
  | notDirectory
  | isDirectory
  | notEmpty
  /-- A file that is no program. -/
  | notAllowed
  /-- An operation that is never possible. -/
  | notPermitted
  | invalid
  | busy
  /-- Links that lead to each other. -/
  | loop
  | nameTooLong
  | argumentsTooLong
  | badDescriptor
  /-- A program in no known form. -/
  | format
  | noSpace
  | brokenPipe
  | notSeekable
  | noDevice
  deriving DecidableEq, Repr, Inhabited

/-- A fault in words. -/
def Fault.text : Fault → String
  | .missing => "No such file or directory"
  | .present => "File exists"
  | .notDirectory => "Not a directory"
  | .isDirectory => "Is a directory"
  | .notEmpty => "Directory not empty"
  | .notAllowed => "Permission denied"
  | .notPermitted => "Operation not permitted"
  | .invalid => "Invalid argument"
  | .busy => "Device or resource busy"
  | .loop => "Too many levels of symbolic links"
  | .nameTooLong => "File name too long"
  | .argumentsTooLong => "Argument list too long"
  | .badDescriptor => "Bad file descriptor"
  | .format => "Exec format error"
  | .noSpace => "No space left on device"
  | .brokenPipe => "Broken pipe"
  | .notSeekable => "Illegal seek"
  | .noDevice => "No such device or address"

end Unnest.Host
