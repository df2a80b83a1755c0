import Unnest.Host.Machine

/-!
# What a host comes with

A host with nothing installed still has its system directories: programs under their
usual paths, devices, and a few files about users.
-/

namespace Unnest.Host.System

/-- Something that the system puts somewhere: its path, what it is, and its
permissions. -/
structure Item where
  path : String
  form : Form
  mode : Nat

/-- A directory. -/
def directory (path : String) : Item := ⟨path, .directory Files.root [], 0o755⟩

/-- The directories of the system, each after the one that it is in. -/
def directories : List Item :=
  ["/boot", "/dev", "/dev/fd", "/dev/shm", "/etc", "/home", "/media", "/mnt", "/opt", "/proc", "/root", "/run",
    "/srv", "/sys", "/tmp", "/usr", "/usr/bin", "/usr/games", "/usr/include", "/usr/lib", "/usr/lib64",
    "/usr/local", "/usr/local/bin", "/usr/local/lib", "/usr/local/sbin", "/usr/sbin", "/usr/share", "/usr/src",
    "/var", "/var/lib", "/var/log", "/var/tmp"].map directory

/-- The links of the system. -/
def links : List Item :=
  [("/bin", "usr/bin"), ("/sbin", "usr/sbin"), ("/lib", "usr/lib"), ("/lib64", "usr/lib64"),
    ("/var/run", "/run")].map fun (path, target) => ⟨path, .link target, 0o777⟩

/-- The devices of the system. -/
def devices : List Item :=
  [("/dev/null", .null), ("/dev/zero", .zero), ("/dev/full", .full), ("/dev/random", .zero),
    ("/dev/urandom", .zero), ("/dev/stdin", .descriptor 0), ("/dev/stdout", .descriptor 1),
    ("/dev/stderr", .descriptor 2)].map (fun (path, d) => ⟨path, .device d, 0o666⟩) ++
  (List.range 64).map fun n => ⟨s!"/dev/fd/{n}", .device (.descriptor n), 0o666⟩

/-- The files of the system. -/
def files : List Item :=
  [("/etc/passwd", "root:x:0:0:root:/root:/bin/bash\nnobody:x:65534:65534:nobody:/nonexistent:/usr/sbin/nologin\n"),
    ("/etc/group", "root:x:0:\nnogroup:x:65534:\n"),
    ("/etc/hostname", "localhost\n"), ("/etc/hosts", "127.0.0.1\tlocalhost\n"),
    ("/etc/shells", "/bin/sh\n/usr/bin/sh\n/bin/bash\n/usr/bin/bash\n/bin/dash\n/usr/bin/dash\n")].map
    fun (path, text) => ⟨path, .file text, 0o644⟩

/-- Puts something into a file system, unless it is there or has no place there. -/
def put (fs : Files) (item : Item) : Files :=
  match item.form with
  | .directory .. => (fs.makeDirectory Files.root item.path item.mode).toOption.getD fs
  | form =>
    match fs.create Files.root item.path form item.mode with
    | .ok (_, fs) => fs
    | .error _ => fs

/-- The file system of a host with programs of some names. -/
def tree (programs : List String) : Files :=
  let programs := programs.map fun name => ⟨"/usr/bin/" ++ name, Form.program name, 0o755⟩
  (directories ++ links ++ devices ++ files ++ programs).foldl put {}

end Unnest.Host.System
