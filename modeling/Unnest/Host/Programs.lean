import Unnest.Host.Shell.Start
import Unnest.Host.Utility.Columns
import Unnest.Host.Utility.Condition
import Unnest.Host.Utility.Copy
import Unnest.Host.Utility.Facts
import Unnest.Host.Utility.Grep
import Unnest.Host.Utility.Listing
import Unnest.Host.Utility.Sed.Run
import Unnest.Host.Utility.Show
import Unnest.Host.Utility.Sort
import Unnest.Host.Utility.Wrapper

/-!
# The programs of a host

The names under which programs can be called.
-/

namespace Unnest.Host

/-- The utilities that work alone. -/
def utilities : List (String × Utility) :=
  [("[", Utility.bracket .program), ("basename", Utility.baseName), ("cat", Utility.concatenate),
    ("chgrp", Utility.changeOwner true), ("chmod", Utility.changeMode), ("chown", Utility.changeOwner false),
    ("comm", Utility.commonLines), ("cp", Utility.copy), ("cut", Utility.cut), ("dir", Utility.list),
    ("dirname", Utility.directoryName), ("du", Utility.usage), ("echo", Utility.echo .program),
    ("egrep", Utility.grep .extended), ("expand", Utility.expandTabs), ("false", Utility.nothing 1),
    ("fgrep", Utility.grep .fixed), ("fold", Utility.foldLines), ("grep", Utility.grep .basic),
    ("head", Utility.head), ("hostname", Utility.hostName), ("id", Utility.identity),
    ("install", Utility.install), ("join", Utility.joinLines), ("kill", Utility.sendSignal),
    ("link", Utility.linkOne), ("ln", Utility.link), ("logname", Utility.stating (return "root")),
    ("ls", Utility.list), ("mkdir", Utility.makeDirectories), ("mkfifo", Utility.makeQueues),
    ("mktemp", Utility.makeTemporary), ("mv", Utility.move), ("nl", Utility.numberLines),
    ("nproc", Utility.processors), ("paste", Utility.paste), ("printenv", Utility.showEnvironment),
    ("printf", Utility.printFormat .program), ("pwd", Utility.workingDirectory), ("readlink", Utility.readLink),
    ("realpath", Utility.realPath), ("rev", Utility.reverseLines), ("rm", Utility.remove),
    ("rmdir", Utility.removeDirectories), ("sed", Utility.edit), ("sleep", Utility.sleep),
    ("sort", Utility.sort), ("split", Utility.splitFile), ("stat", Utility.stat), ("sync", Utility.synchronize),
    ("tac", Utility.concatenateBackwards), ("tail", Utility.tail), ("tee", Utility.branch),
    ("test", Utility.test .program), ("touch", Utility.touch), ("tr", Utility.exchange),
    ("true", Utility.nothing 0), ("truncate", Utility.truncate), ("tty", Utility.terminal),
    ("uname", Utility.describeSystem), ("unexpand", Utility.unexpandTabs), ("uniq", Utility.unique),
    ("unlink", Utility.unlinkOne), ("users", Utility.users), ("vdir", Utility.list), ("wc", Utility.count),
    ("which", Utility.which), ("who", Utility.users), ("whoami", Utility.stating (return "root")),
    ("yes", Utility.affirm)]

/-- The utilities that start other programs. -/
def startingUtilities : List (String × (Launcher → Utility)) :=
  [("env", Utility.environment), ("nice", Utility.lowerPriority), ("nohup", Utility.ignoreHangups),
    ("setsid", Utility.openSession), ("stdbuf", Utility.changeBuffers), ("timeout", Utility.limitTime)]

/-- The shells. -/
def shells : List (String × Shell.Dialect) :=
  [("sh", .plain), ("dash", .plain), ("bash", .rich)]

/-- A program by its name. -/
def program? (name : String) : Option Program :=
  match utilities.lookup name, startingUtilities.lookup name, shells.lookup name with
  | some utility, _, _ => some (Program.ofUtility utility)
  | _, some utility, _ => some (Program.ofWork utility)
  | _, _, some dialect => some fun launch => Shell.runShell launch dialect name
  | _, _, _ => none

/-- The names of all programs. -/
def programNames : List String :=
  utilities.map (·.1) ++ startingUtilities.map (·.1) ++ shells.map (·.1)

end Unnest.Host
