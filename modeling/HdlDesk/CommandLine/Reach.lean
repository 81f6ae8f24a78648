import HdlDesk.CommandLine.Arguments
import HdlDesk.Places
import HdlDesk.Storage.StateFile

/-!
# What a run can reach

The paths that a run may read or write, known before it starts: the places of the log, the settings
and the session, and the argument of its command. Only a folder that is opened is also read below.
-/
namespace HdlDesk.CommandLine

/-- The command and its argument, as far as they are there. -/
def commandWords (arguments : List String) : List String :=
  (arguments.filter fun argument => !isOption argument).take 2

def reach (environment : Environment) (arguments : List String) : List String :=
  let states := arguments.filterMap statePath? ++ environment.stateFile.toList
  environment.settingsFile.toList ++ environment.logFolder.toList ++
    [environment.spareLogFolder] ++ states ++ states.map StateFile.draftPath ++
    (commandWords arguments)[1]?.toList

def openedFolder? (arguments : List String) : Option String :=
  match commandWords arguments with
  | ["open-folder", path] => some path
  | _ => none

end HdlDesk.CommandLine
