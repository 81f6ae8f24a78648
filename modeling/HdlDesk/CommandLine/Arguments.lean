import HdlDesk.Desk.Action
import HdlDesk.Disk.Basic
import HdlDesk.Text.Decimal

/-!
# Arguments

The words after the program's name: options anywhere among them, then a command and at most one
argument of it; further words are passed over. The file whose text an edit takes is read while the
arguments are, so that a command which cannot be carried out is refused before anything is done.
-/
namespace HdlDesk.CommandLine

def usage : String :=
  "usage: veriwork [--state=PATH] [--memory] [--verbose] <command> [args]\n" ++
  "\n" ++
  "commands:\n" ++
  "  status                 show the restored workspace\n" ++
  "  open <file>            open a single .v/.sv file\n" ++
  "  open-folder <dir>      open every .v/.sv file under <dir> as a project\n" ++
  "  switch <index>         make project file <index> active\n" ++
  "  new                    start an empty untitled.sv\n" ++
  "  edit <file>            replace the editor text with the contents of <file>\n" ++
  "  recent [name]          list recent files, or reopen <name>\n" ++
  "  explain                request an explanation of the editor text\n" ++
  "  testbench              request a testbench for the editor text\n" ++
  "  reset-testbench        discard the testbench of the active file\n" ++
  "  tab <view>             show code, explanation or testbench\n" ++
  "  copy-explanation       print the active file's explanation\n" ++
  "  clear                  forget everything\n" ++
  "  exit                   same as clear"

inductive Command where
  | status
  | listRecent
  | act (action : Action)
  deriving DecidableEq, Repr

structure Invocation where
  /-- Where the session is kept, if not at its usual place. -/
  statePath : Option String := none
  inMemory : Bool := false
  verbose : Bool := false
  command : Command
  deriving DecidableEq, Repr

inductive UsageError where
  | badIndex (text : String)
  | unreadable (path : String) (error : DiskError)
  | unknownView (text : String)
  | unknownCommand (name : String)
  deriving DecidableEq, Repr

def UsageError.message : UsageError → String
  | .badIndex text => "invalid index: " ++ text
  | .unreadable path error => "cannot read " ++ path ++ ": " ++ error.message
  | .unknownView text => "unknown view: " ++ text
  | .unknownCommand name => "unknown or incomplete command: " ++ name

/-- The beginning of the option that names the file of the session. -/
def stateOption : String := "--state="

def statePath? (argument : String) : Option String :=
  if stateOption.toList.isPrefixOf argument.toList then
    some (String.ofList (argument.toList.drop stateOption.length))
  else none

def isVerbose (argument : String) : Bool := argument = "--verbose" || argument = "-v"

def isOption (argument : String) : Bool :=
  (statePath? argument).isSome || argument = "--memory" || isVerbose argument

def asksHelp (argument : String) : Bool := argument = "-h" || argument = "--help"

/-- Reads a command and its argument. `readText` reads a file. -/
def readCommand (readText : String → Except DiskError String) :
    String → Option String → Except UsageError Command
  | "status", _ => .ok .status
  | "open", some path => .ok (.act (.openPath path))
  | "open-folder", some path => .ok (.act (.openFolder path))
  | "switch", some text =>
    match Text.parseIndex? text with
    | some index => .ok (.act (.switch (.ofNat index)))
    | none => .error (.badIndex text)
  | "new", _ => .ok (.act .newFile)
  | "edit", some path =>
    match readText path with
    | .ok text => .ok (.act (.edit text))
    | .error refused => .error (.unreadable path refused)
  | "recent", none => .ok .listRecent
  | "recent", some name => .ok (.act (.openRecent name))
  | "explain", _ => .ok (.act (.request .explanation))
  | "testbench", _ => .ok (.act (.request .testbench))
  | "reset-testbench", _ => .ok (.act .resetTestbench)
  | "tab", some text =>
    match View.parse? text with
    | some view => .ok (.act (.setView view))
    | none => .error (.unknownView text)
  | "copy-explanation", _ => .ok (.act .copyExplanation)
  | "clear", _ => .ok (.act .clearAll)
  | "exit", _ => .ok (.act .clearAll)
  | name, _ => .error (.unknownCommand name)

/-- Reads the arguments of the program. Without a command its status is asked for; of several state
options the last counts. -/
def readArguments (readText : String → Except DiskError String) (arguments : List String) :
    Except UsageError Invocation :=
  let words := arguments.filter fun argument => !isOption argument
  (readCommand readText (words.headD "status") words[1]?).map fun command => {
    statePath := (arguments.filterMap statePath?).getLast?
    inMemory := arguments.contains "--memory"
    verbose := arguments.any isVerbose
    command := command }

end HdlDesk.CommandLine
