import HdlDesk.Disk.Error
import HdlDesk.Text.Decimal

/-!
# What the desk can refuse

Every refusal names its cause; the wording is kept apart. Two of them can only follow from a
mistake in the program around the desk, and a shell reports those more loudly.
-/
namespace HdlDesk

inductive DeskError where
  | invalidExtension (name : String)
  | noMatchingFiles
  | indexOutOfRange (index count : Nat)
  | invalidView
  | unknownRecentFile (name : String)
  | malformedRecord (key reason : String)
  | backendFailed (reason : String)
  | disk (reason : String)
  deriving DecidableEq, Repr

namespace DeskError

/-- A misuse of the desk rather than something the user did. -/
def isMisuse : DeskError → Bool
  | .indexOutOfRange .. => true
  | .invalidView => true
  | _ => false

def message : DeskError → String
  | .invalidExtension name => "Only .v or .sv files are allowed: " ++ name
  | .noMatchingFiles => "No Verilog files found"
  | .indexOutOfRange index count =>
    "file index " ++ Text.decimal index ++ " out of range (project has " ++ Text.decimal count ++ ")"
  | .invalidView => "testbench view requested while no testbench is available"
  | .unknownRecentFile name => name ++ " is no longer in the recent files list"
  | .malformedRecord key reason => "malformed persisted state under " ++ key ++ ": " ++ reason
  | .backendFailed reason => "backend request failed: " ++ reason
  | .disk reason => "IO error: " ++ reason

def ofDisk (error : DiskError) : DeskError := .disk error.message

end DeskError

end HdlDesk
