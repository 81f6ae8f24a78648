import HdlDesk.Error
import HdlDesk.Json.Stored
import HdlDesk.Text.Blank
import HdlDesk.Text.Letters

/-!
# Artifacts of a file

Two texts are computed for a source file: an explanation and a testbench. An entry holds what is
known for one file together with the view in which the file is shown. The testbench view exists
only while there is a testbench, and a file without one has no text for it; stored records are not
trusted to respect that and are put right when they are read.
-/
namespace HdlDesk

inductive ArtifactKind where
  | explanation
  | testbench
  deriving DecidableEq, Repr

def ArtifactKind.name : ArtifactKind → String
  | .explanation => "explanation"
  | .testbench => "testbench"

/-- A finished artifact on its way, for the file with the display key `key`. -/
structure ArtifactMessage where
  kind : ArtifactKind
  key : String
  payload : String
  deriving DecidableEq, Repr

/-- The display key of all files without a visible name. -/
def blankKey : String := "blank"

/-- The name under which a file's artifacts are kept. -/
def displayKey (fileName : String) : String :=
  if Text.isAllBlank fileName then blankKey else fileName

inductive View where
  | code
  | explanation
  | testbench
  deriving DecidableEq, Repr

namespace View

def name : View → String
  | .code => "code"
  | .explanation => "explanation"
  | .testbench => "testbench"

def byName : List (String × View) :=
  [("code", .code), ("explanation", .explanation), ("testbench", .testbench)]

/-- Reads a view as a user writes it: blanks around it and the case of its letters do not count. -/
def parse? (text : String) : Option View :=
  byName.lookup (Text.lowerAscii (Text.trim text))

instance : Stored View where
  toJson view := .text view.name
  ofJson? := Json.word? byName

end View

structure ArtifactEntry where
  explanation : String := ""
  testbench : String := ""
  testbenchEnabled : Bool := false
  view : View := .code
  deriving DecidableEq, Repr

namespace ArtifactEntry

def blank : ArtifactEntry := {}

instance : Inhabited ArtifactEntry := ⟨blank⟩

/-- Puts an entry right: without a testbench there is no text for it and no view of it. -/
def sanitized (entry : ArtifactEntry) : ArtifactEntry :=
  if entry.testbenchEnabled then entry
  else { entry with
    testbench := ""
    view := if entry.view = .testbench then .code else entry.view }

/-- An explanation arrives; `none` if it is the one already held. A text, as opposed to an empty
explanation, is shown at once when the file is the active one. -/
def withExplanation (entry : ArtifactEntry) (text : String) (isActive : Bool) :
    Option ArtifactEntry :=
  if entry.explanation = text then none
  else some { entry with
    explanation := text
    view := if isActive ∧ text ≠ "" then .explanation else entry.view }

/-- A testbench arrives; `none` if it is the one already held. It is shown at once when the file
is the active one. -/
def withTestbench (entry : ArtifactEntry) (code : String) (isActive : Bool) :
    Option ArtifactEntry :=
  if entry.testbenchEnabled ∧ entry.testbench = code then none
  else some { entry with
    testbench := code
    testbenchEnabled := true
    view := if isActive then .testbench else entry.view }

def withArtifact (entry : ArtifactEntry) : ArtifactKind → String → Bool → Option ArtifactEntry
  | .explanation => entry.withExplanation
  | .testbench => entry.withTestbench

def withoutTestbench (entry : ArtifactEntry) : ArtifactEntry :=
  { entry with testbench := "", testbenchEnabled := false, view := .code }

/-- The user asks for a view; `none` if it is the one already shown. -/
def withView (entry : ArtifactEntry) (view : View) : Except DeskError (Option ArtifactEntry) :=
  if view = .testbench ∧ ¬entry.testbenchEnabled then .error .invalidView
  else if entry.view = view then .ok none
  else .ok (some { entry with view := view })

/-- Every field may be left out of the record. -/
instance : Stored ArtifactEntry where
  toJson entry := .object [
    (some "explanation", .text entry.explanation),
    (some "testbench", .text entry.testbench),
    (some "testbenchEnabled", .bool entry.testbenchEnabled),
    (some "activeTabView", .text entry.view.name)]
  ofJson? json :=
    match json.fields? ["explanation", "testbench", "testbenchEnabled", "activeTabView"] with
    | some [explanation, testbench, enabled, view] => do
      return {
        explanation := ← Json.optional? "" explanation
        testbench := ← Json.optional? "" testbench
        testbenchEnabled := ← Json.optional? false enabled
        view := ← Json.optional? .code view }
    | _ => none

end ArtifactEntry

end HdlDesk
