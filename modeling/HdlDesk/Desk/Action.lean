import HdlDesk.Artifact.Basic
import HdlDesk.Recent
import HdlDesk.Source.File

/-!
# What goes in and out of the desk

An action is what the user does, or what has become of work that an earlier action started. The
desk answers each with an outcome: whether anything that can be shown has changed, the refusal if
there was one, and effects. An effect asks for work that somebody else carries out, or for something
to be shown. The desk does not tell the two apart; those who run it do.
-/
namespace HdlDesk

inductive Action where
  | openPath (path : String)
  | openFolder (path : String)
  | openSingle (name content : String)
  | openProject (files : List SourceFile)
  | newFile
  | openRecent (name : String)
  | switch (index : UInt64)
  | edit (text : String)
  | setView (view : View)
  | request (kind : ArtifactKind)
  | resetTestbench
  | copyExplanation
  | artifactArrived (message : ArtifactMessage)
  | artifactFailed (kind : ArtifactKind) (key : String) (error : DeskError)
  | loadFailed (path : String) (error : DeskError)
  | clearAll
  deriving DecidableEq, Repr

inductive Level where
  | info
  | warning
  | error
  deriving DecidableEq, Repr

def Level.name : Level → String
  | .info => "info"
  | .warning => "warning"
  | .error => "error"

inductive Effect where
  | loadFile (path : String)
  | loadFolder (path : String)
  | uploadFile (name content : String)
  | uploadFolder (files : List SourceFile)
  | requestExplanation (key source : String)
  | requestTestbench (key source : String)
  | clearBackend
  | clipboard (text : String)
  | recentFiles (files : List RecentFile)
  | notice (level : Level) (message : String)
  deriving DecidableEq, Repr

/-- The effect that asks for an artifact of a source. -/
def Effect.request (kind : ArtifactKind) (key source : String) : Effect :=
  match kind with
  | .explanation => .requestExplanation key source
  | .testbench => .requestTestbench key source

structure Outcome where
  effects : List Effect := []
  changed : Bool := false
  error : Option DeskError := none
  deriving DecidableEq, Repr

namespace Outcome

def unchanged (effects : List Effect) : Outcome := { effects := effects }

def updated (effects : List Effect) : Outcome := { effects := effects, changed := true }

def refused (error : DeskError) (effects : List Effect) : Outcome :=
  { effects := effects, error := some error }

/-- The action was refused, and the user is told why. -/
def refusedAloud (error : DeskError) : Outcome :=
  refused error [.notice .warning error.message]

end Outcome

end HdlDesk
