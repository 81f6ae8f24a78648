import HdlDesk.Artifact.Basic
import HdlDesk.Source.File

/-!
# The backend

The service that analyses sources. The desk stores what it answers and computes none of it, so a
backend is given by its answers. Without a service every call is refused.
-/
namespace HdlDesk

inductive BackendError where
  | notConfigured
  | request (reason : String)
  | timeout
  deriving DecidableEq, Repr

namespace BackendError

def message : BackendError → String
  | .notConfigured => "backend not configured"
  | .request reason => reason
  | .timeout => "request timed out"

def toDeskError (error : BackendError) : DeskError := .backendFailed error.message

end BackendError

/-- The backend's answer to the upload of one file. -/
structure UploadPreview where
  fileName : String
  preview : String
  deriving DecidableEq, Repr

structure Backend where
  uploadFile : String → String → Except BackendError UploadPreview
  uploadFolder : List SourceFile → Except BackendError Unit
  artifact : ArtifactKind → String → Except BackendError String
  clear : Except BackendError Unit

/-- No service at all. -/
def Backend.offline : Backend where
  uploadFile _ _ := .error .notConfigured
  uploadFolder _ := .error .notConfigured
  artifact _ _ := .error .notConfigured
  clear := .error .notConfigured

end HdlDesk
