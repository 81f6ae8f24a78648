import HdlDesk.Error
import HdlDesk.Source.File
import HdlDesk.Text.Blank
import HdlDesk.Text.Letters
import HdlDesk.Text.Lines
import HdlDesk.Text.Utf8

/-!
# Accepted extensions

Which files are sources is decided by the end of their name. Extensions are configured by hand, so
they are cleaned first: blanks around them and the case of their letters do not count, a missing
dot is supplied, and one that is nothing but a dot is dropped. Cleaning keeps order and
repetitions.
-/
namespace HdlDesk

structure Extensions where
  endings : List String
  deriving DecidableEq, Repr

namespace Extensions

/-- The extensions that are accepted when nothing else is configured. -/
def defaultList : List String := [".v", ".sv"]

/-- The cleaned form of an extension: trimmed, lowered and with a dot in front. -/
def clean (extension : String) : String :=
  let lowered := Text.lowerAscii (Text.trim extension)
  if lowered.toList.head? = some '.' then lowered else "." ++ lowered

def ofList (extensions : List String) : Extensions :=
  ⟨(extensions.map clean).filter fun ending => ending ≠ "."⟩

def default : Extensions := ofList defaultList

instance : Inhabited Extensions := ⟨default⟩

/-- A name is accepted when, lowered, it ends in one of the extensions. -/
def accepts (extensions : Extensions) (name : String) : Bool :=
  extensions.endings.any fun ending => Text.endsIn (Text.lowerAscii name) ending

/-- A file that is opened alone: it must be accepted, and loses the line ends at its end. -/
def readSingle (extensions : Extensions) (raw : RawSource) : Except DeskError SourceFile :=
  if extensions.accepts raw.name then
    .ok (.standalone raw.name (Text.trimLineEnds (Text.decodeLossy raw.bytes)))
  else .error (.invalidExtension raw.name)

/-- The files of a folder: the accepted ones in their order, of which there must be one. -/
def readFolder (extensions : Extensions) (raws : List RawSource) :
    Except DeskError (List SourceFile) :=
  let files := (raws.filter fun raw => extensions.accepts raw.name).map fun raw =>
    (⟨raw.name, raw.path, Text.decodeLossy raw.bytes⟩ : SourceFile)
  if files = [] then .error .noMatchingFiles else .ok files

end Extensions

end HdlDesk
