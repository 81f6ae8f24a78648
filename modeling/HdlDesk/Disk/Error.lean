/-!
# What a disk can refuse

The reasons for which reading or writing a file fails, with the wording that a user sees.
-/
namespace HdlDesk

inductive DiskError where
  | notFound
  | notADirectory
  | isADirectory
  | alreadyExists
  | tooManyLinks
  /-- A name or a whole path has more bytes than the disk can take. -/
  | nameTooLong
  /-- The place is in use. -/
  | busy
  /-- The bytes of a file that was to be read as text are no UTF-8. -/
  | notText
  /-- A path with a zero character names nothing. -/
  | zeroInPath
  /-- A refusal that the medium words itself. -/
  | refused (reason : String)
  deriving DecidableEq, Repr

def DiskError.message : DiskError → String
  | .notFound => "No such file or directory (os error 2)"
  | .notADirectory => "Not a directory (os error 20)"
  | .isADirectory => "Is a directory (os error 21)"
  | .alreadyExists => "File exists (os error 17)"
  | .tooManyLinks => "Too many levels of symbolic links (os error 40)"
  | .nameTooLong => "File name too long (os error 36)"
  | .busy => "Device or resource busy (os error 16)"
  | .notText => "stream did not contain valid UTF-8"
  | .zeroInPath => "file name contained an unexpected NUL byte"
  | .refused reason => reason

end HdlDesk
