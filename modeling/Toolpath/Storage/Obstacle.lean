/-!
# Obstacles

Why the system refuses to read or to change a file.
-/

namespace Toolpath.Storage

inductive Obstacle where
  | notFound
  | exists
  | notDirectory
  | isDirectory
  | nameTooLong
  /-- A name with a character that no name may have. -/
  | notName
  | notText
  | other (reason : String)
deriving DecidableEq

namespace Obstacle

def message : Obstacle → String
  | notFound => "No such file or directory (os error 2)"
  | .exists => "File exists (os error 17)"
  | notDirectory => "Not a directory (os error 20)"
  | isDirectory => "Is a directory (os error 21)"
  | nameTooLong => "File name too long (os error 36)"
  | notName => "file name contained an unexpected NUL byte"
  | notText => "stream did not contain valid UTF-8"
  | other reason => reason

end Obstacle

end Toolpath.Storage
