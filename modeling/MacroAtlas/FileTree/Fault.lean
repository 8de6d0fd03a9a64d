/-!
# Faults of a file system

The ways in which a file system refuses what it is asked to do, with the texts that report them.
-/

namespace MacroAtlas

/-- Why the file system refused an operation. -/
inductive SystemFault where
  /-- Nothing has this name. -/
  | notFound
  /-- The name is taken. -/
  | exists
  /-- A component in front of the last is a file, or the path itself is one and should not be. -/
  | notDirectory
  /-- The path is a directory and should not be. -/
  | isDirectory
  /-- A component, or the path itself, is longer than a file system allows. -/
  | nameTooLong
  /-- The path has a zero byte in it. -/
  | zeroByte
  /-- The content should be a text and is not in UTF-8. -/
  | notText
  deriving DecidableEq, Repr

/-- The report of a fault of the file system. -/
def SystemFault.message : SystemFault → String
  | .notFound => "No such file or directory (os error 2)"
  | .exists => "File exists (os error 17)"
  | .notDirectory => "Not a directory (os error 20)"
  | .isDirectory => "Is a directory (os error 21)"
  | .nameTooLong => "File name too long (os error 36)"
  | .zeroByte => "file name contained an unexpected NUL byte"
  | .notText => "stream did not contain valid UTF-8"

end MacroAtlas
