import SolidityBuild.Path.Basic

/-! # Errors of the file system and of reading text -/

namespace SolidityBuild

/-- Why the file system refuses an operation. -/
inductive SystemError where
  | notFound
  | permissionDenied
  | alreadyExists
  | notDirectory
  | isDirectory
  | tooManyLinks
  | nameTooLong
  /-- the path holds a zero byte -/
  | zeroByte
deriving DecidableEq, Inhabited

/-- The system's text for an error. -/
def SystemError.message : SystemError → String
  | notFound => "No such file or directory (os error 2)"
  | permissionDenied => "Permission denied (os error 13)"
  | alreadyExists => "File exists (os error 17)"
  | notDirectory => "Not a directory (os error 20)"
  | isDirectory => "Is a directory (os error 21)"
  | tooManyLinks => "Too many levels of symbolic links (os error 40)"
  | nameTooLong => "File name too long (os error 36)"
  | zeroByte => "file name contained an unexpected NUL byte"

/-- Why the text of a file cannot be had. -/
inductive ReadError where
  | system (e : SystemError)
  /-- the bytes are not UTF-8 -/
  | notText
  /-- no file of this path is held in memory -/
  | absent (path : Path)
deriving DecidableEq, Inhabited

/-- The text for a failed read. -/
def ReadError.message : ReadError → String
  | system e => e.message
  | notText => "stream did not contain valid UTF-8"
  | absent path => "no such file: " ++ path.text

end SolidityBuild
