import ProjectIndex.Path.Basic

/-! Why an operation on files, stores or the scanner fails, and how each cause is worded. -/
namespace ProjectIndex

/-- What the file system answers instead of a file. -/
inductive FileError where
  | notFound
  | notDirectory
  | isDirectory
  | tooManyLinks
  | nameTooLong
  | zeroInName
  | notText
deriving DecidableEq, Inhabited, Repr

def FileError.message : FileError → String
  | .notFound => "No such file or directory (os error 2)"
  | .notDirectory => "Not a directory (os error 20)"
  | .isDirectory => "Is a directory (os error 21)"
  | .tooManyLinks => "Too many levels of symbolic links (os error 40)"
  | .nameTooLong => "File name too long (os error 36)"
  | .zeroInName => "file name contained an unexpected NUL byte"
  | .notText => "stream did not contain valid UTF-8"

inductive Failure where
  | io (cause : FileError)
  | serialization
  | storage
  | notFound (path : Path)
  | unsupportedFileType (path : Path)
  | closed (name : String)
deriving DecidableEq, Inhabited, Repr

def Failure.message : Failure → String
  | .io cause => "I/O error: " ++ cause.message
  | .serialization => "Serialization error"
  | .storage => "Storage error"
  | .notFound path => "Path not found: " ++ path.toString
  | .unsupportedFileType path => "Unsupported file type: " ++ path.toString
  | .closed name => name ++ " is closed"

end ProjectIndex
