namespace WorkflowAudit.Files

inductive Error
  | notFound
  | alreadyExists
  | notDirectory
  | isDirectory
  | nameTooLong
  | denied
  | failed
  | zeroInPath
  | notText
  deriving DecidableEq, Repr

def Error.message : Error → String
  | .notFound => "No such file or directory (os error 2)"
  | .alreadyExists => "File exists (os error 17)"
  | .notDirectory => "Not a directory (os error 20)"
  | .isDirectory => "Is a directory (os error 21)"
  | .nameTooLong => "File name too long (os error 36)"
  | .denied => "Permission denied (os error 13)"
  | .failed => "Input/output error (os error 5)"
  | .zeroInPath => "file name contained an unexpected NUL byte"
  | .notText => "stream did not contain valid UTF-8"

end WorkflowAudit.Files
