/-!
# Causes of failed file operations

A file operation fails for one of these causes.  All but one come from the operating system and
carry its number in their wording; a path that holds a NUL never reaches the system.
-/

namespace LiveIngest.Storage

/-- Why a file operation failed. -/
inductive Errno
  | notFound
  | busy
  | fileExists
  | notDirectory
  | isDirectory
  | invalid
  | noSpace
  | nameTooLong
  | linkLoop
  | addressInUse
  | nulInPath
deriving DecidableEq, Repr

def Errno.message : Errno → String
  | .notFound => "No such file or directory (os error 2)"
  | .busy => "Device or resource busy (os error 16)"
  | .fileExists => "File exists (os error 17)"
  | .notDirectory => "Not a directory (os error 20)"
  | .isDirectory => "Is a directory (os error 21)"
  | .invalid => "Invalid argument (os error 22)"
  | .noSpace => "No space left on device (os error 28)"
  | .nameTooLong => "File name too long (os error 36)"
  | .linkLoop => "Too many levels of symbolic links (os error 40)"
  | .addressInUse => "Address already in use (os error 98)"
  | .nulInPath => "file name contained an unexpected NUL byte"

end LiveIngest.Storage
