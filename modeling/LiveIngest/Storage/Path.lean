import LiveIngest.Text.Split

/-!
# Paths as text

A path is text with `/` between its components.  Joining and taking apart work on the text alone,
without looking at the disk; the text is kept as it was given, so `out/` and `out` stay different
on paper.

Repeated separators and `.` components count for nothing when a path is taken apart, except a `.`
at the very front.  `trimTail` removes such a tail; it works on the reversed text, because paths
are taken apart from behind.
-/

namespace LiveIngest.Storage.Path

/-- Drops separators and `.` components from the end of a path; the text is given reversed. -/
def trimTail : List Char → List Char
  | ['/'] => ['/']
  | '/' :: r => trimTail r
  | '.' :: '/' :: r => trimTail ('/' :: r)
  | s => s

/-- The last component of a reversed path that has no tail to trim. -/
def lastComponent (reversed : List Char) : List Char := (reversed.takeWhile (· ≠ '/')).reverse

/-- The last component of a path, unless that is the root, `.` or `..`. -/
def fileName? (path : String) : Option String :=
  let name := lastComponent (trimTail path.toList.reverse)
  if name = [] ∨ name = ['.'] ∨ name = ['.', '.'] then none else some (String.ofList name)

/-- The path without its last component; nothing for the root and for the empty path. -/
def parent? (path : String) : Option String :=
  match trimTail path.toList.reverse with
  | [] => none
  | ['/'] => none
  | reversed => some (String.ofList (trimTail (reversed.dropWhile (· ≠ '/'))).reverse)

/-- Whether a path starts at the root. -/
def isAbsolute (path : String) : Bool := path.toList.head? == some '/'

/-- The path of `name` seen from `base`; an absolute `name` stands for itself. -/
def join (base name : String) : String :=
  if isAbsolute name then name
  else if base.toList = [] ∨ base.toList.getLast? = some '/' then base ++ name
  else base ++ "/" ++ name

/-- The path with its last component replaced by `name`; where there is none to replace, `name` is
joined on. -/
def withFileName (path name : String) : String :=
  match fileName? path, parent? path with
  | some _, some parent => join parent name
  | _, _ => join path name

/-- How a path is named in reports that leave its directory out. -/
def displayName (path : String) : String := (fileName? path).getD path

/-- The non-empty components of a path, in order. -/
def components (path : String) : List String :=
  ((Text.splitOn (· = '/') path.toList).filter fun piece => !piece.isEmpty).map String.ofList

/-- Whether a path insists on a directory by ending in a separator. -/
def endsInSeparator (path : String) : Bool := path.toList.getLast? == some '/'

end LiveIngest.Storage.Path
