import LiveIngest.Bytes
import LiveIngest.Form.Error
import LiveIngest.Text.Ascii
import LiveIngest.Text.Blank
import LiveIngest.Text.Quoted
import LiveIngest.Text.Split

/-!
# Boundaries

The parts of a form are kept apart by a boundary that the sender chooses: one to seventy
characters from a small alphabet, the last of them not a space.  `checkBoundary` is that grammar;
the faults are tried in the order empty, too long, trailing space, foreign character, and the
length is counted in bytes.

The boundary is announced as a parameter of the content type.  `boundaryOf?` looks it up: the
pieces behind the first `;` are searched for the first one whose key, trimmed and folded, is
`boundary`.  The search cuts at every `;` and does not look at quotes.
-/

namespace LiveIngest.Form

open LiveIngest.Text

/-- The longest boundary, in bytes. -/
def maxBoundaryLength : Nat := 70

/-- The characters a boundary is made of. -/
def isBoundaryChar (c : Char) : Bool :=
  c.isAlphanum || "'()+_,-./:=? ".toList.contains c

/-- The grammar of boundaries. -/
def checkBoundary (boundary : String) : Except BoundaryFault Unit :=
  let text := boundary.toList
  if text = [] then .error .empty
  else if maxBoundaryLength < (Bytes.ofString boundary).length then .error .tooLong
  else if text.getLast? = some ' ' then .error .trailingSpace
  else if text.all isBoundaryChar then .ok ()
  else .error .foreignCharacter

/-- The value of a `boundary=…` piece, nothing for any other piece. -/
def boundaryValue? (piece : List Char) : Option (List Char) :=
  match cut '=' piece with
  | some (key, value) =>
    if sameFolded (trim key) "boundary".toList then some (unquote (trim value)) else none
  | none => none

/-- The boundary that a content type announces. -/
def boundaryOf? (contentType : String) : Option String :=
  ((splitOn (· = ';') contentType.toList).drop 1).findSome? boundaryValue? |>.map String.ofList

/-- What opens every delimiter line. -/
def delimiter (boundary : String) : Bytes := [45, 45] ++ Bytes.ofString boundary

/-- A delimiter together with the line end in front of it. -/
def separator (boundary : String) : Bytes := Bytes.crlf ++ delimiter boundary

/-- A separator is never shorter than its line end and its two dashes. -/
theorem four_le_length_separator (boundary : String) : 4 ≤ (separator boundary).length := by
  simp [separator, delimiter, Bytes.crlf]

end LiveIngest.Form
