import LiveIngest.Bytes
import LiveIngest.Form.Error
import LiveIngest.Text.Ascii
import LiveIngest.Text.Blank
import LiveIngest.Text.Split

/-!
# The header block of a part

Between a delimiter line and the data of a part stands a block of header lines, closed by a blank
line.  A part may have no header at all: the blank line then follows the delimiter at once.

A block is refused when it is longer than `maxHeaderBytes`, when it is not text, when a line
starts with a space or a tab (an obsolete folded line), has no colon, or has a blank name.  Names
are kept small-cased and trimmed, values trimmed.  `Header.last?` is the lookup: of repeated
headers the last one counts.
-/

namespace LiveIngest.Form

open LiveIngest.Text

/-- The longest header block of one part, in bytes. -/
def maxHeaderBytes : Nat := 8192

/-- A header of a part: its name in small letters and its value, both trimmed. -/
structure Header where
  name : List Char
  value : List Char
deriving DecidableEq, Repr

/-- Whether a line continues the one before it, in the obsolete folded form. -/
def isFolded : List Char → Bool
  | ' ' :: _ => true
  | '\t' :: _ => true
  | _ => false

/-- Reads one header line. -/
def Header.ofLine (line : List Char) : Except FormError Header :=
  let refused := Except.error (FormError.malformedHeader (String.ofList line))
  if isFolded line then refused
  else match cut ':' line with
    | none => refused
    | some (name, value) =>
      if trim name = [] then refused
      else .ok ⟨lower (trim name), trim value⟩

/-- Reads header lines up to the first refused one. -/
def Header.ofLines : List (List Char) → Except FormError (List Header)
  | [] => .ok []
  | line :: rest =>
    match Header.ofLine line with
    | .error e => .error e
    | .ok header =>
      match Header.ofLines rest with
      | .error e => .error e
      | .ok headers => .ok (header :: headers)

/-- Reads a block of header lines, given without the blank line that closes it. -/
def Header.ofBlock (block : Bytes) : Except FormError (List Header) :=
  match Bytes.text? block with
  | none => .error (.malformedHeader "non UTF-8 header block")
  | some text => Header.ofLines (lines text)

/-- The value of the last header of that name; `name` is given in small letters. -/
def Header.last? (headers : List Header) (name : List Char) : Option (List Char) :=
  (headers.reverse.find? fun h => sameFolded h.name name).map Header.value

end LiveIngest.Form
