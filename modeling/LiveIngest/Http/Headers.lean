import LiveIngest.Bytes
import LiveIngest.Text.Ascii
import LiveIngest.Text.Blank
import LiveIngest.Text.Split

/-!
# Request headers

The headers of a request are kept in the order in which they came, names as sent, values as bytes.
A look-up compares names without regard to case and takes the last header of that name.  A value
is usable only when it is visible ASCII (tabs allowed); otherwise the header counts as absent, even
if an earlier one of the same name was usable.  What a look-up returns is trimmed.

The media type of a content type is what stands before its parameters, trimmed and in small
letters.
-/

namespace LiveIngest.Http

open LiveIngest.Text

/-- One header line of a request. -/
structure HeaderLine where
  name : String
  value : Bytes
deriving DecidableEq, Repr

/-- The headers of a request, in order. -/
abbrev Headers := List HeaderLine

/-- Whether a byte may stand in a header value that is read as text. -/
def isVisible (b : UInt8) : Bool := b == 9 || (32 ≤ b && b < 127)

/-- A header value as text, if it is visible ASCII. -/
def visibleText? (value : Bytes) : Option (List Char) :=
  if value.all isVisible then some (value.map fun b => Char.ofNat b.toNat) else none

/-- The value of the last header of that name, trimmed. -/
def Headers.get? (headers : Headers) (name : String) : Option String :=
  match headers.reverse.find? fun h => sameFolded h.name.toList name.toList with
  | none => none
  | some h => (visibleText? h.value).map fun text => String.ofList (trim text)

def Headers.contentType? (headers : Headers) : Option String := headers.get? "content-type"

def Headers.contentLength? (headers : Headers) : Option String := headers.get? "content-length"

/-- The name that the client gives to a segment. -/
def Headers.contentId? (headers : Headers) : Option String := headers.get? "x-content-id"

/-- The media type of a content type, without parameters and in small letters. -/
def mediaType (contentType : String) : String :=
  String.ofList (lower (trim ((splitOn (· = ';') contentType.toList).headD [])))

end LiveIngest.Http
