import LiveIngest.Form.Header
import LiveIngest.Text.Params
import LiveIngest.Text.Quoted

/-!
# The parts of a form

A part is a named field: its name, the file name and content type it was sent with, if any, and
its data.  The names come from the content disposition, a parameter list whose head must be
`form-data`; of repeated parameters the last one counts, and a parameter without `=` is skipped.
A part without such a disposition or without a name makes the whole form invalid.
-/

namespace LiveIngest.Form

open LiveIngest.Text

/-- One field of a form. -/
structure Part where
  name : String
  fileName : Option String
  contentType : Option String
  data : Bytes
deriving DecidableEq, Repr

/-- The value of the last parameter whose key is `key`. -/
def lastParam? (key : List Char) (params : List (List Char)) : Option (List Char) :=
  params.reverse.findSome? fun param =>
    match cut '=' param with
    | some (k, value) => if sameFolded (trim k) key then some (unquote (trim value)) else none
    | none => none

/-- The names that a content disposition gives to a part. -/
structure Disposition where
  name : List Char
  fileName : Option (List Char)
deriving DecidableEq, Repr

/-- Reads the value of a content disposition. -/
def Disposition.ofValue (value : List Char) : Except FormError Disposition :=
  match splitParams value with
  | [] => .error .missingDisposition
  | head :: params =>
    if sameFolded (trim head) "form-data".toList then
      match lastParam? "name".toList params with
      | none => .error .missingName
      | some name => .ok ⟨name, lastParam? "filename".toList params⟩
    else .error .missingDisposition

/-- The part that header lines and data make up. -/
def Part.ofHeaders (headers : List Header) (data : Bytes) : Except FormError Part :=
  match Header.last? headers "content-disposition".toList with
  | none => .error .missingDisposition
  | some value =>
    match Disposition.ofValue value with
    | .error e => .error e
    | .ok disposition => .ok {
        name := String.ofList disposition.name
        fileName := disposition.fileName.map String.ofList
        contentType := (Header.last? headers "content-type".toList).map String.ofList
        data := data }

end LiveIngest.Form
