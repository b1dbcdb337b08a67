/-!
# What can be wrong with a form

A form body is refused for one of nine causes.  The causes carry what the report needs: the
offset of a broken delimiter, the offending header line, the size limit that was passed.  The
wording lives in one place, `FormError.message`.
-/

namespace LiveIngest.Form

/-- Why a text cannot serve as a boundary. -/
inductive BoundaryFault
  | empty
  | tooLong
  | trailingSpace
  | foreignCharacter
deriving DecidableEq, Repr

/-- Why a body is not a form. -/
inductive FormError
  | invalidBoundary (fault : BoundaryFault)
  | missingOpeningBoundary
  | malformedDelimiter (offset : Nat)
  | missingClosingBoundary
  | headersTooLarge (limit : Nat)
  | malformedHeader (line : String)
  | missingDisposition
  | missingName
  | emptyForm
deriving DecidableEq, Repr

/-- The wording of a refused boundary. -/
def BoundaryFault.message : BoundaryFault → String
  | .empty => "empty"
  | .tooLong => "longer than 70 characters"
  | .trailingSpace => "ends with a space"
  | .foreignCharacter => "contains a character outside bchars"

/-- The wording of a refused body. -/
def FormError.message : FormError → String
  | .invalidBoundary fault => "invalid boundary: " ++ fault.message
  | .missingOpeningBoundary => "body does not contain an opening boundary delimiter"
  | .malformedDelimiter offset => s!"malformed boundary delimiter at offset {offset}"
  | .missingClosingBoundary => "body ends before the closing boundary delimiter"
  | .headersTooLarge limit => s!"part headers exceed {limit} bytes"
  | .malformedHeader line => s!"malformed part header line: {line}"
  | .missingDisposition => "part has no form-data content-disposition"
  | .missingName => "content-disposition has no name parameter"
  | .emptyForm => "form contains no parts"

end LiveIngest.Form
