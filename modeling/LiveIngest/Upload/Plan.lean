import LiveIngest.Config
import LiveIngest.Form.Boundary
import LiveIngest.Http.Headers
import LiveIngest.Text.Decimal

/-!
# What an upload asks for

Before any byte of a body is read, the path and the headers of a request decide what is to be done
with it.  Uploads under `/dash` are chunked: named by their label or numbered by the sequencer,
whichever the configuration says.  All others append to the raw output file, either the body itself
(raw media) or one field of it (a form), as the content type says.

The declared length is checked last.  Chunked uploads may be empty; form uploads may not, and raw
uploads only if the configuration accepts that.

A label is reduced to its last component before it becomes a file name, so no directory a client
sends reaches the disk; the raw output file and the names of files in flight are reserved.
-/

namespace LiveIngest.Upload

open LiveIngest.Text

/-- How an upload is stored. -/
inductive Mode
  /-- The body is appended to the raw output file. -/
  | rawAppend
  /-- One field of the form in the body is appended to the raw output file. -/
  | form (boundary field : String)
  /-- The body replaces the file that the client's label names. -/
  | addressed (fileName : String)
  /-- The body becomes the next segment. -/
  | sequenced (hint : Option Segment.Kind)
deriving DecidableEq, Repr

/-- Whether a file keeps its content when an upload is written to it. -/
inductive WriteMode
  | append
  | truncate
deriving DecidableEq, Repr

def WriteMode.name : WriteMode → String
  | .append => "append"
  | .truncate => "truncate"

namespace Mode

/-- The name of a mode in the log. -/
def name : Mode → String
  | .rawAppend => "raw_media_append"
  | .form .. => "multipart_upload"
  | .addressed _ => "path_addressed_write"
  | .sequenced _ => "sequenced_chunk"

def writeMode : Mode → WriteMode
  | .rawAppend => .append
  | .form .. => .append
  | .addressed _ => .truncate
  | .sequenced _ => .truncate

/-- Whether a mode belongs to chunked uploads. -/
def isChunked : Mode → Bool
  | .addressed _ => true
  | .sequenced _ => true
  | _ => false

end Mode

/-- What is to be done with an upload, and how many bytes of its body count. -/
structure Plan where
  mode : Mode
  length : Nat
deriving DecidableEq, Repr

/-- What the path of chunked uploads starts with. -/
def chunkedPath : String := "/dash"

/-- Whether a character separates the components of a label, in either style. -/
def isSeparator (c : Char) : Bool := c == '/' || c == '\\'

/-- The file name that a client's label stands for. -/
def fileNameOf (contentId : String) : Except Rejection String :=
  let base := trim ((splitOn isSeparator contentId.toList).getLastD [])
  if base = [] ∨ base = ['.'] ∨ base = ['.', '.'] then .error .emptyContentId
  else .ok (String.ofList base)

/-- What the name of a file in flight ends in. -/
def partSuffix : String := ".part"

/-- Whether a name is that of a file in flight. -/
def isPartName (name : String) : Bool :=
  decide (partSuffix.utf8ByteSize < name.utf8ByteSize) && name.toList.head? == some '.'
    && endsWith name.toList partSuffix.toList

/-- The name that a file has while it is in flight. -/
def partName (fileName : String) : String := "." ++ fileName ++ partSuffix

/-- How a chunked upload is stored. -/
def chunkedMode (config : Config) (headers : Http.Headers) : Except Rejection Mode :=
  match config.dashMode with
  | .sequenced => .ok (.sequenced (headers.contentId?.bind Segment.Kind.ofContentId?))
  | .contentId =>
    match headers.contentId? with
    | none => .error .missingContentId
    | some contentId =>
      match fileNameOf contentId with
      | .error e => .error e
      | .ok fileName =>
        if fileName = config.rawOutputFile ∨ isPartName fileName then
          .error (.reservedContentId fileName)
        else .ok (.addressed fileName)

/-- How an upload that is not chunked is stored. -/
def wholeMode (config : Config) (headers : Http.Headers) : Except Rejection Mode :=
  let contentType := headers.contentType?.getD ""
  let essence := Http.mediaType contentType
  if essence = "multipart/form-data" then
    match Form.boundaryOf? contentType with
    | none => .error .missingBoundary
    | some boundary =>
      match Form.checkBoundary boundary with
      | .error fault => .error (.badBoundary fault)
      | .ok () => .ok (.form boundary config.uploadField)
  else if essence ≠ "" ∧ essence = Http.mediaType config.rawMediaType then .ok .rawAppend
  else .error .unsupportedContentType

/-- How an upload is stored. -/
def modeOf (config : Config) (path : String) (headers : Http.Headers) : Except Rejection Mode :=
  if chunkedPath.toList.isPrefixOf path.toList then chunkedMode config headers
  else wholeMode config headers

/-- The length that a request declares. -/
def declaredLength (config : Config) (headers : Http.Headers) : Except Rejection Nat :=
  match headers.contentLength? with
  | none => .error .missingLength
  | some value =>
    match parseUpTo maxWord value.toList with
    | .error _ => .error (.invalidLength value)
    | .ok length =>
      if config.maxUploadBytes < length then .error (.lengthOverLimit length config.maxUploadBytes)
      else .ok length

/-- Whether a mode takes an upload without any bytes. -/
def Mode.takesEmpty (config : Config) : Mode → Bool
  | .rawAppend => config.emptyRawPost == .accept
  | .form .. => false
  | .addressed _ => true
  | .sequenced _ => true

/-- What is to be done with the upload that arrives at `path` with `headers`. -/
def classify (config : Config) (path : String) (headers : Http.Headers) : Except Rejection Plan :=
  match modeOf config path headers with
  | .error e => .error e
  | .ok mode =>
    match declaredLength config headers with
    | .error e => .error e
    | .ok length =>
      if length = 0 ∧ ¬mode.takesEmpty config then .error .missingLength
      else .ok ⟨mode, length⟩

end LiveIngest.Upload
