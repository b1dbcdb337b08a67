import LiveIngest.Form.Error
import LiveIngest.Segment
import LiveIngest.Storage.Errno
import LiveIngest.Time.Span

/-!
# What can go wrong

Every failure belongs to one of seven kinds.  The first three arise while an upload is handled and
decide its reply: a request that cannot be understood (`classification`), a body or a file that
cannot be read or written (`write`), and a chunk out of turn (`sequence`).  The others arise at
start-up.

A failure is a cause with its data; its wording is made here and nowhere else.  The wording of a
start-up failure opens with a heading that names its kind.
-/

namespace LiveIngest

/-- The kinds of failure. -/
inductive ErrorKind
  | classification
  | write
  | sequence
  | configuration
  | io
  | api
  | other
deriving DecidableEq, Repr

/-- The short name of a kind, as it appears in the log. -/
def ErrorKind.name : ErrorKind → String
  | .classification => "classification"
  | .write => "write"
  | .sequence => "sequence"
  | .configuration => "configuration"
  | .io => "io"
  | .api => "api"
  | .other => "other"

/-- What the wording of a failure of this kind opens with. -/
def ErrorKind.heading : ErrorKind → String
  | .configuration => "Configuration error: "
  | .api => "API error: "
  | _ => ""

/-- Why a request is refused. -/
inductive Rejection
  | missingLength
  | invalidLength (value : String)
  | lengthOverLimit (length limit : Nat)
  | missingContentId
  | emptyContentId
  | reservedContentId (fileName : String)
  | missingBoundary
  | badBoundary (fault : Form.BoundaryFault)
  | unsupportedContentType
  | malformedForm (cause : Form.FormError)
  | missingField (field : String)
deriving DecidableEq, Repr

def Rejection.message : Rejection → String
  | .missingLength => "missing or zero content-length"
  | .invalidLength value => "invalid content-length '" ++ value ++ "'"
  | .lengthOverLimit length limit =>
    s!"content-length {length} exceeds the {limit} byte upload limit"
  | .missingContentId => "missing content id"
  | .emptyContentId => "empty content id"
  | .reservedContentId fileName => "reserved content id '" ++ fileName ++ "'"
  | .missingBoundary => "missing multipart boundary"
  | .badBoundary fault =>
    "bad multipart boundary: " ++ (Form.FormError.invalidBoundary fault).message
  | .unsupportedContentType => "unsupported content type"
  | .malformedForm cause => "malformed multipart body: " ++ cause.message
  | .missingField field => "missing form field '" ++ field ++ "'"

/-- Why a body was not received in full. -/
inductive BodyFault
  /-- The time for the whole body ran out. -/
  | tooSlow (received declared : Nat)
  /-- Nothing came for the length of the read timeout. -/
  | noData (timeout : Span) (received declared : Nat)
  /-- The body ended, or its connection broke for the stated reason. -/
  | truncated (received declared : Nat) (reason : Option String)
deriving DecidableEq, Repr

def BodyFault.message : BodyFault → String
  | .tooSlow received declared =>
    s!"timeout: body too slow, received {received} of {declared} bytes before the deadline"
  | .noData timeout received declared =>
    "timeout: no body data for " ++ timeout.text ++ s!" after {received} of {declared} bytes"
  | .truncated received declared none =>
    s!"truncated body: received {received} of {declared} bytes"
  | .truncated received declared (some reason) =>
    s!"truncated body: received {received} of {declared} bytes ({reason})"

/-- The file operations that storing an upload consists of. -/
inductive FileStep
  | opening
  | appending
  | creating
  | writing
  | flushing
  | syncing
  | renaming
deriving DecidableEq, Repr

def FileStep.words : FileStep → String
  | .opening => "opening"
  | .appending => "appending to"
  | .creating => "creating"
  | .writing => "writing"
  | .flushing => "flushing"
  | .syncing => "syncing"
  | .renaming => "renaming into"

/-- Why an upload was not stored. -/
inductive WriteFault
  | body (fault : BodyFault)
  | file (step : FileStep) (path : String) (errno : Storage.Errno)
deriving DecidableEq, Repr

def WriteFault.message : WriteFault → String
  | .body fault => fault.message
  | .file step path errno => "failed " ++ step.words ++ " " ++ path ++ ": " ++ errno.message

/-- Why the sequencer refuses a step. -/
inductive SequenceFault
  | alreadyIssued (index : Nat)
  | outOfOrder (expected : Segment.Kind) (index : Nat) (sent : Segment.Kind)
  | staleCommit (index current : Nat)
deriving DecidableEq, Repr

def SequenceFault.message : SequenceFault → String
  | .alreadyIssued index => s!"sequence index {index} was already issued to this upload"
  | .outOfOrder expected index sent =>
    s!"out of order upload: expected {expected.name} at sequence index {index}, client sent "
      ++ sent.name
  | .staleCommit index current =>
    s!"cannot commit sequence index {index} while the counter is at {current}"

/-- Why a configuration is refused. -/
inductive ConfigFault
  | streamName (value : String)
  | rawOutputFile (value : String)
  | uploadField
  | rawMediaType (value : String)
  | readTimeout
  | maxUpload
deriving DecidableEq, Repr

def ConfigFault.message : ConfigFault → String
  | .streamName value => "stream name must be a plain file name, got '" ++ value ++ "'"
  | .rawOutputFile value => "raw output file must be a plain file name, got '" ++ value ++ "'"
  | .uploadField => "upload field name must not be empty"
  | .rawMediaType value => "raw media type must look like type/subtype, got '" ++ value ++ "'"
  | .readTimeout => "read timeout must be greater than zero"
  | .maxUpload => "max upload size must be greater than zero"

/-- What is done to a path at start-up. -/
inductive Housekeeping
  | creatingDirectory
  | creatingLogDirectory
  | removingFile
deriving DecidableEq, Repr

def Housekeeping.words : Housekeeping → String
  | .creatingDirectory => "creating directory"
  | .creatingLogDirectory => "creating log directory"
  | .removingFile => "removing file"

/-- Why the server cannot listen. -/
inductive ListenFault
  | invalidAddress
  | bind (address : String) (errno : Storage.Errno)
deriving DecidableEq, Repr

def ListenFault.message : ListenFault → String
  | .invalidAddress => "Invalid address: invalid socket address syntax"
  | .bind address errno => "Failed to bind " ++ address ++ ": " ++ errno.message

/-- A failure. -/
inductive Error
  | classification (cause : Rejection)
  | write (cause : WriteFault)
  | sequence (cause : SequenceFault)
  | configuration (cause : ConfigFault)
  | io (what : Housekeeping) (path : String) (errno : Storage.Errno)
  | api (cause : ListenFault)
  | loggerTaken
deriving DecidableEq, Repr

namespace Error

def kind : Error → ErrorKind
  | .classification _ => .classification
  | .write _ => .write
  | .sequence _ => .sequence
  | .configuration _ => .configuration
  | .io .. => .io
  | .api _ => .api
  | .loggerTaken => .other

/-- The wording of a failed file operation at start-up. -/
def ioMessage (operation path reason : String) : String :=
  "IO error while " ++ operation ++ " " ++ path ++ ": " ++ reason

/-- The wording of a failure without the heading of its kind. -/
def detail : Error → String
  | .classification cause => cause.message
  | .write cause => cause.message
  | .sequence cause => cause.message
  | .configuration cause => cause.message
  | .io what path errno => ioMessage what.words path errno.message
  | .api cause => cause.message
  | .loggerTaken =>
    "Failed to set global default subscriber: a global default trace dispatcher has already been set"

/-- The wording of a failure. -/
def message (e : Error) : String := e.kind.heading ++ e.detail

end Error

end LiveIngest
