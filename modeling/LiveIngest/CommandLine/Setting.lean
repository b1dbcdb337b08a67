import LiveIngest.Config
import LiveIngest.Net.Address
import LiveIngest.Text.Decimal

/-!
# The settings of a run

A run is set up by twelve settings.  Each has a long flag, an environment variable and a line of
help; one has a short flag too.  `Options` holds the values of all of them, and its defaults are
the defaults of the command line.

`Options.set` reads a value, as it is written on the command line or in the environment, into its
place; `Options.text?` writes it out again.  A path must not be empty, a text may be; the numbers
have ranges of their own.
-/

namespace LiveIngest.CommandLine

open LiveIngest.Text

/-- What can be set. -/
inductive Setting
  | port
  | bindAddress
  | outputDir
  | streamName
  | uploadField
  | rawMediaType
  | rawOutputFile
  | dashMode
  | emptyRawPost
  | readTimeout
  | maxUpload
  | logDir
deriving DecidableEq, Repr

namespace Setting

/-- The settings in the order in which they are listed and looked up. -/
def all : List Setting :=
  [.port, .bindAddress, .outputDir, .streamName, .uploadField, .rawMediaType, .rawOutputFile,
    .dashMode, .emptyRawPost, .readTimeout, .maxUpload, .logDir]

/-- The long flag without its dashes. -/
def flag : Setting → String
  | .port => "port"
  | .bindAddress => "bind-address"
  | .outputDir => "output-dir"
  | .streamName => "stream-name"
  | .uploadField => "upload-field-name"
  | .rawMediaType => "raw-media-type"
  | .rawOutputFile => "raw-output-file"
  | .dashMode => "dash-mode"
  | .emptyRawPost => "empty-raw-post"
  | .readTimeout => "read-timeout-secs"
  | .maxUpload => "max-upload-bytes"
  | .logDir => "log-dir"

/-- The short flag without its dash. -/
def short? : Setting → Option Char
  | .port => some 'p'
  | _ => none

/-- The environment variable. -/
def envName : Setting → String
  | .port => "INGEST_PORT"
  | .bindAddress => "INGEST_BIND_ADDRESS"
  | .outputDir => "INGEST_OUTPUT_DIR"
  | .streamName => "INGEST_STREAM_NAME"
  | .uploadField => "INGEST_UPLOAD_FIELD"
  | .rawMediaType => "INGEST_RAW_MEDIA_TYPE"
  | .rawOutputFile => "INGEST_RAW_OUTPUT_FILE"
  | .dashMode => "INGEST_DASH_MODE"
  | .emptyRawPost => "INGEST_EMPTY_RAW_POST"
  | .readTimeout => "INGEST_READ_TIMEOUT_SECS"
  | .maxUpload => "INGEST_MAX_UPLOAD_BYTES"
  | .logDir => "INGEST_LOG_DIR"

/-- What the setting is for, in one line. -/
def summary : Setting → String
  | .port => "Port to listen on"
  | .bindAddress => "Address to bind"
  | .outputDir => "Directory uploads are written to"
  | .streamName => "Base name of sequenced DASH files"
  | .uploadField => "Multipart form field holding the upload"
  | .rawMediaType => "Content-Type accepted for raw uploads"
  | .rawOutputFile => "File raw and multipart uploads are appended to"
  | .dashMode => "How /dash uploads are named: sequenced or content-id"
  | .emptyRawPost => "Raw POSTs with Content-Length 0: reject or accept"
  | .readTimeout => "Seconds to wait for each read from a request body"
  | .maxUpload => "Largest accepted Content-Length in bytes"
  | .logDir => "Also write logs to a daily rolling file in this directory"

/-- What else is to be said about the setting. -/
def details? : Setting → Option String
  | .dashMode => some "Encoders with separate audio and video representations need content-id."
  | _ => none

/-- The name of the value in usage lines: the flag in capitals. -/
def valueName (s : Setting) : String :=
  s.flag.map fun c => if c = '-' then '_' else c.toUpper

/-- How the setting is written on a command line. -/
def usage (s : Setting) : String := "--" ++ s.flag ++ " <" ++ s.valueName ++ ">"

/-- No setting is missing from the list. -/
theorem mem_all (s : Setting) : s ∈ all := by cases s <;> decide

/-- A flag belongs to one setting. -/
theorem flag_injective {a b : Setting} (h : a.flag = b.flag) : a = b := by
  cases a <;> cases b <;> first | rfl | (exact absurd h (by decide))

end Setting

/-- Why a value is refused. -/
inductive ValueFault
  /-- A path is empty, as if there were no value. -/
  | missing
  | number (fault : NumberFault)
  | outOfRange (value : Int) (limit : Nat)
  | noSuchChoice
deriving DecidableEq, Repr

def ValueFault.message : ValueFault → String
  | .missing => "value missing"
  | .number fault => fault.message
  | .outOfRange value limit => s!"{value} is not in 0..={limit}"
  | .noSuchChoice => "Matching variant not found"

/-- The settings with their values. -/
structure Options where
  endpoint : Net.Endpoint := {}
  config : Config := {}
  logDir : Option String := none
deriving DecidableEq, Repr

/-- The largest port. -/
def maxPort : Nat := 65535

/-- Reads a port: any number of up to 63 bits is a number, but only a port is in range. -/
def readPort (value : String) : Except ValueFault Nat :=
  match parseBetween (UInt64.size / 2) (UInt64.size / 2 - 1) value.toList with
  | .error fault => .error (.number fault)
  | .ok n => if 0 ≤ n ∧ n ≤ maxPort then .ok n.toNat else .error (.outOfRange n maxPort)

/-- Reads a number of up to 64 bits. -/
def readWord (value : String) : Except ValueFault Nat :=
  match parseUpTo maxWord value.toList with
  | .error fault => .error (.number fault)
  | .ok n => .ok n

/-- Reads a path. -/
def readPath (value : String) : Except ValueFault String :=
  if value = "" then .error .missing else .ok value

/-- Reads one of some named choices. -/
def readChoice {α : Type} (ofName? : String → Option α) (value : String) : Except ValueFault α :=
  match ofName? value with
  | some choice => .ok choice
  | none => .error .noSuchChoice

namespace Options

/-- The options with one setting read from a text. -/
def set (o : Options) (s : Setting) (value : String) : Except ValueFault Options :=
  let c := o.config
  match s with
  | .port => (readPort value).map fun n => { o with endpoint := { o.endpoint with port := n } }
  | .bindAddress => .ok { o with endpoint := { o.endpoint with bindAddress := value } }
  | .outputDir => (readPath value).map fun p => { o with config := { c with outputDir := p } }
  | .streamName => .ok { o with config := { c with streamName := value } }
  | .uploadField => .ok { o with config := { c with uploadField := value } }
  | .rawMediaType => .ok { o with config := { c with rawMediaType := value } }
  | .rawOutputFile => .ok { o with config := { c with rawOutputFile := value } }
  | .dashMode =>
    (readChoice DashMode.ofName? value).map fun m => { o with config := { c with dashMode := m } }
  | .emptyRawPost =>
    (readChoice EmptyRawPost.ofName? value).map fun m =>
      { o with config := { c with emptyRawPost := m } }
  | .readTimeout =>
    (readWord value).map fun n => { o with config := { c with readTimeout := .ofSeconds n } }
  | .maxUpload => (readWord value).map fun n => { o with config := { c with maxUploadBytes := n } }
  | .logDir => (readPath value).map fun p => { o with logDir := some p }

/-- The text of the value of a setting, if it has one. -/
def text? (o : Options) : Setting → Option String
  | .port => some (toString o.endpoint.port)
  | .bindAddress => some o.endpoint.bindAddress
  | .outputDir => some o.config.outputDir
  | .streamName => some o.config.streamName
  | .uploadField => some o.config.uploadField
  | .rawMediaType => some o.config.rawMediaType
  | .rawOutputFile => some o.config.rawOutputFile
  | .dashMode => some o.config.dashMode.name
  | .emptyRawPost => some o.config.emptyRawPost.name
  | .readTimeout => some (toString o.config.readTimeout.seconds)
  | .maxUpload => some (toString o.config.maxUploadBytes)
  | .logDir => o.logDir

end Options

end LiveIngest.CommandLine
