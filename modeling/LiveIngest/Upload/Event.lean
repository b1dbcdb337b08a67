import LiveIngest.Segment.Sequencer
import LiveIngest.Upload.Plan

/-!
# What is logged

Everything of note that happens to an upload, and at start-up, is an event.  An `Event` carries the
facts; `Event.record` is its written form: a level, the part of the program it comes from, a
message, and named fields.  A field is a number, a text shown as it is, or a text that the log
quotes.
-/

namespace LiveIngest.Upload

/-- How weighty an event is. -/
inductive Level
  | debug
  | info
  | warn
  | error
deriving DecidableEq, Repr

def Level.name : Level → String
  | .debug => "debug"
  | .info => "info"
  | .warn => "warn"
  | .error => "error"

/-- The value of a field. -/
inductive FieldValue
  | number (n : Nat)
  | shown (text : String)
  | quoted (text : String)
deriving DecidableEq, Repr

/-- The written form of an event. -/
structure Record where
  level : Level
  target : String
  message : String
  fields : List (String × FieldValue)
deriving DecidableEq, Repr

/-- What the log repeats of a request: its path, and the headers that decide about it. -/
structure Caller where
  path : String
  contentType : Option String
  contentLength : Option String
  contentId : Option String
deriving DecidableEq, Repr

/-- What the log repeats of a request at `path` with `headers`. -/
def Caller.of (path : String) (headers : Http.Headers) : Caller :=
  ⟨path, headers.contentType?, headers.contentLength?, headers.contentId?⟩

/-- What happened. -/
inductive Event
  /-- A payload was appended to a file. -/
  | appended (destination : String) (bytes : Nat)
  /-- A body replaced a file. -/
  | overwritten (destination : String) (bytes : Nat)
  /-- The file of a failed upload could not be removed. -/
  | partLeft (path : String) (errno : Storage.Errno)
  /-- A segment was stored and counted. -/
  | segmentStored (slot : Segment.Slot) (bytes : Nat)
  /-- An upload was stored. -/
  | stored (path : String) (mode : Mode) (destination : String) (bytes : Nat)
  /-- An upload failed, possibly before its mode was known. -/
  | failed (caller : Caller) (mode : Option Mode) (cause : Error)
  /-- A raw output file from before was removed. -/
  | previousRemoved (path : String)
  /-- The output directory is ready. -/
  | ready (config : Config)
  | starting (version : String)
  | listening (address : String)
  | interrupted
  | shuttingDown
  | stopped
deriving DecidableEq, Repr

/-- The name of the mode of an upload, also of one that was never understood. -/
def modeName : Option Mode → String
  | some mode => mode.name
  | none => "unclassified"

/-- The level and message of a failed upload. -/
def failureHeading : Error → Level × String
  | .classification _ => (.warn, "Rejected upload")
  | .sequence _ => (.error, "Chunked upload arrived out of sequence")
  | _ => (.error, "Upload failed")

/-- The written form of an event. -/
def Event.record : Event → Record
  | .appended destination bytes =>
    ⟨.debug, "webm_ingest::ingest::writer", "Appended upload",
      [("destination", .shown destination), ("bytes", .number bytes)]⟩
  | .overwritten destination bytes =>
    ⟨.debug, "webm_ingest::ingest::writer", "Wrote upload",
      [("destination", .shown destination), ("bytes", .number bytes)]⟩
  | .partLeft path errno =>
    ⟨.warn, "webm_ingest::ingest::writer", "Failed to remove partial upload",
      [("path", .shown path), ("error", .shown errno.message)]⟩
  | .segmentStored slot bytes =>
    ⟨.info, "webm_ingest::ingest::dispatcher", "Stored segment",
      [("index", .number slot.index), ("kind", .shown slot.kind.name),
        ("file", .shown slot.fileName), ("bytes", .number bytes)]⟩
  | .stored path mode destination bytes =>
    ⟨.info, "webm_ingest::ingest::dispatcher", "Upload stored",
      [("path", .quoted path), ("mode", .quoted mode.name),
        ("destination", .shown (Storage.Path.displayName destination)),
        ("bytes", .number bytes)]⟩
  | .failed caller mode cause =>
    ⟨(failureHeading cause).1, "webm_ingest::ingest::dispatcher", (failureHeading cause).2,
      [("kind", .quoted cause.kind.name), ("path", .quoted caller.path),
        ("mode", .quoted (modeName mode)),
        ("content_type", .quoted (caller.contentType.getD "-")),
        ("content_length", .quoted (caller.contentLength.getD "-")),
        ("content_id", .quoted (caller.contentId.getD "-")),
        ("error", .shown cause.message)]⟩
  | .previousRemoved path =>
    ⟨.info, "webm_ingest::ingest::dispatcher", "Removed previous raw output file",
      [("path", .shown path)]⟩
  | .ready config =>
    ⟨.info, "webm_ingest::ingest::dispatcher", "Ingest output ready",
      [("output_dir", .shown config.outputDir), ("stream_name", .shown config.streamName),
        ("dash_mode", .shown config.dashMode.name),
        ("empty_raw_post", .shown config.emptyRawPost.name)]⟩
  | .starting version =>
    ⟨.info, "webm_ingest", "Starting webm-ingest", [("version", .quoted version)]⟩
  | .listening address =>
    ⟨.info, "webm_ingest::api::server", "Ingest server listening on http://" ++ address, []⟩
  | .interrupted => ⟨.info, "webm_ingest", "Received Ctrl-C, stopping", []⟩
  | .shuttingDown => ⟨.info, "webm_ingest::api::server", "Ingest server shutting down...", []⟩
  | .stopped => ⟨.info, "webm_ingest", "webm-ingest stopped", []⟩

end LiveIngest.Upload
