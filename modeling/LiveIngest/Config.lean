import LiveIngest.Error
import LiveIngest.Storage.Path
import LiveIngest.Text.Blank
import LiveIngest.Text.Split

/-!
# Configuration

What an ingest endpoint is set up with: where files go, how they are named, what is accepted, and
how patient it is with a slow body.

`Config.validate` refuses settings under which files could be written outside the output directory
or every request would fail.  Names must be bare: not empty, no dot names, no separator of either
style.  The checks run in a fixed order and the first that fails is reported.
-/

namespace LiveIngest

open LiveIngest.Text

/-- How uploads under the chunked path are named. -/
inductive DashMode
  /-- By the order in which they arrive. -/
  | sequenced
  /-- By the label that the client sends with them. -/
  | contentId
deriving DecidableEq, Repr

def DashMode.name : DashMode → String
  | .sequenced => "sequenced"
  | .contentId => "content-id"

def DashMode.ofName? (name : String) : Option DashMode :=
  [DashMode.sequenced, .contentId].find? (·.name == name)

/-- What is done with a raw upload that declares no bytes. -/
inductive EmptyRawPost
  | reject
  | accept
deriving DecidableEq, Repr

def EmptyRawPost.name : EmptyRawPost → String
  | .reject => "reject"
  | .accept => "accept"

def EmptyRawPost.ofName? (name : String) : Option EmptyRawPost :=
  [EmptyRawPost.reject, .accept].find? (·.name == name)

/-- The settings of an ingest endpoint, with their defaults. -/
structure Config where
  /-- The directory that all files are written to. -/
  outputDir : String := "."
  /-- The base name of the files of a sequenced stream. -/
  streamName : String := "webmlive"
  /-- The form field that carries the payload. -/
  uploadField : String := "webm_file"
  /-- The content type of raw uploads. -/
  rawMediaType : String := "video/webm"
  /-- The file that raw and form uploads are appended to. -/
  rawOutputFile : String := "test.webm"
  dashMode : DashMode := .sequenced
  emptyRawPost : EmptyRawPost := .reject
  /-- The longest wait for the next piece of a body. -/
  readTimeout : Span := Span.ofSeconds 30
  /-- The largest declared length that is accepted. -/
  maxUploadBytes : Nat := 256 * 1024 * 1024
deriving DecidableEq, Repr

namespace Config

/-- Whether a name is a plain file name: it names an entry of its directory and nothing else. -/
def isBareName (name : String) : Bool :=
  let text := name.toList
  !(text == []) && !(text == ['.']) && !(text == ['.', '.'])
    && !text.contains '/' && !text.contains '\\'

/-- Whether a text looks like `type/subtype`, neither side blank. -/
def looksLikeMediaType (text : String) : Bool :=
  match cut '/' text.toList with
  | some (type, subtype) => !(trim type == []) && !(trim subtype == [])
  | none => false

/-- Refuses settings that could not work or would be unsafe. -/
def validate (c : Config) : Except ConfigFault Unit :=
  if ¬isBareName c.streamName then .error (.streamName c.streamName)
  else if ¬isBareName c.rawOutputFile then .error (.rawOutputFile c.rawOutputFile)
  else if trim c.uploadField.toList = [] then .error .uploadField
  else if ¬looksLikeMediaType c.rawMediaType then .error (.rawMediaType c.rawMediaType)
  else if c.readTimeout.nanos = 0 then .error .readTimeout
  else if c.maxUploadBytes = 0 then .error .maxUpload
  else .ok ()

/-- The path of a file of the output directory. -/
def destination (c : Config) (fileName : String) : String :=
  Storage.Path.join c.outputDir fileName

/-- The path of the file that raw and form uploads are appended to. -/
def rawOutputPath (c : Config) : String := c.destination c.rawOutputFile

end Config

end LiveIngest
