import LiveIngest.Form.Basic
import LiveIngest.Segment.Sequencer
import LiveIngest.Upload.Reply
import LiveIngest.Upload.Writer

/-!
# One upload at a time

An ingest endpoint is its configuration, the disk, the counter of segments and the clock.
`Ingest.dispatch` handles one upload from its headers to its reply, with nobody else around: it
plans, reads, stores, counts and logs, and leaves the endpoint as the next upload finds it.

`Ingest.prepare` is done once before the first upload: it makes the output directory and removes a
raw output file from an earlier run.
-/

namespace LiveIngest.Upload

open LiveIngest.Body
open LiveIngest.Storage

/-- A request to upload a body. -/
structure Request where
  path : String
  headers : Http.Headers
  body : Schedule
deriving DecidableEq, Repr

/-- An ingest endpoint between two uploads. -/
structure Ingest where
  config : Config
  tree : Tree
  /-- The index of the next segment. -/
  counter : Nat
  /-- The milliseconds on the clock. -/
  clock : Nat
deriving DecidableEq, Repr

/-- What handling an upload came to.  There is no reply if the handler broke down. -/
structure Handled where
  reply : Option Reply
  /-- The pieces taken from the body. -/
  taken : Nat
  events : List Event
  ingest : Ingest

/-- What carrying out a plan came to, with the counter afterwards. -/
structure Execution extends Writing Outcome where
  counter : Nat

/-- The events that report the result of an upload. -/
def resultEvents (caller : Caller) (mode : Mode) : Except Stop Outcome → List Event
  | .ok outcome => [.stored caller.path mode outcome.destination outcome.bytes]
  | .error (.failed cause) => [.failed caller (some mode) cause]
  | .error .overflow => []

/-- The reply to the result of an upload. -/
def replyTo? (mode : Mode) : Except Stop Outcome → Option Reply
  | .ok _ => some (Reply.stored (some mode))
  | .error (.failed cause) => some (Reply.failed cause.kind cause.message)
  | .error .overflow => none

/-- The payload of a form upload: the data of the first part of that name. -/
def formPayload (boundary field : String) (body : Bytes) : Except Rejection Bytes :=
  match Form.parse body boundary with
  | .error cause => .error (.malformedForm cause)
  | .ok parts =>
    match Form.field? parts field with
    | none => .error (.missingField field)
    | some part => .ok part.data

namespace Ingest

/-- An endpoint before its first upload. -/
def start (config : Config) (tree : Tree) : Ingest := ⟨config, tree, 0, 0⟩

/-- A body of this endpoint at the start of its reading. -/
def beginReading (g : Ingest) (length : Nat) (body : Schedule) : Reading :=
  Reading.begin g.config.readTimeout length g.clock body

/-- Appends the whole body to the raw output file; an empty one leaves the disk alone. -/
def executeRaw (g : Ingest) (length : Nat) (body : Schedule) : Writing Outcome :=
  let destination := g.config.rawOutputPath
  if length = 0 then ⟨.ok ⟨destination, 0⟩, g.beginReading length body, [], g.tree⟩
  else write g.config.readTimeout length g.clock body .append destination g.tree

/-- Appends one field of the form in the body to the raw output file. -/
def executeForm (g : Ingest) (boundary field : String) (length : Nat) (body : Schedule) :
    Writing Outcome :=
  match readBody g.config.readTimeout length g.clock body with
  | (.error stop, reading) => ⟨.error stop, reading, [], g.tree⟩
  | (.ok bytes, reading) =>
    match formPayload boundary field bytes with
    | .error rejection => ⟨.error (.failed (.classification rejection)), reading, [], g.tree⟩
    | .ok payload => appendRead payload g.config.rawOutputPath reading g.tree

/-- Stores the body as the next segment and moves the counter. -/
def executeSequenced (g : Ingest) (hint : Option Segment.Kind) (length : Nat) (body : Schedule) :
    Execution :=
  match (Segment.Session.begin g.counter).issue g.config.streamName hint with
  | .error fault =>
    { result := .error (.failed (.sequence fault)), reading := g.beginReading length body,
      events := [], tree := g.tree, counter := g.counter }
  | .ok (slot, session) =>
    let w := write g.config.readTimeout length g.clock body .truncate
      (g.config.destination slot.fileName) g.tree
    match w.result with
    | .error _ => { toWriting := w, counter := g.counter }
    | .ok outcome =>
      match session.commit slot.index with
      | .error fault =>
        { w with result := .error (.failed (.sequence fault)), counter := g.counter }
      | .ok session' =>
        { w with
          events := w.events ++ [.segmentStored slot outcome.bytes]
          counter := session'.counter }

/-- Carries out a plan. -/
def execute (g : Ingest) (plan : Plan) (body : Schedule) : Execution :=
  match plan.mode with
  | .rawAppend => { toWriting := g.executeRaw plan.length body, counter := g.counter }
  | .form boundary field =>
    { toWriting := g.executeForm boundary field plan.length body, counter := g.counter }
  | .addressed fileName =>
    { toWriting := write g.config.readTimeout plan.length g.clock body .truncate
        (g.config.destination fileName) g.tree
      counter := g.counter }
  | .sequenced hint => g.executeSequenced hint plan.length body

/-- Handles one upload. -/
def dispatch (g : Ingest) (request : Request) : Handled :=
  let caller := Caller.of request.path request.headers
  match classify g.config request.path request.headers with
  | .error rejection =>
    let cause := Error.classification rejection
    ⟨some (Reply.failed cause.kind cause.message), 0, [.failed caller none cause], g⟩
  | .ok plan =>
    let e := g.execute plan request.body
    ⟨replyTo? plan.mode e.result, e.reading.taken, e.events ++ resultEvents caller plan.mode e.result,
      { g with tree := e.tree, counter := e.counter, clock := e.reading.now }⟩

/-! ## Before the first upload -/

/-- Makes a directory with those it lies in. -/
def ensureDir (what : Housekeeping) (t : Tree) (path : String) : Except Error Unit × Tree :=
  match t.makeDirs path with
  | (.error e, t') => (.error (.io what path e), t')
  | (.ok (), t') => (.ok (), t')

/-- Removes a file and tells whether there was one. -/
def removeIfExists (t : Tree) (path : String) : Except Error (Bool × Tree) :=
  match t.unlink path with
  | .ok t' => .ok (true, t')
  | .error .notFound => .ok (false, t)
  | .error e => .error (.io .removingFile path e)

/-- Makes the output directory and removes the raw output file of an earlier run.  What was done
before a failure stays done. -/
def prepare (g : Ingest) : Except Error (List Event) × Ingest :=
  match ensureDir .creatingDirectory g.tree g.config.outputDir with
  | (.error e, t) => (.error e, { g with tree := t })
  | (.ok (), t) =>
    let path := g.config.rawOutputPath
    match removeIfExists t path with
    | .error e => (.error e, { g with tree := t })
    | .ok (removed, t') =>
      let first := if removed then [Event.previousRemoved path] else []
      (.ok (first ++ [.ready g.config]), { g with tree := t' })

end Ingest

end LiveIngest.Upload
