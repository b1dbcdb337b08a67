import LiveIngest.Body.Buffering
import LiveIngest.Storage.Handle
import LiveIngest.Upload.Event

/-!
# Storing payloads

A payload is stored in one of two ways, and either way an upload whose body ends early is not seen under its
final name.

* Appending: the whole payload is in memory when the file is opened; it is written at the end,
  flushed and synced.  What was written before one of these steps failed stays.
* Overwriting: the body is streamed into a hidden file beside the destination, the part file, which
  is synced and then renamed over the destination.  If anything goes wrong on the way, the part
  file is removed again.

Streaming is a loop of its own beside the one that collects a body in memory: `Streaming.step` is
one turn of it, waiting for a piece and writing what counts of it.
-/

namespace LiveIngest.Upload

open LiveIngest.Body
open LiveIngest.Storage

/-- Whether two results are the same can be told where it can be told of what they carry. -/
instance decidableEqExcept {ε α : Type} [DecidableEq ε] [DecidableEq α] :
    DecidableEq (Except ε α)
  | .ok a, .ok b => decidable_of_iff (a = b) ⟨congrArg _, Except.ok.inj⟩
  | .error e, .error f => decidable_of_iff (e = f) ⟨congrArg _, Except.error.inj⟩
  | .ok _, .error _ => isFalse nofun
  | .error _, .ok _ => isFalse nofun

/-- What was stored, and where. -/
structure Outcome where
  destination : String
  bytes : Nat
deriving DecidableEq, Repr

/-- The failure of a file operation, as the end of an activity. -/
def fileFault (step : FileStep) (path : String) (errno : Errno) : Stop :=
  .failed (.write (.file step path errno))

/-- Flushes and syncs an open file. -/
def settle (handle : Handle) (path : String) : Except Stop Unit :=
  match handle.flush with
  | .error e => .error (fileFault .flushing path e)
  | .ok () =>
    match handle.sync with
    | .error e => .error (fileFault .syncing path e)
    | .ok () => .ok ()

/-- Appends a payload to a file, creating it if needed. -/
def appendPayload (t : Tree) (destination : String) (payload : Bytes) : Except Stop Unit × Tree :=
  match t.openAppend destination with
  | .error e => (.error (fileFault .opening destination e), t)
  | .ok (target, t₁) =>
    match (Handle.atEnd target).write t₁ payload with
    | (.error e, t₂) => (.error (fileFault .appending destination e), t₂)
    | (.ok handle, t₂) => (settle handle destination, t₂)

/-! ## The part file -/

/-- The part file of a destination: a hidden file beside it. -/
def partPath (destination : String) : String :=
  Path.withFileName destination (partName ((Path.fileName? destination).getD ""))

/-- Removes a part file that is not wanted any more; it may never have been created. -/
def dropPart (t : Tree) (part : String) : Tree × List Event :=
  match t.unlink part with
  | .ok t' => (t', [])
  | .error .notFound => (t, [])
  | .error e => (t, [.partLeft part e])

/-- A body being streamed into a part file. -/
structure Streaming where
  reading : Reading
  handle : Handle
deriving DecidableEq, Repr

/-- Creates the part file and starts to stream a body into it; this fails if the file cannot be
created or if the deadline of the body cannot be computed. -/
def startStreaming (timeout : Span) (declared start : Nat) (body : Schedule) (part : String)
    (t : Tree) : Except Stop Streaming × Tree :=
  match t.create part with
  | .error e => (.error (fileFault .creating part e), t)
  | .ok (target, t') =>
    let reading := Reading.begin timeout declared start body
    if reading.reaches reading.deadline then (.ok ⟨reading, Handle.fresh target⟩, t')
    else (.error .overflow, t')

namespace Streaming

/-- One turn of the loop. -/
def step (s : Streaming) (part : String) (t : Tree) : Turn Streaming Unit × Tree :=
  if s.reading.remaining = 0 then (.done (settle s.handle part) s.reading, t)
  else
    match s.reading.await with
    | .overflow => (.done (.error .overflow) s.reading, t)
    | .failed fault after => (.done (.error (.failed (.write (.body fault)))) after, t)
    | .piece bytes after =>
      let (counted, reading) := after.accept bytes
      match s.handle.write t counted with
      | (.error e, t') => (.done (.error (fileFault .writing part e)) reading, t')
      | (.ok handle, t') => (.again ⟨reading, handle⟩, t')

theorem step_shorter {s s' : Streaming} {part : String} {t t' : Tree}
    (h : s.step part t = (.again s', t')) : s'.reading.rest.length < s.reading.rest.length := by
  unfold step at h
  split at h
  · simp at h
  · split at h
    · simp at h
    · simp at h
    · rename_i bytes after ha
      have hlt := Reading.await_shorter ha
      simp only [Reading.accept] at h
      split at h
      · simp at h
      · simp only [Prod.mk.injEq, Turn.again.injEq] at h
        rw [← h.1]
        exact hlt

/-- Repeats the turn to its end; the reading returned is where it stopped. -/
def run (s : Streaming) (part : String) (t : Tree) : (Except Stop Unit × Reading) × Tree :=
  match _next : s.step part t with
  | (.done result reading, t') => ((result, reading), t')
  | (.again s', t') => s'.run part t'
termination_by s.reading.rest.length
decreasing_by exact step_shorter _next

end Streaming

/-- Renames a complete part file over its destination. -/
def publish (t : Tree) (part destination : String) : Except Stop Unit × Tree :=
  match t.rename part destination with
  | .error e => (.error (fileFault .renaming destination e), t)
  | .ok t' => (.ok (), t')

/-! ## Writing a body -/

/-- What writing a body came to: the result, how far the body was read, what was logged, and the
disk afterwards. -/
structure Writing (α : Type) where
  result : Except Stop α
  reading : Reading
  events : List Event
  tree : Tree

/-- Appends a payload that was read, and logs that. -/
def appendRead (payload : Bytes) (destination : String) (reading : Reading) (t : Tree) :
    Writing Outcome :=
  match appendPayload t destination payload with
  | (.error stop, t') => ⟨.error stop, reading, [], t'⟩
  | (.ok (), t') =>
    ⟨.ok ⟨destination, payload.length⟩, reading, [.appended destination payload.length], t'⟩

/-- Streams a body into the part file of a destination and publishes it. -/
def stream (timeout : Span) (declared start : Nat) (body : Schedule) (destination : String)
    (t : Tree) : (Except Stop Unit × Reading) × Tree :=
  let part := partPath destination
  match startStreaming timeout declared start body part t with
  | (.error stop, t') => ((.error stop, Reading.begin timeout declared start body), t')
  | (.ok s, t') =>
    match s.run part t' with
    | ((.error stop, reading), t'') => ((.error stop, reading), t'')
    | ((.ok (), reading), t'') =>
      let (result, t''') := publish t'' part destination
      ((result, reading), t''')

/-- Replaces a file by the first `declared` bytes of a body. -/
def overwrite (timeout : Span) (declared start : Nat) (body : Schedule) (destination : String)
    (t : Tree) : Writing Outcome :=
  match stream timeout declared start body destination t with
  | ((.ok (), reading), t') =>
    ⟨.ok ⟨destination, declared⟩, reading, [.overwritten destination declared], t'⟩
  | ((.error stop, reading), t') =>
    let (t'', events) := dropPart t' (partPath destination)
    ⟨.error stop, reading, events, t''⟩

/-- Writes the first `declared` bytes of a body to a file. -/
def write (timeout : Span) (declared start : Nat) (body : Schedule) (mode : WriteMode)
    (destination : String) (t : Tree) : Writing Outcome :=
  match mode with
  | .truncate => overwrite timeout declared start body destination t
  | .append =>
    match readBody timeout declared start body with
    | (.error stop, reading) => ⟨.error stop, reading, [], t⟩
    | (.ok payload, reading) => appendRead payload destination reading t

end LiveIngest.Upload
