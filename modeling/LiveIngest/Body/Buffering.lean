import LiveIngest.Body.Reading

/-!
# Reading a body into memory

An upload that is appended is first collected in memory, up to its declared length; nothing beyond
that is asked for.  `Buffering.step` is one turn of the loop: it is finished when nothing is
wanted any more, otherwise it waits for one piece and adds what counts of it.

`Buffering.run` repeats the turn to its end.
-/

namespace LiveIngest.Body

/-- Why an activity ended before its time. -/
inductive Stop
  | failed (cause : Error)
  /-- A deadline could not be computed: the handler of the request broke down. -/
  | overflow
deriving DecidableEq, Repr

/-- A body being collected. -/
structure Buffering where
  reading : Reading
  buffer : Bytes
deriving DecidableEq, Repr

/-- What one turn of a reading loop leads to: a further turn, or an end. -/
inductive Turn (σ α : Type)
  | again (state : σ)
  | done (result : Except Stop α) (reading : Reading)

namespace Buffering

/-- One turn of the loop. -/
def step (b : Buffering) : Turn Buffering Bytes :=
  if b.reading.remaining = 0 then .done (.ok b.buffer) b.reading
  else
    match b.reading.await with
    | .overflow => .done (.error .overflow) b.reading
    | .failed fault after => .done (.error (.failed (.write (.body fault)))) after
    | .piece bytes after =>
      let (counted, reading) := after.accept bytes
      .again ⟨reading, b.buffer ++ counted⟩

theorem step_shorter {b b' : Buffering} (h : b.step = .again b') :
    b'.reading.rest.length < b.reading.rest.length := by
  unfold step at h
  split at h
  · simp at h
  · split at h
    · simp at h
    · simp at h
    · rename_i bytes after ha
      simp only [Reading.accept, Turn.again.injEq] at h
      subst h
      exact (Reading.await_shorter ha : after.rest.length < _)

/-- Repeats the turn to its end; the reading returned is where it stopped. -/
def run (b : Buffering) : Except Stop Bytes × Reading :=
  match _next : b.step with
  | .done result reading => (result, reading)
  | .again b' => b'.run
termination_by b.reading.rest.length
decreasing_by exact step_shorter _next

end Buffering

/-- Starts to collect a body; this fails if its deadline cannot be computed. -/
def startBuffering (timeout : Span) (declared start : Nat) (body : Schedule) :
    Except Stop Buffering :=
  let reading := Reading.begin timeout declared start body
  if reading.reaches reading.deadline then .ok ⟨reading, []⟩ else .error .overflow

/-- Collects the first `declared` bytes of a body, starting at the given millisecond. -/
def readBody (timeout : Span) (declared start : Nat) (body : Schedule) :
    Except Stop Bytes × Reading :=
  match startBuffering timeout declared start body with
  | .error stop => (.error stop, Reading.begin timeout declared start body)
  | .ok b => b.run

end LiveIngest.Body
