import LiveIngest.Body.Schedule
import LiveIngest.Error

/-!
# Waiting for a body

A body is read under two deadlines.  Each wait lasts at most the read timeout, counted from the
moment of asking, empty pieces included.  And the whole body has the read timeout plus one second
for every `minBytesPerSecond` bytes it declares, counted from when reading starts.

Time is kept on a clock of whole milliseconds.  A deadline is an exact instant; it passes at the
first whole millisecond that is not before it, and data that are there in that very millisecond
still count.  If a wait runs into a deadline, the failure says which of the two it was: the whole
body is too slow exactly when its deadline is not after that of the wait.

Instants have a limit.  A deadline beyond it cannot be computed, and the reader breaks down instead
of failing in an orderly way: that is the arrival `overflow`.

Main statement: `await_shorter`, a piece of data that arrives leaves a shorter schedule, so a
reader comes to an end.
-/

namespace LiveIngest.Body

/-- The slowest rate that a body may keep up, in bytes per second. -/
def minBytesPerSecond : Nat := 65536

/-- The last whole second that an instant can have. -/
def maxSecond : Nat := UInt64.size / 2 - 1

/-- Whether an instant, counted from the start of the clock, can be represented. -/
def representable (t : Span) : Bool := t.seconds ≤ maxSecond

/-- The time that a whole body of `declared` bytes has, from when reading starts. -/
def allowance (timeout : Span) (declared : Nat) : Span :=
  timeout + Span.ofSeconds (declared / minBytesPerSecond)

/-- A body being read. -/
structure Reading where
  /-- The longest wait for one piece. -/
  timeout : Span
  /-- The length that counts. -/
  declared : Nat
  /-- The millisecond of the clock at which reading started. -/
  start : Nat
  /-- The milliseconds since then. -/
  elapsed : Nat
  /-- The bytes received that count. -/
  received : Nat
  /-- The data pieces and broken connections that were taken from the schedule. -/
  taken : Nat
  /-- What is still to arrive. -/
  rest : Schedule
deriving DecidableEq, Repr

namespace Reading

/-- A body at the start of its reading. -/
def begin (timeout : Span) (declared start : Nat) (body : Schedule) : Reading :=
  ⟨timeout, declared, start, 0, 0, 0, body⟩

/-- The bytes still wanted. -/
def remaining (r : Reading) : Nat := r.declared - r.received

/-- The millisecond of the clock that the reading has come to. -/
def now (r : Reading) : Nat := r.start + r.elapsed

/-- The deadline of the whole body, from the start of the reading. -/
def deadline (r : Reading) : Span := allowance r.timeout r.declared

/-- The deadline of a wait that starts now, from the start of the reading. -/
def waitDeadline (r : Reading) : Span := Span.ofMillis r.elapsed + r.timeout

/-- Whether an instant, counted from the start of the reading, can be represented. -/
def reaches (r : Reading) (t : Span) : Bool := representable (Span.ofMillis r.start + t)

/-- The millisecond, from the start of the reading, at which a wait that starts now gives up. -/
def expiry (r : Reading) : Nat :=
  if r.deadline.nanos ≤ r.waitDeadline.nanos then r.deadline.ceilMillis
  else r.waitDeadline.ceilMillis

/-- The failure of a wait that starts now and is in vain. -/
def timeoutFault (r : Reading) : BodyFault :=
  if r.deadline.nanos ≤ r.waitDeadline.nanos then .tooSlow r.received r.declared
  else .noData r.timeout r.received r.declared

/-- The reading after a piece was taken at `ready`, with `rest` still to arrive. -/
def took (r : Reading) (ready : Nat) (rest : Schedule) : Reading :=
  { r with elapsed := ready, taken := r.taken + 1, rest := rest }

/-- The reading after a wait in vain. -/
def gaveUp (r : Reading) : Reading := { r with elapsed := r.expiry }

/-- The reading at the end of the body. -/
def ended (r : Reading) (ready : Nat) : Reading := { r with elapsed := ready }

end Reading

/-- What a wait ends with. -/
inductive Arrival
  /-- A piece that is not empty. -/
  | piece (bytes : Bytes) (after : Reading)
  | failed (fault : BodyFault) (after : Reading)
  /-- A deadline could not be computed. -/
  | overflow

/-- Waits for the next piece that is not empty; `rest` is what is still to arrive. -/
def awaitFrom (r : Reading) : Schedule → Arrival
  | [] =>
    if ¬r.reaches r.waitDeadline then .overflow
    else .failed (.truncated r.received r.declared none) (r.ended r.elapsed)
  | c :: rest =>
    if ¬r.reaches r.waitDeadline then .overflow
    else
      match c.readyAt r.elapsed with
      | none => .failed r.timeoutFault r.gaveUp
      | some ready =>
        if r.expiry < ready then .failed r.timeoutFault r.gaveUp
        else
          match c.item with
          | .data [] => awaitFrom (r.took ready rest) rest
          | .data (b :: bytes) => .piece (b :: bytes) (r.took ready rest)
          | .fail reason =>
            .failed (.truncated r.received r.declared (some reason)) (r.took ready rest)
          | .hang => .failed r.timeoutFault r.gaveUp
          | .finish => .failed (.truncated r.received r.declared none) (r.ended ready)

/-- Waits for the next piece that is not empty. -/
def Reading.await (r : Reading) : Arrival := awaitFrom r r.rest

theorem awaitFrom_shorter :
    ∀ (rest : Schedule) (r after : Reading) (bytes : Bytes),
      awaitFrom r rest = .piece bytes after → after.rest.length < rest.length
  | [], r, after, bytes, h => by
    rw [awaitFrom] at h
    split at h <;> simp at h
  | c :: rest, r, after, bytes, h => by
    rw [awaitFrom] at h
    split at h
    · simp at h
    · split at h
      · simp at h
      · split at h
        · simp at h
        · split at h
          · have := awaitFrom_shorter rest _ after bytes h
            simp only [List.length_cons]
            omega
          · simp only [Arrival.piece.injEq] at h
            rw [← h.2]
            simp [Reading.took]
          · simp at h
          · simp at h
          · simp at h

/-- A piece that arrives leaves a shorter schedule. -/
theorem Reading.await_shorter {r after : Reading} {bytes : Bytes}
    (h : r.await = .piece bytes after) : after.rest.length < r.rest.length :=
  awaitFrom_shorter r.rest r after bytes h

/-- What of a piece counts, and the reading after it. -/
def Reading.accept (r : Reading) (bytes : Bytes) : Bytes × Reading :=
  let counted := bytes.take r.remaining
  (counted, { r with received := r.received + counted.length })

end LiveIngest.Body
