import LiveIngest.Error

/-!
# The sequencer

The sequencer numbers the chunked uploads.  It holds one counter, the index of the next segment,
and at most one session is open at a time.  A session issues an index at most once, and only when
the client's hint, if there is one, agrees with the kind that the index implies.  The counter moves
only when the session commits the very index it issued, once its file is in place; a session that
ends without a commit leaves the index to the next one.

`Session.issue` and `Session.commit` are the two steps; both leave everything as it was when they
refuse.  `Session.commit_counter` says what the counter can do: stay, or move by one.
-/

namespace LiveIngest.Segment

/-- An index given to one upload, with the kind and the file that go with it. -/
structure Slot where
  index : Nat
  kind : Kind
  fileName : String
deriving DecidableEq, Repr

/-- The slot at an index of a stream. -/
def Slot.at (stream : String) (index : Nat) : Slot :=
  ⟨index, Kind.ofIndex index, Segment.fileName stream index⟩

/-- An open session: the counter it guards, and the index it has issued, if any. -/
structure Session where
  counter : Nat
  issued : Option Nat
deriving DecidableEq, Repr

/-- A session as it is opened on a counter. -/
def Session.begin (counter : Nat) : Session := ⟨counter, none⟩

/-- Issues the current index to the upload that holds the session. -/
def Session.issue (s : Session) (stream : String) (hint : Option Kind) :
    Except SequenceFault (Slot × Session) :=
  match s.issued with
  | some index => .error (.alreadyIssued index)
  | none =>
    let slot := Slot.at stream s.counter
    match hint with
    | none => .ok (slot, { s with issued := some s.counter })
    | some sent =>
      if sent = slot.kind then .ok (slot, { s with issued := some s.counter })
      else .error (.outOfOrder slot.kind s.counter sent)

/-- Moves the counter past `index`, which must be the one issued and the current one. -/
def Session.commit (s : Session) (index : Nat) : Except SequenceFault Session :=
  if s.issued = some index ∧ index = s.counter then .ok { s with counter := s.counter + 1 }
  else .error (.staleCommit index s.counter)

/-- A successful commit moves the counter by one. -/
theorem Session.commit_counter {s s' : Session} {index : Nat} (h : s.commit index = .ok s') :
    s'.counter = s.counter + 1 ∧ s'.issued = s.issued := by
  unfold Session.commit at h
  split at h
  · simp only [Except.ok.injEq] at h
    subst h
    exact ⟨rfl, rfl⟩
  · simp at h

/-! ## The sequencer as a state machine -/

/-- A sequencer: the stream it names, the counter, and the session that is open. -/
structure Sequencer where
  stream : String
  counter : Nat
  session : Option Session
deriving DecidableEq, Repr

/-- A sequencer before its first segment. -/
def Sequencer.start (stream : String) : Sequencer := ⟨stream, 0, none⟩

/-- What can be asked of a sequencer. -/
inductive Request
  | begin
  | next (hint : Option Kind)
  | commit (index : Nat)
  | finish
  | isBusy
  | currentIndex
deriving DecidableEq, Repr

/-- What a sequencer answers. -/
inductive Answer
  | done
  | issued (slot : Slot)
  | committed (next : Nat)
  | busy (held : Bool)
  | current (index : Nat)
  | refused (fault : SequenceFault)
  /-- The request does not fit: a session is open where none may be, or none is where one must. -/
  | misplaced
deriving DecidableEq, Repr

/-- The sequencer after its open session has come to `s`. -/
def Sequencer.holding (q : Sequencer) (s : Session) : Sequencer :=
  { q with counter := s.counter, session := some s }

/-- Serves one request. -/
def Sequencer.serve (q : Sequencer) (r : Request) : Answer × Sequencer :=
  match r, q.session with
  | .isBusy, session => (.busy session.isSome, q)
  | .currentIndex, none => (.current q.counter, q)
  | .begin, none => (.done, q.holding (Session.begin q.counter))
  | .finish, some _ => (.done, { q with session := none })
  | .next hint, some s =>
    match s.issue q.stream hint with
    | .ok (slot, s') => (.issued slot, q.holding s')
    | .error fault => (.refused fault, q)
  | .commit index, some s =>
    match s.commit index with
    | .ok s' => (.committed s'.counter, q.holding s')
    | .error fault => (.refused fault, q)
  | _, _ => (.misplaced, q)

/-- Serves requests in order. -/
def Sequencer.serveAll (q : Sequencer) : List Request → List Answer × Sequencer
  | [] => ([], q)
  | r :: rest =>
    let (answer, q') := q.serve r
    let (answers, last) := q'.serveAll rest
    (answer :: answers, last)

end LiveIngest.Segment
