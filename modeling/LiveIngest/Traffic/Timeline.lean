import LiveIngest.Traffic.Machine

/-!
# Uploads along a timeline

A machine leaves open which task moves next.  Here that is settled by the clock.  A task moves as
soon as it can; a task that reads a body moves when the next piece is there or its time is up.
Tasks that become able to move in the same millisecond do so in the order in which they were
enabled, and a task goes on until it has to wait.

A `Timeline` is a machine together with the visits that are still to come, the clients that will
disconnect, and the moments at which somebody looks whether the sequencer is held.  `Timeline.play`
runs it to the end: it picks the earliest occasion, moves the clock there and lets it happen.  Of
occasions in the same millisecond, arriving data come first, then visits, then disconnections, then
looks.
-/

namespace LiveIngest.Body

/-- The millisecond of the clock at which the wait for the next piece is over. -/
def Reading.settlesAt (r : Reading) : Nat :=
  if r.remaining = 0 then r.now
  else
    match r.await with
    | .piece _ after => after.now
    | .failed _ after => after.now
    | .overflow => r.now

end LiveIngest.Body

namespace LiveIngest.Traffic

open LiveIngest.Body
open LiveIngest.Upload

/-- The body that a task reads at this stage, if it does. -/
def Stage.reading? : Stage → Option Reading
  | .buffering _ b => some b.reading
  | .streaming _ _ s _ => some s.reading
  | _ => none

/-- Whether an upload is over. -/
def Stage.isOver : Stage → Bool
  | .finished .. => true
  | .cancelled _ => true
  | .broken _ => true
  | _ => false

namespace Machine

/-- Whether a task can move before the clock does. -/
def isReady (m : Machine) (i : TaskId) : Bool :=
  match m.tasks[i]? with
  | none => false
  | some t =>
    match t.stage.reading? with
    | some r => r.settlesAt ≤ m.clock
    | none => (m.step i).isSome

/-- The tasks that can move in `m'` but could not in `m`. -/
def enabled (m m' : Machine) : List TaskId :=
  (List.range m'.tasks.length).filter fun j => !m.isReady j && m'.isReady j

/-- Lets tasks move, in the order of the queue, until none can; `fuel` bounds the moves. -/
def settle : Nat → Machine → List TaskId → Machine
  | 0, m, _ => m
  | _ + 1, m, [] => m
  | fuel + 1, m, i :: queue =>
    if m.isReady i then
      match m.step i with
      | none => settle fuel m queue
      | some m' => settle fuel m' (i :: (queue ++ (m.enabled m').filter (· ≠ i)))
    else settle fuel m queue

/-- More moves than all tasks together can make. -/
def moves (m : Machine) : Nat :=
  m.tasks.foldl (fun n t => n + 2 * (t.request.body.length + 20)) 100

/-- Lets tasks move, in the order of the queue, until none can. -/
def settleAll (m : Machine) (queue : List TaskId) : Machine := settle m.moves m queue

end Machine

/-- An upload that will come in, and when its client disconnects, if it does; both in milliseconds
from the start of the timeline. -/
structure Visit where
  start : Nat
  disconnect : Option Nat
  request : Request
deriving DecidableEq, Repr

/-- A machine and what is to happen to it. -/
structure Timeline where
  machine : Machine
  /-- The millisecond of the clock at which the timeline starts. -/
  base : Nat
  /-- The visits, each with its task once it has come in. -/
  visits : List (Visit × Option TaskId)
  /-- The looks at the sequencer: when, and what was seen. -/
  looks : List (Nat × Option Bool)

/-- Something that is to happen at a certain millisecond. -/
inductive Occasion
  | data (i : TaskId)
  | visit (k : Nat)
  | disconnect (i : TaskId)
  | look (k : Nat)
deriving DecidableEq, Repr

/-- The order of occasions within one millisecond. -/
def Occasion.rank : Occasion → Nat
  | .data _ => 0
  | .visit _ => 1
  | .disconnect _ => 2
  | .look _ => 3

/-- How a visit went. -/
inductive Ending
  | answered (reply : Reply) (taken time : Nat)
  | disconnected (time : Nat)
  | broke (time : Nat)
  /-- It did not come to an end. -/
  | unfinished
deriving DecidableEq, Repr

namespace Timeline

/-- The occasions of the visits, from the `k`-th on. -/
def visitOccasions (l : Timeline) : List (Nat × Occasion) :=
  l.visits.zipIdx.filterMap fun ((v, task), k) =>
    match task with
    | none => some (l.base + v.start, .visit k)
    | some i =>
      match v.disconnect, l.machine.tasks[i]? with
      | some time, some t =>
        if t.stage.isOver then none else some (l.base + time, .disconnect i)
      | _, _ => none

/-- The occasions of the bodies being read. -/
def dataOccasions (l : Timeline) : List (Nat × Occasion) :=
  l.machine.tasks.zipIdx.filterMap fun (t, i) =>
    t.stage.reading?.map fun r => (r.settlesAt, .data i)

/-- The occasions of the looks. -/
def lookOccasions (l : Timeline) : List (Nat × Occasion) :=
  l.looks.zipIdx.filterMap fun ((time, seen), k) =>
    match seen with
    | none => some (l.base + time, .look k)
    | some _ => none

/-- Whether one occasion comes before another. -/
def earlier (a b : Nat × Occasion) : Bool :=
  a.1 < b.1 || (a.1 == b.1 && a.2.rank < b.2.rank)

/-- The earliest occasion. -/
def next? (l : Timeline) : Option (Nat × Occasion) :=
  (l.dataOccasions ++ l.visitOccasions ++ l.lookOccasions).foldl
    (fun best o =>
      match best with
      | none => some o
      | some b => if earlier o b then some o else some b) none

/-- The timeline with its clock moved on to `time`. -/
def atTime (l : Timeline) (time : Nat) : Timeline :=
  { l with machine := { l.machine with clock := max l.machine.clock time } }

/-- The timeline after an occasion. -/
def happen (l : Timeline) : Occasion → Timeline
  | .data i => { l with machine := l.machine.settleAll [i] }
  | .visit k =>
    match l.visits[k]? with
    | none => l
    | some (v, _) =>
      let i := l.machine.tasks.length
      { l with
        machine := (l.machine.admitTask v.request).settleAll [i]
        visits := l.visits.set k (v, some i) }
  | .disconnect i =>
    match l.machine.cancel i with
    | none => l
    | some m => { l with machine := m.settleAll (l.machine.enabled m) }
  | .look k =>
    match l.looks[k]? with
    | none => l
    | some (time, _) =>
      { l with looks := l.looks.set k (time, some l.machine.sequencer.holder.isSome) }

/-- Lets occasions happen, earliest first, until there are none; `fuel` bounds their number. -/
def playWithin : Nat → Timeline → Timeline
  | 0, l => l
  | fuel + 1, l =>
    match l.next? with
    | none => l
    | some (time, o) => playWithin fuel ((l.atTime time).happen o)

/-- More occasions than the timeline has. -/
def occasions (l : Timeline) : Nat :=
  l.visits.foldl (fun n v => n + v.1.request.body.length + 4) (l.looks.length + 1)

/-- Runs the timeline to its end. -/
def play (l : Timeline) : Timeline := playWithin l.occasions l

/-- A timeline that starts now. -/
def of (g : Ingest) (visits : List Visit) (looks : List Nat) : Timeline where
  machine := Machine.ofIngest g
  base := g.clock
  visits := visits.map fun v => (v, none)
  looks := looks.map fun time => (time, none)

/-- How a visit went, with times counted from the start of the timeline. -/
def endingOf (l : Timeline) (task : Option TaskId) : Ending :=
  match task.bind (l.machine.tasks[·]?) with
  | none => .unfinished
  | some t =>
    match t.stage with
    | .finished reply taken time => .answered reply taken (time - l.base)
    | .cancelled time => .disconnected (time - l.base)
    | .broken time => .broke (time - l.base)
    | _ => .unfinished

/-- How the visits went, in order. -/
def endings (l : Timeline) : List Ending := l.visits.map fun v => l.endingOf v.2

/-- What was seen at the looks, in order. -/
def seen (l : Timeline) : List Bool := l.looks.map fun look => look.2.getD false

end Timeline

end LiveIngest.Traffic
