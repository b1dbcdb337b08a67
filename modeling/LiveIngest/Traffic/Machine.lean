import LiveIngest.Traffic.Lock
import LiveIngest.Upload.Dispatch

/-!
# Many uploads at the same time

The uploads in progress are tasks of one machine.  A task goes through stages, and `Machine.step`
moves one task by one stage; which task moves next is up to whoever runs the machine.  A task that
waits for a lock cannot move until the lock is handed to it.

The three kinds of uploads use the locks differently.  An append reads its body first and locks its
destination only to append.  An overwrite locks its destination and reads its body under the lock.
A sequenced upload holds the sequencer from before it learns its index until after it is counted,
and in between does what an overwrite does.

A client may disconnect while its upload waits for a lock or for its body.  The task then vanishes:
`Machine.cancel` removes its part file, gives up its locks and drops its references, in that order.
The same happens to a task that breaks down because a deadline cannot be computed.

Everything a step does to the disk is one file operation, or for an append the opening, writing and
syncing together.
-/

namespace LiveIngest.Traffic

open LiveIngest.Body
open LiveIngest.Storage
open LiveIngest.Upload

/-- What is to be stored under the lock of a destination. -/
inductive Work
  /-- A payload that was read. -/
  | append (payload : Bytes) (reading : Reading)
  /-- A body that is still to be read. -/
  | overwrite (declared : Nat) (body : Schedule)
deriving DecidableEq, Repr

/-- The result of the storing part of an upload, and how far its body was read. -/
structure Ended where
  result : Except Stop Outcome
  reading : Reading
deriving DecidableEq, Repr

/-- An open session of the sequencer, with the slot it issued. -/
structure Ticket where
  slot : Segment.Slot
  session : Segment.Session
deriving DecidableEq, Repr

/-- How far an upload has come. -/
inductive Stage
  /-- Nobody has looked at it yet. -/
  | arriving
  /-- In line for the sequencer, or holding it without having been given an index. -/
  | queued (plan : Plan) (hint : Option Segment.Kind)
  /-- Collecting its body. -/
  | buffering (plan : Plan) (state : Buffering)
  /-- About to take a reference to the lock of its destination. -/
  | seeking (plan : Plan) (destination : String) (work : Work)
  /-- About to ask for the lock. -/
  | asking (plan : Plan) (destination : String) (work : Work) (lock : LockId)
  /-- In line for the lock, or holding it without having used it. -/
  | waiting (plan : Plan) (destination : String) (work : Work) (lock : LockId)
  /-- Streaming its body into the part file. -/
  | streaming (plan : Plan) (destination : String) (state : Streaming) (lock : LockId)
  /-- About to rename the complete part file. -/
  | publishing (plan : Plan) (destination : String) (reading : Reading) (lock : LockId)
  /-- About to remove the part file of a failed upload. -/
  | dropping (plan : Plan) (destination : String) (ended : Ended) (lock : LockId)
  /-- About to unlock the destination. -/
  | unlocking (plan : Plan) (destination : String) (ended : Ended) (lock : LockId)
  /-- About to give the reference back. -/
  | releasing (plan : Plan) (destination : String) (ended : Ended) (lock : LockId)
  /-- About to be counted, if it is a segment. -/
  | counting (plan : Plan) (ended : Ended)
  /-- About to leave the sequencer. -/
  | leaving (plan : Plan) (ended : Ended)
  /-- About to be reported and answered. -/
  | reporting (plan : Plan) (ended : Ended)
  /-- Answered, at the given millisecond. -/
  | finished (reply : Reply) (taken : Nat) (time : Nat)
  /-- Its client disconnected. -/
  | cancelled (time : Nat)
  /-- Its handler broke down. -/
  | broken (time : Nat)
deriving DecidableEq, Repr

/-- An upload in progress. -/
structure Task where
  request : Request
  /-- The session that a sequenced upload has open. -/
  ticket : Option Ticket
  stage : Stage
deriving DecidableEq, Repr

/-- An upload that has just come in. -/
def Task.new (request : Request) : Task := ⟨request, none, .arriving⟩

/-- What the log repeats of the request. -/
def Task.caller (t : Task) : Caller := Caller.of t.request.path t.request.headers

/-- An endpoint with uploads in progress. -/
structure Machine where
  config : Config
  tree : Tree
  /-- The index of the next segment. -/
  counter : Nat
  sequencer : Mutex
  table : LockTable
  tasks : List Task
  /-- The milliseconds on the clock. -/
  clock : Nat
  /-- What was logged, in order. -/
  log : List Event
deriving DecidableEq, Repr

namespace Machine

/-- An endpoint that nobody uses at the moment. -/
def ofIngest (g : Ingest) : Machine :=
  ⟨g.config, g.tree, g.counter, Mutex.free, LockTable.empty, [], g.clock, []⟩

/-- The endpoint that is left when nobody uses the machine any more. -/
def toIngest (m : Machine) : Ingest := ⟨m.config, m.tree, m.counter, m.clock⟩

/-- An upload comes in. -/
def admitTask (m : Machine) (request : Request) : Machine :=
  { m with tasks := m.tasks ++ [Task.new request] }

/-- The machine with one task changed. -/
def setTask (m : Machine) (i : TaskId) (t : Task) : Machine := { m with tasks := m.tasks.set i t }

/-- The machine with one task at another stage. -/
def toStage (m : Machine) (i : TaskId) (t : Task) (s : Stage) : Machine :=
  m.setTask i { t with stage := s }

/-- The machine with events logged. -/
def logging (m : Machine) (events : List Event) : Machine := { m with log := m.log ++ events }

/-- Whether a task holds the sequencer. -/
def holdsSequencer (m : Machine) (i : TaskId) : Bool := m.sequencer.holder == some i

/-- Whether a task holds a lock. -/
def holdsLock (m : Machine) (i : TaskId) (l : LockId) : Bool :=
  (m.table.mutex l).holder == some i

/-! ## Vanishing -/

/-- Gives up a lock of the table or the place in line, and drops the reference. -/
def abandonLock (m : Machine) (i : TaskId) (l : LockId) : Machine :=
  { m with table := (m.table.onMutex l (·.leave i)).dropRef l }

/-- Removes the part file of a destination. -/
def abandonPart (m : Machine) (destination : String) : Machine :=
  let (tree, events) := dropPart m.tree (partPath destination)
  { m with tree := tree }.logging events

/-- Gives up the sequencer or the place in line for it. -/
def abandonSequencer (m : Machine) (i : TaskId) : Machine :=
  { m with sequencer := m.sequencer.leave i }

/-- Gives up all that a task has, without a trace of it but in the log. -/
def abandon (m : Machine) (i : TaskId) (t : Task) : Machine :=
  let held := match t.stage with
    | .waiting _ _ _ l => m.abandonLock i l
    | .streaming _ destination _ l => (m.abandonPart destination).abandonLock i l
    | _ => m
  match t.stage, t.ticket with
  | .queued _ _, _ => held.abandonSequencer i
  | _, some _ => held.abandonSequencer i
  | _, none => held

/-- A client disconnects; this counts only while its upload waits for a lock or for its body. -/
def cancel (m : Machine) (i : TaskId) : Option Machine :=
  match m.tasks[i]? with
  | none => none
  | some t =>
    match t.stage with
    | .queued .. | .buffering .. | .waiting .. | .streaming .. =>
      some ((m.abandon i t).toStage i t (.cancelled m.clock))
    | _ => none

/-- A handler breaks down. -/
def breakDown (m : Machine) (i : TaskId) (t : Task) : Machine :=
  (m.abandon i t).toStage i t (.broken m.clock)

/-! ## Moving on -/

/-- An upload is planned. -/
def stepArriving (m : Machine) (i : TaskId) (t : Task) : Machine :=
  match classify m.config t.request.path t.request.headers with
  | .error rejection =>
    let cause := Error.classification rejection
    (m.logging [.failed t.caller none cause]).toStage i t
      (.finished (Reply.failed cause.kind cause.message) 0 m.clock)
  | .ok plan =>
    let start := Reading.begin m.config.readTimeout plan.length m.clock t.request.body
    match plan.mode with
    | .rawAppend =>
      if plan.length = 0 then
        m.toStage i t (.reporting plan ⟨.ok ⟨m.config.rawOutputPath, 0⟩, start⟩)
      else
        match startBuffering m.config.readTimeout plan.length m.clock t.request.body with
        | .error _ => m.breakDown i t
        | .ok b => m.toStage i t (.buffering plan b)
    | .form _ _ =>
      match startBuffering m.config.readTimeout plan.length m.clock t.request.body with
      | .error _ => m.breakDown i t
      | .ok b => m.toStage i t (.buffering plan b)
    | .addressed fileName =>
      m.toStage i t (.seeking plan (m.config.destination fileName)
        (.overwrite plan.length t.request.body))
    | .sequenced hint =>
      { m with sequencer := m.sequencer.enter i }.toStage i t (.queued plan hint)

/-- The sequencer, held by the task, issues an index or refuses. -/
def stepQueued (m : Machine) (i : TaskId) (t : Task) (plan : Plan) (hint : Option Segment.Kind) :
    Machine :=
  let session := Segment.Session.begin m.counter
  match session.issue m.config.streamName hint with
  | .error fault =>
    let start := Reading.begin m.config.readTimeout plan.length m.clock t.request.body
    m.toStage i t (.leaving plan ⟨.error (.failed (.sequence fault)), start⟩)
  | .ok (slot, session') =>
    m.setTask i { t with
      ticket := some ⟨slot, session'⟩
      stage := .seeking plan (m.config.destination slot.fileName)
        (.overwrite plan.length t.request.body) }

/-- What a collected body amounts to. -/
def payloadOf (mode : Mode) (body : Bytes) : Except Rejection Bytes :=
  match mode with
  | .form boundary field => formPayload boundary field body
  | _ => .ok body

/-- One turn of collecting a body. -/
def stepBuffering (m : Machine) (i : TaskId) (t : Task) (plan : Plan) (b : Buffering) : Machine :=
  match b.step with
  | .again b' => m.toStage i t (.buffering plan b')
  | .done (.error .overflow) _ => m.breakDown i t
  | .done (.error (.failed cause)) reading =>
    m.toStage i t (.reporting plan ⟨.error (.failed cause), reading⟩)
  | .done (.ok body) reading =>
    match payloadOf plan.mode body with
    | .error rejection =>
      m.toStage i t (.reporting plan ⟨.error (.failed (.classification rejection)), reading⟩)
    | .ok payload =>
      m.toStage i t (.seeking plan m.config.rawOutputPath (.append payload reading))

/-- The destination, locked by the task, is appended to, or its part file is created. -/
def stepWaiting (m : Machine) (i : TaskId) (t : Task) (plan : Plan) (destination : String)
    (work : Work) (l : LockId) : Machine :=
  match work with
  | .append payload reading =>
    let w := appendRead payload destination reading m.tree
    ({ m with tree := w.tree }).toStage i t (.unlocking plan destination ⟨w.result, reading⟩ l)
  | .overwrite declared body =>
    let part := partPath destination
    match startStreaming m.config.readTimeout declared m.clock body part m.tree with
    | (.ok s, tree) => { m with tree := tree }.toStage i t (.streaming plan destination s l)
    | (.error .overflow, tree) =>
      let broken : Machine := ({ m with tree := tree }.abandonPart destination)
      broken.breakDown i t
    | (.error (.failed cause), tree) =>
      let start := Reading.begin m.config.readTimeout declared m.clock body
      { m with tree := tree }.toStage i t
        (.dropping plan destination ⟨.error (.failed cause), start⟩ l)

/-- One turn of streaming a body. -/
def stepStreaming (m : Machine) (i : TaskId) (t : Task) (plan : Plan) (destination : String)
    (s : Streaming) (l : LockId) : Machine :=
  match s.step (partPath destination) m.tree with
  | (.again s', tree) => { m with tree := tree }.toStage i t (.streaming plan destination s' l)
  | (.done (.ok ()) reading, tree) =>
    { m with tree := tree }.toStage i t (.publishing plan destination reading l)
  | (.done (.error .overflow) _, tree) => { m with tree := tree }.breakDown i t
  | (.done (.error (.failed cause)) reading, tree) =>
    { m with tree := tree }.toStage i t
      (.dropping plan destination ⟨.error (.failed cause), reading⟩ l)

/-- The complete part file is renamed. -/
def stepPublishing (m : Machine) (i : TaskId) (t : Task) (plan : Plan) (destination : String)
    (reading : Reading) (l : LockId) : Machine :=
  match publish m.tree (partPath destination) destination with
  | (.ok (), tree) =>
    { m with tree := tree }.toStage i t
      (.unlocking plan destination ⟨.ok ⟨destination, plan.length⟩, reading⟩ l)
  | (.error stop, tree) =>
    { m with tree := tree }.toStage i t (.dropping plan destination ⟨.error stop, reading⟩ l)

/-- What is logged when the lock of a destination has been given back. -/
def storedEvents (mode : Mode) : Except Stop Outcome → List Event
  | .ok outcome =>
    match mode.writeMode with
    | .append => [.appended outcome.destination outcome.bytes]
    | .truncate => [.overwritten outcome.destination outcome.bytes]
  | .error _ => []

/-- A stored segment is counted; other uploads pass. -/
def stepCounting (m : Machine) (i : TaskId) (t : Task) (plan : Plan) (ended : Ended) : Machine :=
  let m := m.logging (storedEvents plan.mode ended.result)
  match t.ticket with
  | none => m.toStage i t (.reporting plan ended)
  | some ticket =>
    match ended.result with
    | .error _ => m.toStage i t (.leaving plan ended)
    | .ok outcome =>
      match ticket.session.commit ticket.slot.index with
      | .error fault =>
        m.toStage i t (.leaving plan { ended with result := .error (.failed (.sequence fault)) })
      | .ok session =>
        ({ m with counter := session.counter }.logging
          [.segmentStored ticket.slot outcome.bytes]).toStage i t (.leaving plan ended)

/-- An upload is reported and answered. -/
def stepReporting (m : Machine) (i : TaskId) (t : Task) (plan : Plan) (ended : Ended) : Machine :=
  match replyTo? plan.mode ended.result with
  | none => m.breakDown i t
  | some reply =>
    (m.logging (resultEvents t.caller plan.mode ended.result)).toStage i t
      (.finished reply ended.reading.taken m.clock)

/-- Moves one task by one stage; nothing if it is over or waits for a lock. -/
def step (m : Machine) (i : TaskId) : Option Machine :=
  match m.tasks[i]? with
  | none => none
  | some t =>
    match t.stage with
    | .arriving => some (m.stepArriving i t)
    | .queued plan hint => if m.holdsSequencer i then some (m.stepQueued i t plan hint) else none
    | .buffering plan b => some (m.stepBuffering i t plan b)
    | .seeking plan destination work =>
      let (l, table) := m.table.reference destination
      some ({ m with table := table }.toStage i t (.asking plan destination work l))
    | .asking plan destination work l =>
      some ({ m with table := m.table.onMutex l (·.enter i) }.toStage i t
        (.waiting plan destination work l))
    | .waiting plan destination work l =>
      if m.holdsLock i l then some (m.stepWaiting i t plan destination work l) else none
    | .streaming plan destination s l => some (m.stepStreaming i t plan destination s l)
    | .publishing plan destination reading l =>
      some (m.stepPublishing i t plan destination reading l)
    | .dropping plan destination ended l =>
      some ((m.abandonPart destination).toStage i t (.unlocking plan destination ended l))
    | .unlocking plan destination ended l =>
      some ({ m with table := m.table.onMutex l (·.leave i) }.toStage i t
        (.releasing plan destination ended l))
    | .releasing plan destination ended l =>
      some ({ m with table := m.table.release destination l }.toStage i t (.counting plan ended))
    | .counting plan ended => some (m.stepCounting i t plan ended)
    | .leaving plan ended =>
      some ((m.abandonSequencer i).setTask i { t with ticket := none, stage := .reporting plan ended })
    | .reporting plan ended => some (m.stepReporting i t plan ended)
    | .finished .. | .cancelled _ | .broken _ => none

/-! ## What can happen -/

/-- What can happen to a machine: an upload comes in, a task moves by one stage, a client
disconnects, or time passes. -/
inductive Happening
  | arrive (request : Request)
  | move (i : TaskId)
  | disconnect (i : TaskId)
  | pass (clock : Nat)
deriving DecidableEq, Repr

/-- The machine after something happened to it; nothing if it cannot happen now. -/
def after (m : Machine) : Happening → Option Machine
  | .arrive request => some (m.admitTask request)
  | .move i => m.step i
  | .disconnect i => m.cancel i
  | .pass clock => if m.clock ≤ clock then some { m with clock := clock } else none

/-- The machine after a run of happenings. -/
def afterAll (m : Machine) : List Happening → Option Machine
  | [] => some m
  | h :: rest =>
    match m.after h with
    | none => none
    | some m' => m'.afterAll rest

end Machine

end LiveIngest.Traffic
