import LiveIngest.Traffic.Timeline

/-!
# What one move can do

Every step of a machine changes one task and what all tasks share: the disk, the counter, the
sequencer and the locks.  `Move` lists what a step can do, one case for each way a stage can end;
`step_moved` and `cancel_moved` say that nothing else happens.  All that is known of whole runs is
derived from this list, and no later proof unfolds a step.

Most moves are `Quiet`: they change the task and nothing that is shared.
-/

namespace LiveIngest.Traffic

open LiveIngest.Body
open LiveIngest.Storage
open LiveIngest.Upload

/-- What the tasks of a machine share: the disk, the counter of segments, the sequencer, and the
table of locks.  All else belongs to one task. -/
structure Shared where
  tree : Tree
  counter : Nat
  sequencer : Mutex
  table : LockTable

/-- What the tasks of this machine share. -/
def Machine.shared (m : Machine) : Shared := ⟨m.tree, m.counter, m.sequencer, m.table⟩

/-- A body of this configuration at the start of its reading, which is what a reply tells of an
upload whose body was not looked at. -/
def Task.begin (t : Task) (c : Config) (clock : Nat) (plan : Plan) : Reading :=
  Reading.begin c.readTimeout plan.length clock t.request.body

/-- The task at another stage. -/
def Task.at (t : Task) (s : Stage) : Task := { t with stage := s }

/-- The request goes with the task through all its stages. -/
@[simp] theorem Task.request_at (t : Task) (s : Stage) : (t.at s).request = t.request := rfl

/-- So does the ticket; only being given one and leaving change it. -/
@[simp] theorem Task.ticket_at (t : Task) (s : Stage) : (t.at s).ticket = t.ticket := rfl

/-- The stage is the one that it was put at. -/
@[simp] theorem Task.stage_at (t : Task) (s : Stage) : (t.at s).stage = s := rfl

/-- What a task can do without the others: nothing that is shared changes, though the counter may be
looked at by whoever holds the sequencer. -/
inductive Quiet (c : Config) (clock : Nat) (i : TaskId) (w : Shared) (t : Task) : Task → Prop
  | reject {rejection} (hs : t.stage = .arriving)
      (h : classify c t.request.path t.request.headers = .error rejection) :
      Quiet c clock i w t (t.at (.finished (Reply.failed .classification
        (Error.classification rejection).message) 0 clock))
  /-- Nothing is to be appended. -/
  | skip {plan} (hs : t.stage = .arriving)
      (h : classify c t.request.path t.request.headers = .ok plan) (hmode : plan.mode = .rawAppend)
      (hlen : plan.length = 0) :
      Quiet c clock i w t
        (t.at (.reporting plan ⟨.ok ⟨c.rawOutputPath, 0⟩, t.begin c clock plan⟩))
  | collect {plan b} (hs : t.stage = .arriving)
      (h : classify c t.request.path t.request.headers = .ok plan)
      (hmode : plan.mode.isChunked = false) (hlen : plan.mode = .rawAppend → plan.length ≠ 0)
      (hstart : startBuffering c.readTimeout plan.length clock t.request.body = .ok b) :
      Quiet c clock i w t (t.at (.buffering plan b))
  | address {plan name} (hs : t.stage = .arriving)
      (h : classify c t.request.path t.request.headers = .ok plan)
      (hmode : plan.mode = .addressed name) :
      Quiet c clock i w t
        (t.at (.seeking plan (c.destination name) (.overwrite plan.length t.request.body)))
  | refuse {plan hint fault} (hs : t.stage = .queued plan hint)
      (hheld : w.sequencer.holder = some i)
      (h : (Segment.Session.begin w.counter).issue c.streamName hint = .error fault) :
      Quiet c clock i w t
        (t.at (.leaving plan ⟨.error (.failed (.sequence fault)), t.begin c clock plan⟩))
  | issue {plan hint slot session} (hs : t.stage = .queued plan hint)
      (hheld : w.sequencer.holder = some i)
      (h : (Segment.Session.begin w.counter).issue c.streamName hint = .ok (slot, session)) :
      Quiet c clock i w t
        { t with
          ticket := some ⟨slot, session⟩
          stage := .seeking plan (c.destination slot.fileName)
            (.overwrite plan.length t.request.body) }
  | collectOn {plan b b'} (hs : t.stage = .buffering plan b) (h : b.step = .again b') :
      Quiet c clock i w t (t.at (.buffering plan b'))
  | collectFails {plan b cause reading} (hs : t.stage = .buffering plan b)
      (h : b.step = .done (.error (.failed cause)) reading) :
      Quiet c clock i w t (t.at (.reporting plan ⟨.error (.failed cause), reading⟩))
  | unfit {plan b bytes reading rejection} (hs : t.stage = .buffering plan b)
      (h : b.step = .done (.ok bytes) reading)
      (hpay : Machine.payloadOf plan.mode bytes = .error rejection) :
      Quiet c clock i w t
        (t.at (.reporting plan ⟨.error (.failed (.classification rejection)), reading⟩))
  | collected {plan b bytes reading payload} (hs : t.stage = .buffering plan b)
      (h : b.step = .done (.ok bytes) reading)
      (hpay : Machine.payloadOf plan.mode bytes = .ok payload) :
      Quiet c clock i w t (t.at (.seeking plan c.rawOutputPath (.append payload reading)))
  | pass {plan ended} (hs : t.stage = .counting plan ended) (hticket : t.ticket = none) :
      Quiet c clock i w t (t.at (.reporting plan ended))
  | uncounted {plan ended ticket stop} (hs : t.stage = .counting plan ended)
      (hticket : t.ticket = some ticket) (h : ended.result = .error stop) :
      Quiet c clock i w t (t.at (.leaving plan ended))
  /-- The index was not the one to be committed. -/
  | stale {plan ended ticket outcome fault} (hs : t.stage = .counting plan ended)
      (hticket : t.ticket = some ticket) (h : ended.result = .ok outcome)
      (hcommit : ticket.session.commit ticket.slot.index = .error fault) :
      Quiet c clock i w t
        (t.at (.leaving plan { ended with result := .error (.failed (.sequence fault)) }))
  | answer {plan ended reply} (hs : t.stage = .reporting plan ended)
      (h : replyTo? plan.mode ended.result = some reply) :
      Quiet c clock i w t (t.at (.finished reply ended.reading.taken clock))

/-- The locks after a task has vanished: it leaves the line and drops its reference, but the entry
stays in the table, because taking it out comes behind the wait that was cut off. -/
def Shared.tableWithout (w : Shared) (i : TaskId) (t : Task) : LockTable :=
  match t.stage with
  | .waiting _ _ _ l => (w.table.onMutex l (·.leave i)).dropRef l
  | .streaming _ _ _ l => (w.table.onMutex l (·.leave i)).dropRef l
  | _ => w.table

/-- The sequencer after a task has vanished, from the line or with a ticket. -/
def Shared.sequencerWithout (w : Shared) (i : TaskId) (t : Task) : Mutex :=
  match t.stage, t.ticket with
  | .queued _ _, _ => w.sequencer.leave i
  | _, some _ => w.sequencer.leave i
  | _, none => w.sequencer

/-- What is shared after a task has vanished, with the disk as it is then. -/
def Shared.without (w : Shared) (i : TaskId) (t : Task) (tree : Tree) : Shared :=
  ⟨tree, w.counter, w.sequencerWithout i t, w.tableWithout i t⟩

/-- How a task vanishes: its client disconnects, or its handler breaks down.  The tree is the disk
afterwards. -/
inductive Gone (c : Config) (clock : Nat) (i : TaskId) (w : Shared) (t : Task) : Tree → Stage → Prop
  | queued {plan hint} (hs : t.stage = .queued plan hint) :
      Gone c clock i w t w.tree (.cancelled clock)
  | buffering {plan b} (hs : t.stage = .buffering plan b) :
      Gone c clock i w t w.tree (.cancelled clock)
  | waiting {plan destination work l} (hs : t.stage = .waiting plan destination work l) :
      Gone c clock i w t w.tree (.cancelled clock)
  | streaming {plan destination s l} (hs : t.stage = .streaming plan destination s l) :
      Gone c clock i w t (dropPart w.tree (partPath destination)).1 (.cancelled clock)
  | unstarted {plan stop} (hs : t.stage = .arriving)
      (h : classify c t.request.path t.request.headers = .ok plan)
      (hmode : plan.mode.isChunked = false)
      (hstart : startBuffering c.readTimeout plan.length clock t.request.body = .error stop) :
      Gone c clock i w t w.tree (.broken clock)
  | uncollected {plan b reading} (hs : t.stage = .buffering plan b)
      (h : b.step = .done (.error .overflow) reading) :
      Gone c clock i w t w.tree (.broken clock)
  | uncreated {plan destination declared body l tree}
      (hs : t.stage = .waiting plan destination (.overwrite declared body) l)
      (hheld : (w.table.mutex l).holder = some i)
      (h : startStreaming c.readTimeout declared clock body (partPath destination) w.tree =
        (.error .overflow, tree)) :
      Gone c clock i w t (dropPart tree (partPath destination)).1 (.broken clock)
  | unstreamed {plan destination s l reading tree} (hs : t.stage = .streaming plan destination s l)
      (h : s.step (partPath destination) w.tree = (.done (.error .overflow) reading, tree)) :
      Gone c clock i w t (dropPart tree (partPath destination)).1 (.broken clock)
  | unreported {plan ended} (hs : t.stage = .reporting plan ended)
      (h : replyTo? plan.mode ended.result = none) :
      Gone c clock i w t w.tree (.broken clock)

/-- What one task can do, and what becomes of the things it shares.  The names follow the stages:
each case is one way in which a stage is left. -/
inductive Move (c : Config) (clock : Nat) (i : TaskId) (w : Shared) (t : Task) :
    Shared → Task → Prop
  | quiet {t'} (h : Quiet c clock i w t t') : Move c clock i w t w t'
  | enqueue {plan hint} (hs : t.stage = .arriving)
      (h : classify c t.request.path t.request.headers = .ok plan)
      (hmode : plan.mode = .sequenced hint) :
      Move c clock i w t { w with sequencer := w.sequencer.enter i } (t.at (.queued plan hint))
  | refer {plan destination work} (hs : t.stage = .seeking plan destination work) :
      Move c clock i w t { w with table := (w.table.reference destination).2 }
        (t.at (.asking plan destination work (w.table.reference destination).1))
  | ask {plan destination work l} (hs : t.stage = .asking plan destination work l) :
      Move c clock i w t { w with table := w.table.onMutex l (·.enter i) }
        (t.at (.waiting plan destination work l))
  | append {plan destination payload reading l}
      (hs : t.stage = .waiting plan destination (.append payload reading) l)
      (hheld : (w.table.mutex l).holder = some i) :
      Move c clock i w t
        { w with tree := (appendRead payload destination reading w.tree).tree }
        (t.at (.unlocking plan destination
          ⟨(appendRead payload destination reading w.tree).result, reading⟩ l))
  | create {plan destination declared body l s tree}
      (hs : t.stage = .waiting plan destination (.overwrite declared body) l)
      (hheld : (w.table.mutex l).holder = some i)
      (h : startStreaming c.readTimeout declared clock body (partPath destination) w.tree =
        (.ok s, tree)) :
      Move c clock i w t { w with tree := tree } (t.at (.streaming plan destination s l))
  | createFails {plan destination declared body l cause tree}
      (hs : t.stage = .waiting plan destination (.overwrite declared body) l)
      (hheld : (w.table.mutex l).holder = some i)
      (h : startStreaming c.readTimeout declared clock body (partPath destination) w.tree =
        (.error (.failed cause), tree)) :
      Move c clock i w t { w with tree := tree }
        (t.at (.dropping plan destination
          ⟨.error (.failed cause), Reading.begin c.readTimeout declared clock body⟩ l))
  | streamOn {plan destination s l s' tree} (hs : t.stage = .streaming plan destination s l)
      (h : s.step (partPath destination) w.tree = (.again s', tree)) :
      Move c clock i w t { w with tree := tree } (t.at (.streaming plan destination s' l))
  | streamed {plan destination s l reading tree} (hs : t.stage = .streaming plan destination s l)
      (h : s.step (partPath destination) w.tree = (.done (.ok ()) reading, tree)) :
      Move c clock i w t { w with tree := tree } (t.at (.publishing plan destination reading l))
  | streamFails {plan destination s l cause reading tree}
      (hs : t.stage = .streaming plan destination s l)
      (h : s.step (partPath destination) w.tree = (.done (.error (.failed cause)) reading, tree)) :
      Move c clock i w t { w with tree := tree }
        (t.at (.dropping plan destination ⟨.error (.failed cause), reading⟩ l))
  | publish {plan destination reading l tree}
      (hs : t.stage = .publishing plan destination reading l)
      (h : publish w.tree (partPath destination) destination = (.ok (), tree)) :
      Move c clock i w t { w with tree := tree }
        (t.at (.unlocking plan destination ⟨.ok ⟨destination, plan.length⟩, reading⟩ l))
  | publishFails {plan destination reading l stop tree}
      (hs : t.stage = .publishing plan destination reading l)
      (h : publish w.tree (partPath destination) destination = (.error stop, tree)) :
      Move c clock i w t { w with tree := tree }
        (t.at (.dropping plan destination ⟨.error stop, reading⟩ l))
  | drop {plan destination ended l} (hs : t.stage = .dropping plan destination ended l) :
      Move c clock i w t { w with tree := (dropPart w.tree (partPath destination)).1 }
        (t.at (.unlocking plan destination ended l))
  | unlock {plan destination ended l} (hs : t.stage = .unlocking plan destination ended l) :
      Move c clock i w t { w with table := w.table.onMutex l (·.leave i) }
        (t.at (.releasing plan destination ended l))
  | release {plan destination ended l} (hs : t.stage = .releasing plan destination ended l) :
      Move c clock i w t { w with table := w.table.release destination l }
        (t.at (.counting plan ended))
  | count {plan ended ticket outcome session} (hs : t.stage = .counting plan ended)
      (hticket : t.ticket = some ticket) (h : ended.result = .ok outcome)
      (hcommit : ticket.session.commit ticket.slot.index = .ok session) :
      Move c clock i w t { w with counter := session.counter } (t.at (.leaving plan ended))
  | leave {plan ended} (hs : t.stage = .leaving plan ended) :
      Move c clock i w t { w with sequencer := w.sequencer.leave i }
        { t with ticket := none, stage := .reporting plan ended }
  | vanish {tree s} (h : Gone c clock i w t tree s) : Move c clock i w t (w.without i t tree) (t.at s)

/-! ## Steps are moves -/

-- what the file operations do is told by their lemmas
attribute [local irreducible] dropPart startStreaming Streaming.step publish appendRead

/-- A machine after a move of one task: its task and the shared things have changed as `Move` says,
and nothing else has. -/
structure Machine.Moved (m : Machine) (i : TaskId) (t t' : Task) (m' : Machine) : Prop where
  move : Move m.config m.clock i m.shared t m'.shared t'
  tasks : m'.tasks = m.tasks.set i t'
  config : m'.config = m.config
  clock : m'.clock = m.clock

section

variable {m : Machine} {i : TaskId} {t : Task}

/-- Who moved is found afterwards under the same number, as the move left it. -/
theorem Machine.Moved.self {m' : Machine} {t' : Task} (hmv : m.Moved i t t' m')
    (hi : m.tasks[i]? = some t) : m'.tasks[i]? = some t' := by
  rw [hmv.tasks]
  exact List.getElem?_set_self (List.getElem?_eq_some_iff.mp hi).1

/-- Who else is there is not touched by a move. -/
theorem Machine.Moved.others {m' : Machine} {j : TaskId} {t' : Task} (hmv : m.Moved i t t' m')
    (hij : j ≠ i) : m'.tasks[j]? = m.tasks[j]? := by
  rw [hmv.tasks, List.getElem?_set_ne hij.symm]

/-- Who comes in is given a number of his own, so nothing changes under any other. -/
theorem Machine.getElem?_admitTask (m : Machine) (request : Request) {j : TaskId}
    (hj : j ≠ m.tasks.length) : (m.admitTask request).tasks[j]? = m.tasks[j]? := by
  show (m.tasks ++ [Task.new request])[j]? = _
  rcases Nat.lt_or_gt_of_ne hj with hlt | hgt
  · exact List.getElem?_append_left hlt
  · rw [List.getElem?_eq_none (Nat.le_of_lt hgt),
      List.getElem?_eq_none (by rw [List.length_append]; exact hgt)]

/-- The number is the next one that is free. -/
theorem Machine.getElem?_admitTask_length (m : Machine) (request : Request) :
    (m.admitTask request).tasks[m.tasks.length]? = some (Task.new request) :=
  List.getElem?_concat_length

/-- Who is there is found under the same number after somebody came in. -/
theorem Machine.found_admitTask (request : Request) (hi : m.tasks[i]? = some t) :
    (m.admitTask request).tasks[i]? = some t := by
  rw [m.getElem?_admitTask request (Nat.ne_of_lt (List.getElem?_eq_some_iff.mp hi).1), hi]

/-- What giving up all that a task has comes to: the machine is left with what is shared without it.
The task itself is still at its old stage, since its handler puts it at the new one. -/
structure Machine.GivesUp (m : Machine) (i : TaskId) (t : Task) (tree : Tree) (m' : Machine) :
    Prop where
  shared : m'.shared = m.shared.without i t tree
  tasks : m'.tasks = m.tasks
  config : m'.config = m.config
  clock : m'.clock = m.clock

/-- Whoever is not streaming has no part file to be removed, so the disk is left alone. -/
theorem Machine.abandon_givesUp
    (hs : ∀ plan destination s l, t.stage ≠ .streaming plan destination s l) :
    m.GivesUp i t m.tree (m.abandon i t) := by
  obtain ⟨request, ticket, stage⟩ := t
  cases stage with
  | streaming plan destination s l => exact absurd rfl (hs plan destination s l)
  | _ => cases ticket <;> exact ⟨rfl, rfl, rfl, rfl⟩

/-- Whoever is streaming leaves his part file behind, and it is removed. -/
theorem Machine.abandon_streaming {plan destination s l}
    (hs : t.stage = .streaming plan destination s l) :
    m.GivesUp i t (dropPart m.tree (partPath destination)).1 (m.abandon i t) := by
  obtain ⟨request, ticket, stage⟩ := t
  subst hs
  cases ticket <;> exact ⟨rfl, rfl, rfl, rfl⟩

/-- Whoever gave up everything has vanished. -/
theorem Machine.GivesUp.moved {m' : Machine} {tree : Tree} {s : Stage}
    (h : m.GivesUp i t tree m') (hg : Gone m.config m.clock i m.shared t tree s) :
    m.Moved i t (t.at s) (m'.toStage i t s) := by
  refine ⟨?_, ?_, h.config, h.clock⟩
  · have hshared : (m'.toStage i t s).shared = m.shared.without i t tree := h.shared
    rw [hshared]
    exact .vanish hg
  · show m'.tasks.set i (t.at s) = _
    rw [h.tasks]

/-- A request that arrives is classified, and what happens next depends on how it is to be stored.
Uploads that are collected start reading at once, which is where their deadline may turn out not to
be representable. -/
theorem stepArriving_moved (hs : t.stage = .arriving) :
    ∃ t', m.Moved i t t' (m.stepArriving i t) := by
  have hnot : ∀ plan destination s l, t.stage ≠ .streaming plan destination s l := by
    rw [hs]; simp
  unfold Machine.stepArriving
  split
  · rename_i rejection h
    exact ⟨_, .quiet (.reject hs h), rfl, rfl, rfl⟩
  · rename_i plan h
    simp only
    split
    · rename_i hmode
      split
      · rename_i hlen
        exact ⟨_, .quiet (.skip hs h hmode hlen), rfl, rfl, rfl⟩
      · rename_i hlen
        have hwhole : plan.mode.isChunked = false := by rw [hmode]; rfl
        split
        · rename_i stop hstart
          exact ⟨_, (Machine.abandon_givesUp hnot).moved (.unstarted hs h hwhole hstart)⟩
        · rename_i b hstart
          exact ⟨_, .quiet (.collect hs h hwhole (fun _ => hlen) hstart), rfl, rfl, rfl⟩
    -- a form is collected like a raw upload, without the shortcut for empty ones
    · rename_i boundary field hmode
      have hwhole : plan.mode.isChunked = false := by rw [hmode]; rfl
      split
      · rename_i stop hstart
        exact ⟨_, (Machine.abandon_givesUp hnot).moved (.unstarted hs h hwhole hstart)⟩
      · rename_i b hstart
        have hform : plan.mode = .rawAppend → plan.length ≠ 0 := by rw [hmode]; simp
        exact ⟨_, .quiet (.collect hs h hwhole hform hstart), rfl, rfl, rfl⟩
    · rename_i name hmode
      exact ⟨_, .quiet (.address hs h hmode), rfl, rfl, rfl⟩
    · rename_i hint hmode
      exact ⟨_, .enqueue hs h hmode, rfl, rfl, rfl⟩

/-- Whoever has got the sequencer is issued the next index, or is refused for the hint he carries.
-/
theorem stepQueued_moved {plan hint} (hs : t.stage = .queued plan hint)
    (hheld : m.sequencer.holder = some i) :
    ∃ t', m.Moved i t t' (m.stepQueued i t plan hint) := by
  unfold Machine.stepQueued
  simp only
  split
  · rename_i fault h
    exact ⟨_, .quiet (.refuse hs hheld h), rfl, rfl, rfl⟩
  · rename_i slot session h
    exact ⟨_, .quiet (.issue hs hheld h), rfl, rfl, rfl⟩

/-- A turn of collecting goes on, breaks down, fails, or ends with bytes that still have to be made
a payload. -/
theorem stepBuffering_moved {plan b} (hs : t.stage = .buffering plan b) :
    ∃ t', m.Moved i t t' (m.stepBuffering i t plan b) := by
  have hnot : ∀ plan destination s l, t.stage ≠ .streaming plan destination s l := by
    rw [hs]; simp
  unfold Machine.stepBuffering
  split
  · rename_i b' h
    exact ⟨_, .quiet (.collectOn hs h), rfl, rfl, rfl⟩
  · rename_i reading h
    exact ⟨_, (Machine.abandon_givesUp hnot).moved (.uncollected hs h)⟩
  · rename_i cause reading h
    exact ⟨_, .quiet (.collectFails hs h), rfl, rfl, rfl⟩
  · rename_i bytes reading h
    split
    · rename_i rejection hpay
      exact ⟨_, .quiet (.unfit hs h hpay), rfl, rfl, rfl⟩
    · rename_i payload hpay
      exact ⟨_, .quiet (.collected hs h hpay), rfl, rfl, rfl⟩

/-- Whoever has got the lock appends, or creates the part file and starts to stream. -/
theorem stepWaiting_moved {plan destination work l}
    (hs : t.stage = .waiting plan destination work l)
    (hheld : (m.table.mutex l).holder = some i) :
    ∃ t', m.Moved i t t' (m.stepWaiting i t plan destination work l) := by
  unfold Machine.stepWaiting
  cases work with
  | append payload reading => exact ⟨_, .append hs hheld, rfl, rfl, rfl⟩
  | overwrite declared body =>
    simp only
    split
    · rename_i s tree h
      exact ⟨_, .create hs hheld h, rfl, rfl, rfl⟩
    · rename_i tree h
      have hnot : ∀ plan destination s l, t.stage ≠ .streaming plan destination s l := by
        rw [hs]; simp
      -- the file was created before the deadline could not be computed, so giving up starts from
      -- another disk
      have hgone : Gone m.config m.clock i m.shared t _ _ := .uncreated hs hheld h
      have hgives := Machine.abandon_givesUp (i := i)
        (m := { m with tree := tree }.abandonPart destination) hnot
      exact ⟨_, Machine.GivesUp.moved ⟨hgives.shared, hgives.tasks, hgives.config, hgives.clock⟩
        hgone⟩
    · rename_i cause tree h
      exact ⟨_, .createFails hs hheld h, rfl, rfl, rfl⟩

/-- A turn of streaming goes on, ends, breaks down or fails.  Only a breakdown removes the part file
at once; a failure leaves that to a step of its own. -/
theorem stepStreaming_moved {plan destination s l}
    (hs : t.stage = .streaming plan destination s l) :
    ∃ t', m.Moved i t t' (m.stepStreaming i t plan destination s l) := by
  unfold Machine.stepStreaming
  split
  · rename_i s' tree h
    exact ⟨_, .streamOn hs h, rfl, rfl, rfl⟩
  · rename_i reading tree h
    exact ⟨_, .streamed hs h, rfl, rfl, rfl⟩
  · rename_i reading tree h
    have hgone : Gone m.config m.clock i m.shared t _ _ := .unstreamed hs h
    have hgives := Machine.abandon_streaming (i := i) (m := { m with tree := tree }) hs
    exact ⟨_, Machine.GivesUp.moved ⟨hgives.shared, hgives.tasks, hgives.config, hgives.clock⟩
      hgone⟩
  · rename_i cause reading tree h
    exact ⟨_, .streamFails hs h, rfl, rfl, rfl⟩

/-- The part file is renamed into place, or it cannot be. -/
theorem stepPublishing_moved {plan destination reading l}
    (hs : t.stage = .publishing plan destination reading l) :
    ∃ t', m.Moved i t t' (m.stepPublishing i t plan destination reading l) := by
  unfold Machine.stepPublishing
  split
  · rename_i tree h
    exact ⟨_, .publish hs h, rfl, rfl, rfl⟩
  · rename_i stop tree h
    exact ⟨_, .publishFails hs h, rfl, rfl, rfl⟩

/-- A stored segment is counted: its index is committed if it is still the one to be committed. -/
theorem stepCounting_moved {plan ended} (hs : t.stage = .counting plan ended) :
    ∃ t', m.Moved i t t' (m.stepCounting i t plan ended) := by
  unfold Machine.stepCounting
  simp only
  split
  · rename_i hticket
    exact ⟨_, .quiet (.pass hs hticket), rfl, rfl, rfl⟩
  · rename_i ticket hticket
    split
    · rename_i stop h
      exact ⟨_, .quiet (.uncounted hs hticket h), rfl, rfl, rfl⟩
    · rename_i outcome h
      split
      · rename_i fault hcommit
        exact ⟨_, .quiet (.stale hs hticket h hcommit), rfl, rfl, rfl⟩
      · rename_i session hcommit
        exact ⟨_, .count hs hticket h hcommit, rfl, rfl, rfl⟩

/-- Every result but a breakdown has a reply. -/
theorem stepReporting_moved {plan ended} (hs : t.stage = .reporting plan ended) :
    ∃ t', m.Moved i t t' (m.stepReporting i t plan ended) := by
  have hnot : ∀ plan destination s l, t.stage ≠ .streaming plan destination s l := by
    rw [hs]; simp
  unfold Machine.stepReporting
  split
  · rename_i h
    exact ⟨_, (Machine.abandon_givesUp hnot).moved (.unreported hs h)⟩
  · rename_i reply h
    exact ⟨_, .quiet (.answer hs h), rfl, rfl, rfl⟩

end

/-- A step is a move of its task.  The stage decides which, and stages that wait for a lock make no
step until they hold it. -/
theorem step_moved {m m' : Machine} {i : TaskId} (h : m.step i = some m') :
    ∃ t t', m.tasks[i]? = some t ∧ m.Moved i t t' m' := by
  unfold Machine.step at h
  split at h
  · simp at h
  · rename_i t hi
    refine ⟨t, ?_⟩
    simp only [hi, true_and]
    cases hs : t.stage with
    | arriving =>
      simp only [hs, Option.some.injEq] at h
      exact h ▸ stepArriving_moved hs
    | queued plan hint =>
      simp only [hs, Machine.holdsSequencer, beq_iff_eq, Option.ite_none_right_eq_some,
        Option.some.injEq] at h
      exact h.2 ▸ stepQueued_moved hs h.1
    | buffering plan b =>
      simp only [hs, Option.some.injEq] at h
      exact h ▸ stepBuffering_moved hs
    | seeking plan destination work =>
      simp only [hs, Option.some.injEq] at h
      exact h ▸ ⟨_, .refer hs, rfl, rfl, rfl⟩
    | asking plan destination work l =>
      simp only [hs, Option.some.injEq] at h
      exact h ▸ ⟨_, .ask hs, rfl, rfl, rfl⟩
    | waiting plan destination work l =>
      simp only [hs, Machine.holdsLock, beq_iff_eq, Option.ite_none_right_eq_some,
        Option.some.injEq] at h
      exact h.2 ▸ stepWaiting_moved hs h.1
    | streaming plan destination s l =>
      simp only [hs, Option.some.injEq] at h
      exact h ▸ stepStreaming_moved hs
    | publishing plan destination reading l =>
      simp only [hs, Option.some.injEq] at h
      exact h ▸ stepPublishing_moved hs
    | dropping plan destination ended l =>
      simp only [hs, Option.some.injEq] at h
      exact h ▸ ⟨_, .drop hs, rfl, rfl, rfl⟩
    | unlocking plan destination ended l =>
      simp only [hs, Option.some.injEq] at h
      exact h ▸ ⟨_, .unlock hs, rfl, rfl, rfl⟩
    | releasing plan destination ended l =>
      simp only [hs, Option.some.injEq] at h
      exact h ▸ ⟨_, .release hs, rfl, rfl, rfl⟩
    | counting plan ended =>
      simp only [hs, Option.some.injEq] at h
      exact h ▸ stepCounting_moved hs
    | leaving plan ended =>
      simp only [hs, Option.some.injEq] at h
      exact h ▸ ⟨_, .leave hs, rfl, rfl, rfl⟩
    | reporting plan ended =>
      simp only [hs, Option.some.injEq] at h
      exact h ▸ stepReporting_moved hs
    | finished reply taken time => simp [hs] at h
    | cancelled time => simp [hs] at h
    | broken time => simp [hs] at h

/-- A disconnection is a move of its task: it vanishes from wherever it can be waiting, which are
the line for the sequencer, the body, and the line for a lock. -/
theorem cancel_moved {m m' : Machine} {i : TaskId} (h : m.cancel i = some m') :
    ∃ t tree, m.tasks[i]? = some t ∧
      Gone m.config m.clock i m.shared t tree (.cancelled m.clock) ∧
      m.Moved i t (t.at (.cancelled m.clock)) m' := by
  unfold Machine.cancel at h
  split at h
  · simp at h
  · rename_i t hi
    simp only [hi]
    -- in all of these but one there is no part file
    have hnot : (∀ plan destination s l, t.stage ≠ .streaming plan destination s l) →
        m.GivesUp i t m.tree (m.abandon i t) := Machine.abandon_givesUp
    cases hs : t.stage with
    | queued plan hint =>
      simp only [hs, Option.some.injEq] at h
      have hg : Gone m.config m.clock i m.shared t m.tree _ := .queued hs
      exact h ▸ ⟨t, _, rfl, hg, (hnot (by rw [hs]; simp)).moved hg⟩
    | buffering plan b =>
      simp only [hs, Option.some.injEq] at h
      have hg : Gone m.config m.clock i m.shared t m.tree _ := .buffering hs
      exact h ▸ ⟨t, _, rfl, hg, (hnot (by rw [hs]; simp)).moved hg⟩
    | waiting plan destination work l =>
      simp only [hs, Option.some.injEq] at h
      have hg : Gone m.config m.clock i m.shared t m.tree _ := .waiting hs
      exact h ▸ ⟨t, _, rfl, hg, (hnot (by rw [hs]; simp)).moved hg⟩
    | streaming plan destination s l =>
      simp only [hs, Option.some.injEq] at h
      have hg : Gone m.config m.clock i m.shared t
        (dropPart m.tree (partPath destination)).1 _ := .streaming hs
      exact h ▸ ⟨t, _, rfl, hg, (Machine.abandon_streaming hs).moved hg⟩
    | _ => simp [hs] at h

/-- No move changes the request, so what an upload is about can be asked at any time. -/
theorem Move.request_eq {c : Config} {clock : Nat} {w w' : Shared} {t t' : Task} {i : TaskId}
    (h : Move c clock i w t w' t') : t'.request = t.request := by
  cases h with
  | quiet h => cases h <;> rfl
  | _ => rfl

end LiveIngest.Traffic
