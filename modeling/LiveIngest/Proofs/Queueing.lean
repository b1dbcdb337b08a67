import LiveIngest.Proofs.Answering

/-!
# Uploads go on and come to an end

Uploads wait for each other's locks, but never in a circle, and never for ever.

1. **Lines.**  In the line of a lock stand exactly the tasks that want it, each once
   (`Mutex.LinesUp`).  A move lets its own task enter a line or leave it and does nothing else to it
   (`Mutex.Change`), which keeps all lines in order (`Machine.Lined`).

2. **Nobody waits in a circle.**  Whoever holds the lock of a destination can move.  Whoever holds the
   sequencer can move, or waits for the lock of a destination; nobody waits for the sequencer while
   holding such a lock.  So as long as an upload is not over, some upload can move
   (`Machine.Lined.exists_free`).

3. **Moves run out.**  A task goes through its stages in one direction, except that it may read many
   pieces, and each piece leaves fewer to be read.  `Stage.ahead` counts what a task has ahead of it,
   and every move takes some of it away (`Move.ahead_lt`).

`uploads_end` puts this together: however the uploads of a machine go on, and even if no client
disconnects, they cannot go on for ever, and when none can go on all are over.

The order in which locks are taken is the whole reason why there is no circle: the sequencer before
the lock of a destination.  It shows in `Lined.free_of_wantsSequencer`, whose one step from the
first to the second is never made the other way.
-/

namespace LiveIngest.Traffic

open LiveIngest.Body
open LiveIngest.Upload

attribute [local irreducible] dropPart startStreaming Streaming.step publish appendRead partPath

/-! ## Lines -/

/-- What happens to a lock when one task moves, which wanted it or not before and wants it or not
afterwards.  Wanting is holding or waiting. -/
inductive Mutex.Change (m : Mutex) (i : TaskId) (before after : Bool) : Mutex → Prop
  | keep (h : after = before) : Change m i before after m
  | enter (hbefore : before = false) (hafter : after = true) : Change m i before after (m.enter i)
  | leave (hbefore : before = true) (hafter : after = false) : Change m i before after (m.leave i)

/-- Whoever holds a lock after a move of somebody else held it before, or was handed it. -/
theorem Mutex.Change.holder {m m' : Mutex} {i j : TaskId} {before after : Bool}
    (h : m.Change i before after m') (hij : j ≠ i) (hj : m'.holder = some j) :
    m.holder = some j ∨ before = true ∧ after = false := by
  cases h with
  | keep hsame => exact Or.inl hj
  | enter hbefore hafter =>
    refine Or.inl ?_
    unfold Mutex.enter at hj
    split at hj
    · exact absurd (Option.some.inj hj).symm hij
    · exact hj
  | leave hbefore hafter => exact Or.inr ⟨hbefore, hafter⟩

/-- In the line of a lock stand the tasks that want it, each of them once.  So a lock is handed on
to somebody who wants it. -/
structure Mutex.LinesUp (m : Mutex) (tasks : List Task) (wants : Task → Bool) : Prop where
  orderly : m.Orderly
  nodup : m.line.Nodup
  mem : ∀ i, i ∈ m.line ↔ ∃ t, tasks[i]? = some t ∧ wants t = true

namespace Mutex.LinesUp

variable {m m' : Mutex} {tasks : List Task} {wants : Task → Bool} {i : TaskId} {t t' : Task}

/-- Where nobody wants a lock it may be free. -/
theorem free (h : ∀ t ∈ tasks, wants t = false) : Mutex.free.LinesUp tasks wants := by
  refine ⟨fun _ => rfl, List.nodup_nil, fun i => ⟨fun hi => absurd hi List.not_mem_nil, ?_⟩⟩
  rintro ⟨t, hi, hw⟩
  rw [h t (List.mem_of_getElem? hi)] at hw
  exact absurd hw (by simp)

/-- Who comes in wants nothing yet. -/
theorem concat (h : m.LinesUp tasks wants) (ht : wants t = false) :
    m.LinesUp (tasks ++ [t]) wants := by
  refine ⟨h.orderly, h.nodup, fun i => (h.mem i).trans ⟨?_, ?_⟩⟩
  · rintro ⟨u, hi, hu⟩
    exact ⟨u, by rwa [List.getElem?_append_left (List.getElem?_eq_some_iff.mp hi).1], hu⟩
  · rintro ⟨u, hi, hu⟩
    rcases getElem?_concat_cases hi with hi | rfl
    · exact ⟨u, hi, hu⟩
    · rw [ht] at hu
      exact absurd hu (by simp)

/-- A lock that anybody wants is held by somebody who wants it: it is not left free while there is a
line. -/
theorem exists_holder (h : m.LinesUp tasks wants) (hi : tasks[i]? = some t) (ht : wants t = true) :
    ∃ j u, m.holder = some j ∧ tasks[j]? = some u ∧ wants u = true := by
  have hin : i ∈ m.line := (h.mem i).mpr ⟨t, hi, ht⟩
  cases hh : m.holder with
  | none =>
    rw [line, hh, h.orderly hh] at hin
    exact absurd hin (by simp)
  | some j =>
    obtain ⟨u, hj, hu⟩ := (h.mem j).mp (by rw [line_of_holder hh]; exact List.mem_cons_self)
    exact ⟨j, u, rfl, hj, hu⟩

/-- Whether anybody else wants a lock is not touched by a move. -/
theorem mem_others (h : m.LinesUp tasks wants) {j : TaskId} (hij : j ≠ i) :
    j ∈ m.line ↔ ∃ u, (tasks.set i t')[j]? = some u ∧ wants u = true := by
  rw [h.mem, List.getElem?_set_ne hij.symm]

/-- Whether the task itself wants it is seen from the line. -/
theorem wants_iff (h : m.LinesUp tasks wants) (hi : tasks[i]? = some t) :
    i ∈ m.line ↔ wants t = true := by
  rw [h.mem, hi]
  simp

/-- A move keeps the line in order.  Coming goes to the end of the line and going takes out of it,
both only for the task that moves. -/
theorem change (h : m.LinesUp tasks wants) (hi : tasks[i]? = some t)
    (hc : m.Change i (wants t) (wants t') m') : m'.LinesUp (tasks.set i t') wants := by
  have hset : (tasks.set i t')[i]? = some t' :=
    List.getElem?_set_self (List.getElem?_eq_some_iff.mp hi).1
  have hself := h.wants_iff hi
  -- the line of the others is what it was, so only the task itself is to be looked at
  have hmem : ∀ {l : List TaskId}, (∀ j, j ≠ i → (j ∈ l ↔ j ∈ m.line)) →
      (i ∈ l ↔ wants t' = true) →
      ∀ j, j ∈ l ↔ ∃ u, (tasks.set i t')[j]? = some u ∧ wants u = true := by
    intro l hothers hi' j
    by_cases hij : j = i
    · subst hij
      rw [hi', hset]
      simp
    · rw [hothers j hij]
      exact h.mem_others hij
  cases hc with
  | keep hsame => exact ⟨h.orderly, h.nodup, hmem (fun _ _ => Iff.rfl) (by rw [hself, hsame])⟩
  | enter hbefore hafter =>
    have hout : i ∉ m.line := by simp [hself, hbefore]
    refine ⟨orderly_enter m i, ?_, ?_⟩ <;> rw [line_enter h.orderly]
    · rw [← List.concat_eq_append, List.nodup_concat]
      exact ⟨hout, h.nodup⟩
    · exact hmem (fun j hij => by simp [hij]) (by simp [hafter])
  | leave hbefore hafter =>
    refine ⟨h.orderly.leave i, ?_, ?_⟩ <;> rw [line_leave]
    · exact h.nodup.erase i
    · exact hmem (fun j hij => List.mem_erase_of_ne hij) (by simp [hafter, h.nodup.mem_erase_iff])

end Mutex.LinesUp

/-! ## Who wants what -/

/-- The lock of a destination that a task holds or waits for.  A reference alone is neither. -/
def Stage.line? : Stage → Option LockId
  | .waiting _ _ _ l => some l
  | s => s.lock?

/-- Whether a task holds a lock of the table or waits for it. -/
def Task.wants (l : LockId) (t : Task) : Bool := t.stage.line? == some l

/-- Whether a task holds the sequencer or waits for it.  After it was queued this goes with its
ticket. -/
def Task.wantsSequencer (t : Task) : Bool :=
  match t.stage with
  | .queued .. => true
  | .leaving .. => true
  | .arriving | .buffering .. | .reporting .. | .finished .. | .cancelled _ | .broken _ => false
  | _ => t.ticket.isSome

/-- Whoever has a ticket wants the sequencer. -/
def Task.Fit (t : Task) : Prop :=
  t.ticket ≠ none → t.stage.isOver = false → t.wantsSequencer = true

/-- Who refers to no lock stands in no line of one. -/
theorem Stage.line?_of_ref? {s : Stage} (h : s.ref? = none) : s.line? = none := by
  cases s <;> simp_all [Stage.line?, Stage.lock?, Stage.ref?]

/-- And wants none. -/
theorem Task.wants_of_ref? {t : Task} (h : t.stage.ref? = none) (l : LockId) : t.wants l = false := by
  simp [Task.wants, Stage.line?_of_ref? h]

/-- A new reference touches no mutex, not even that of a lock that was just made, which is free. -/
theorem LockTable.mutex_reference (table : LockTable) (d : String) (l : LockId) :
    (table.reference d).2.mutex l = table.mutex l := by
  unfold LockTable.reference
  split
  · exact LockTable.mutex_onRefs ..
  · unfold LockTable.mutex
    rcases Nat.lt_trichotomy l table.locks.length with h | h | h
    · simp only [List.getElem?_append_left h]
    · subst h
      simp
    · rw [List.getElem?_eq_none (Nat.le_of_lt h),
        List.getElem?_eq_none (by simpa using Nat.succ_le_of_lt h)]

/-- Giving a reference back touches no mutex. -/
theorem LockTable.mutex_release (table : LockTable) (d : String) (l k : LockId) :
    (table.release d l).mutex k = table.mutex k := by
  have hdrop : (table.dropRef l).mutex k = table.mutex k := LockTable.mutex_onRefs ..
  unfold LockTable.release
  simp only
  split
  · exact hdrop
  · split
    · exact hdrop
    · exact hdrop

section

variable {c : Config} {clock : Nat} {i : TaskId} {w w' : Shared} {t t' : Task}

/-- A change of one mutex of the table, seen from any of them. -/
theorem Mutex.Change.onMutex {table : LockTable} {k : LockId} (hk : k < table.locks.length)
    {f : Mutex → Mutex} (hother : ∀ l, l ≠ k → t'.wants l = t.wants l)
    (hself : (table.mutex k).Change i (t.wants k) (t'.wants k) (f (table.mutex k))) (l : LockId) :
    (table.mutex l).Change i (t.wants l) (t'.wants l) ((table.onMutex k f).mutex l) := by
  by_cases hl : l = k
  · subst hl
    rw [LockTable.mutex_onMutex_self hk]
    exact hself
  · rw [LockTable.mutex_onMutex_ne hl]
    exact .keep (hother l hl)

/-- Whoever vanishes leaves the line, and gives up its reference. -/
theorem Mutex.Change.vanish {table : LockTable} {k : LockId} (hk : k < table.locks.length)
    {s : Stage} (hline : t.stage.line? = some k) (hover : s.isOver = true) (l : LockId) :
    (table.mutex l).Change i (t.wants l) ((t.at s).wants l)
      (((table.onMutex k (·.leave i)).dropRef k).mutex l) := by
  have hnone : ∀ l, (t.at s).wants l = false := fun l =>
    Task.wants_of_ref? (by cases s <;> simp_all [Stage.isOver, Stage.ref?]) l
  have hdrop : ((table.onMutex k (·.leave i)).dropRef k).mutex l =
      (table.onMutex k (·.leave i)).mutex l := LockTable.mutex_onRefs ..
  rw [hdrop]
  refine .onMutex hk (fun l hl => ?_) (.leave ?_ (hnone k)) l
  · rw [hnone]
    simpa [Task.wants, hline] using fun e => hl e.symm
  · simp [Task.wants, hline]

/-- What a move does to the lock of a destination.  Only asking, unlocking and vanishing change any.
-/
theorem Move.lock_change (h : Move c clock i w t w' t')
    (hbound : ∀ d l, t.stage.ref? = some (d, l) → l < w.table.locks.length) (l : LockId) :
    (w.table.mutex l).Change i (t.wants l) (t'.wants l) (w'.table.mutex l) := by
  cases h with
  | quiet h =>
    obtain ⟨ht, ht', -⟩ := h.ref?
    exact .keep (by rw [Task.wants_of_ref? ht, Task.wants_of_ref? ht'])
  | enqueue hs | append hs | create hs | createFails hs | streamOn hs | streamed hs
  | streamFails hs | publish hs | publishFails hs | drop hs | count hs | leave hs =>
    exact .keep (by simp [Task.wants, hs, Stage.line?, Stage.lock?])
  | refer hs =>
    simp only [LockTable.mutex_reference]
    exact .keep (by simp [Task.wants, hs, Stage.line?, Stage.lock?])
  | ask hs =>
    refine Mutex.Change.onMutex (hbound _ _ (by rw [hs]; rfl)) (fun l hl => ?_) (.enter ?_ ?_) l
    · simpa [Task.wants, hs, Stage.line?, Stage.lock?] using fun e => hl e.symm
    · simp [Task.wants, hs, Stage.line?, Stage.lock?]
    · simp [Task.wants, Stage.line?]
  | unlock hs =>
    refine Mutex.Change.onMutex (hbound _ _ (by rw [hs]; rfl)) (fun l hl => ?_) (.leave ?_ ?_) l
    · simpa [Task.wants, hs, Stage.line?, Stage.lock?] using fun e => hl e.symm
    · simp [Task.wants, hs, Stage.line?, Stage.lock?]
    · simp [Task.wants, Stage.line?, Stage.lock?]
  | release hs =>
    simp only [LockTable.mutex_release]
    exact .keep (by simp [Task.wants, hs, Stage.line?, Stage.lock?])
  | vanish h =>
    have hover := h.isOver
    cases h with
    -- only at these stages a task has a place in the line of a destination
    | waiting hs | streaming hs | uncreated hs | unstreamed hs =>
      simp only [Shared.without, Shared.tableWithout, hs]
      exact .vanish (hbound _ _ (by rw [hs]; rfl)) (by rw [hs]; rfl) hover l
    | queued hs | buffering hs | unstarted hs | uncollected hs | unreported hs =>
      simp only [Shared.without, Shared.tableWithout, hs]
      exact .keep (by simp [Task.wants, hs, Stage.line?, Stage.lock?])

/-- Only those vanish who are not over. -/
theorem Gone.going {tree : Storage.Tree} {s : Stage} (h : Gone c clock i w t tree s) :
    t.stage.isOver = false := by
  cases h <;> simp_all [Stage.isOver]

/-- A quiet move does not touch the sequencer. -/
theorem Quiet.wantsSequencer (h : Quiet c clock i w t t') (hfit : t.Fit) :
    t'.wantsSequencer = t.wantsSequencer ∧ t'.Fit := by
  unfold Task.Fit at hfit ⊢
  cases h <;> simp_all [Task.wantsSequencer, Stage.isOver]

/-- What a move does to the sequencer: a task enters the line with `enqueue`, leaves it with `leave`
or by vanishing. -/
theorem Move.sequencer_change (h : Move c clock i w t w' t') (hfit : t.Fit) :
    w.sequencer.Change i t.wantsSequencer t'.wantsSequencer w'.sequencer ∧ t'.Fit := by
  cases h with
  | quiet h =>
    obtain ⟨hsame, hfit'⟩ := h.wantsSequencer hfit
    exact ⟨.keep hsame, hfit'⟩
  | enqueue hs =>
    exact ⟨.enter (by simp [Task.wantsSequencer, hs]) rfl, fun _ _ => rfl⟩
  | refer hs | ask hs | append hs | create hs | createFails hs | streamOn hs | streamed hs
  | streamFails hs | publish hs | publishFails hs | drop hs | unlock hs | release hs =>
    unfold Task.Fit at hfit ⊢
    exact ⟨.keep (by simp [Task.wantsSequencer, hs]), by
      simpa [Task.wantsSequencer, Stage.isOver, hs] using hfit⟩
  | count hs hticket =>
    exact ⟨.keep (by simp [Task.wantsSequencer, hs, hticket]), fun _ _ => rfl⟩
  | leave hs =>
    exact ⟨.leave (by simp [Task.wantsSequencer, hs]) rfl, fun hticket => absurd rfl hticket⟩
  | vanish h =>
    rename_i tree s
    have hover := h.isOver
    have hnone : (t.at s).wantsSequencer = false := by
      cases s <;> simp_all [Stage.isOver, Task.wantsSequencer]
    refine ⟨?_, fun _ hgoing => ?_⟩
    · show w.sequencer.Change i _ _ (w.sequencerWithout i t)
      -- whoever has a ticket holds the sequencer and lets go of it
      cases hticket : t.ticket with
      | none =>
        -- without a ticket only a task that is queued has a place in the line
        cases h with
        | queued hs =>
          simp only [Shared.sequencerWithout, hs]
          exact .leave (by simp [Task.wantsSequencer, hs]) hnone
        | buffering hs | waiting hs | streaming hs | unstarted hs | uncollected hs | uncreated hs
        | unstreamed hs | unreported hs =>
          simp only [Shared.sequencerWithout, hs, hticket]
          exact .keep (by rw [hnone]; simp [Task.wantsSequencer, hs, hticket])
      | some ticket =>
        have hleave : w.sequencerWithout i t = w.sequencer.leave i := by
          unfold Shared.sequencerWithout
          split <;> simp_all
        rw [hleave]
        exact .leave (hfit (by simp [hticket]) h.going) hnone
    · rw [Task.stage_at, hover] at hgoing
      exact absurd hgoing (by simp)

end

/-! ## All lines together -/

namespace Machine

/-- All lines of a machine are in order. -/
structure Lined (m : Machine) : Prop where
  locked : Locked m.table m.tasks
  fit : ∀ t ∈ m.tasks, t.Fit
  sequencer : m.sequencer.LinesUp m.tasks Task.wantsSequencer
  locks : ∀ l, (m.table.mutex l).LinesUp m.tasks (Task.wants l)

section

variable {m m' : Machine} {i j : TaskId} {t t' u : Task}

/-- At first all locks are free. -/
theorem lined_ofIngest (g : Ingest) : (ofIngest g).Lined where
  locked := Locked.empty
  fit := by simp [ofIngest]
  sequencer := .free (by simp [ofIngest])
  locks := fun _ => .free (by simp [ofIngest])

/-- A new upload wants no lock. -/
theorem Lined.admitTask (h : m.Lined) (request : Request) : (m.admitTask request).Lined where
  locked := h.locked.arrival rfl
  fit := by
    intro t ht
    rcases List.mem_append.mp ht with ht | ht
    · exact h.fit t ht
    · rw [List.mem_singleton.mp ht]
      exact fun hticket => absurd rfl hticket
  sequencer := h.sequencer.concat rfl
  locks := fun l => (h.locks l).concat (Task.wants_of_ref? rfl l)

/-- What a move does to the sequencer. -/
theorem Lined.sequencer_change (h : m.Lined) (hi : m.tasks[i]? = some t)
    (hm : m.Moved i t t' m') :
    m.sequencer.Change i t.wantsSequencer t'.wantsSequencer m'.sequencer :=
  (hm.move.sequencer_change (h.fit t (List.mem_of_getElem? hi))).1

/-- What a move does to the lock of a destination. -/
theorem Lined.lock_change (h : m.Lined) (hi : m.tasks[i]? = some t) (hm : m.Moved i t t' m')
    (l : LockId) : (m.table.mutex l).Change i (t.wants l) (t'.wants l) (m'.table.mutex l) :=
  hm.move.lock_change
    (fun d l href => h.locked.bound d l (h.locked.entry i t d l hi href)) l

/-- A move keeps all lines in order, those of the locks and that of the sequencer. -/
theorem Lined.moved (h : m.Lined) (hi : m.tasks[i]? = some t) (hm : m.Moved i t t' m') :
    m'.Lined := by
  refine ⟨?_, fun u hu => ?_, ?_, fun l => ?_⟩
  · rw [hm.tasks]
    exact hm.move.locked h.locked hi
  · rw [hm.tasks] at hu
    rcases List.mem_or_eq_of_mem_set hu with hu | rfl
    · exact h.fit u hu
    · exact (hm.move.sequencer_change (h.fit t (List.mem_of_getElem? hi))).2
  · rw [hm.tasks]
    exact h.sequencer.change hi (h.sequencer_change hi hm)
  · rw [hm.tasks]
    exact (h.locks l).change hi (h.lock_change hi hm l)

/-- All lines stay in order, whatever happens. -/
theorem Lined.after {e : Happening} (h : m.Lined) (ha : m.after e = some m') : m'.Lined := by
  cases happened ha with
  | arrive request => exact h.admitTask request
  | move hi hm => exact h.moved hi hm
  | disconnect hi hg hm => exact h.moved hi hm
  | pass clock hle => exact ⟨h.locked, h.fit, h.sequencer, h.locks⟩

/-! ## Nobody waits in a circle -/

/-- Whether no lock keeps a task at this stage from moving.  Waiting for data does not count: a task
that reads can move, if only by giving up. -/
def isFree (m : Machine) (i : TaskId) : Stage → Bool
  | .queued _ _ => m.holdsSequencer i
  | .waiting _ _ _ l => m.holdsLock i l
  | .finished .. => false
  | .cancelled _ => false
  | .broken _ => false
  | _ => true

/-- Whoever is free can move, and nobody else. -/
theorem step_isSome (hi : m.tasks[i]? = some t) : (m.step i).isSome = m.isFree i t.stage := by
  unfold step
  simp only [hi]
  cases hs : t.stage with
  | queued plan hint =>
    simp only [isFree]
    split <;> simp_all
  | waiting plan destination work l =>
    simp only [isFree]
    split <;> simp_all
  | _ => rfl

/-- Whoever wants the lock of a destination waits for somebody who is free, or is free itself.  The
holder is past waiting, and waits for no other lock. -/
theorem Lined.free_of_wants (h : m.Lined) {l : LockId} (hi : m.tasks[i]? = some t)
    (ht : t.wants l = true) : ∃ j u, m.tasks[j]? = some u ∧ m.isFree j u.stage = true := by
  obtain ⟨j, u, hheld, hj, hu⟩ := (h.locks l).exists_holder hi ht
  refine ⟨j, u, hj, ?_⟩
  have hline : u.stage.line? = some l := by simpa [Task.wants] using hu
  cases hs : u.stage with
  | waiting plan destination work k =>
    rw [hs] at hline
    cases hline
    simp [isFree, holdsLock, hheld]
  | streaming | publishing | dropping | unlocking => rfl
  | _ => simp [hs, Stage.line?, Stage.lock?] at hline

/-- So does whoever wants the sequencer: its holder waits for the lock of a destination at most. -/
theorem Lined.free_of_wantsSequencer (h : m.Lined) (hi : m.tasks[i]? = some t)
    (ht : t.wantsSequencer = true) :
    ∃ j u, m.tasks[j]? = some u ∧ m.isFree j u.stage = true := by
  obtain ⟨j, u, hheld, hj, hu⟩ := h.sequencer.exists_holder hi ht
  cases hs : u.stage with
  | queued plan hint => exact ⟨j, u, hj, by simp [hs, isFree, holdsSequencer, hheld]⟩
  | waiting plan destination work l =>
    -- the one step along the chain: from the sequencer to a destination, and never back
    exact h.free_of_wants (l := l) hj (by simp [Task.wants, hs, Stage.line?])
  | arriving | buffering | reporting | finished | cancelled | broken =>
    simp [Task.wantsSequencer, hs] at hu
  | _ => exact ⟨j, u, hj, by rw [hs]; rfl⟩

/-- As long as an upload is not over, somebody is free. -/
theorem Lined.exists_free (h : m.Lined) (hi : m.tasks[i]? = some t)
    (hgoing : t.stage.isOver = false) :
    ∃ j u, m.tasks[j]? = some u ∧ m.isFree j u.stage = true := by
  cases hs : t.stage with
  | queued plan hint => exact h.free_of_wantsSequencer hi (by simp [Task.wantsSequencer, hs])
  | waiting plan destination work l =>
    exact h.free_of_wants (l := l) hi (by simp [Task.wants, hs, Stage.line?])
  | finished | cancelled | broken => simp [hs, Stage.isOver] at hgoing
  | _ => exact ⟨i, t, hi, by rw [hs]; rfl⟩

end

end Machine

/-! ## Moves run out -/

/-- The pieces that are still to be read under the lock of the destination. -/
def Work.pieces : Work → Nat
  | .append _ _ => 0
  | .overwrite _ body => body.length

/-- A payload in hand is not read again. -/
@[simp] theorem Work.pieces_append (payload : Bytes) (reading : Reading) :
    (Work.append payload reading).pieces = 0 := rfl

/-- A body that was not touched is all to be read. -/
@[simp] theorem Work.pieces_overwrite (declared : Nat) (body : Schedule) :
    (Work.overwrite declared body).pieces = body.length := rfl

/-- More than the moves that a task has ahead of it at this stage, and than the locks that it will
give up on the way; `body` is the number of pieces of its body. -/
def Stage.ahead (body : Nat) : Stage → Nat
  | .arriving => 16 + body
  | .queued _ _ => 15 + body
  | .buffering _ b => 15 + b.reading.rest.length
  | .seeking _ _ work => 14 + work.pieces
  | .asking _ _ work _ => 13 + work.pieces
  | .waiting _ _ work _ => 12 + work.pieces
  | .streaming _ _ s _ => 11 + s.reading.rest.length
  | .publishing .. => 10
  | .dropping .. => 9
  | .unlocking .. => 8
  | .releasing .. => 6
  | .counting .. => 5
  | .leaving .. => 4
  | .reporting .. => 2
  | .finished .. => 0
  | .cancelled _ => 0
  | .broken _ => 0

/-- More than the moves that a task has ahead of it. -/
def Task.ahead (t : Task) : Nat := t.stage.ahead t.request.body.length

/-- Whoever is over has nothing ahead. -/
theorem Task.ahead_of_isOver {t : Task} (h : t.stage.isOver = true) : t.ahead = 0 := by
  cases hs : t.stage <;> simp_all [Task.ahead, Stage.ahead, Stage.isOver]

/-- How many locks a task gives up by becoming another.  There are two that it can hold, the
sequencer and one of a destination. -/
def Task.gives (t t' : Task) : Nat :=
  (t.wantsSequencer && !t'.wantsSequencer).toNat + (t.stage.line?.any fun l => !t'.wants l).toNat

/-- Two at most. -/
theorem Task.gives_le (t t' : Task) : t.gives t' ≤ 2 :=
  Nat.add_le_add (Bool.toNat_le _) (Bool.toNat_le _)

/-- Reading starts with the whole body. -/
theorem rest_startBuffering {timeout : Span} {declared start : Nat} {body : Schedule} {b : Buffering}
    (h : startBuffering timeout declared start body = .ok b) : b.reading.rest = body := by
  simp only [startBuffering] at h
  split at h
  · cases h
    rfl
  · simp at h

section

variable {c : Config} {clock : Nat} {i : TaskId} {w w' : Shared} {t t' : Task}

/-- A quiet move gives up no lock. -/
theorem Quiet.gives (h : Quiet c clock i w t t') : t.gives t' = 0 := by
  have hline : t.stage.line? = none := Stage.line?_of_ref? h.ref?.1
  have hsequencer : t.wantsSequencer = true → t'.wantsSequencer = true := by
    cases h <;> simp_all [Task.wantsSequencer]
  rw [Task.gives, hline]
  cases hb : t.wantsSequencer with
  | false => rfl
  | true =>
    rw [hsequencer hb]
    rfl

/-- A quiet move goes on to a later stage, or has read a piece. -/
theorem Quiet.ahead_lt (h : Quiet c clock i w t t') : t'.ahead < t.ahead := by
  cases h with
  | collect hs h hmode hlen hstart =>
    simp [Task.ahead, hs, Stage.ahead, rest_startBuffering hstart]
  | collectOn hs h =>
    have := Buffering.step_shorter h
    simp only [Task.ahead, Task.stage_at, hs, Stage.ahead]
    omega
  | reject hs | skip hs | address hs | refuse hs | issue hs | collectFails hs | unfit hs
  | collected hs | pass hs | uncounted hs | stale hs | answer hs =>
    simp only [Task.ahead, Task.stage_at, hs, Stage.ahead, Work.pieces_append, Work.pieces_overwrite]
    omega

/-- Whoever vanishes has nothing ahead any more, and had enough to pay for the locks that it gives
up. -/
theorem Gone.ahead_lt {tree : Storage.Tree} {s : Stage} (h : Gone c clock i w t tree s) :
    (t.at s).ahead + t.gives (t.at s) < t.ahead := by
  rw [Task.ahead_of_isOver (t := t.at s) h.isOver]
  have hgives := t.gives_le (t.at s)
  cases h with
  | unreported hs =>
    simp [Task.ahead, Task.gives, hs, Stage.ahead, Task.wantsSequencer, Stage.line?, Stage.lock?]
  | queued hs | buffering hs | waiting hs | streaming hs | unstarted hs | uncollected hs
  | uncreated hs | unstreamed hs =>
    -- whoever is so far from the end can pay for two locks at once
    simp only [Task.ahead, hs, Stage.ahead]
    omega

/-- A move takes something away of what the task has ahead of it, and more if it gives up locks.
The numbers of `Stage.ahead` are chosen for this: the two stages after which a lock is given up
stand two apart from the next. -/
theorem Move.ahead_lt (h : Move c clock i w t w' t') : t'.ahead + t.gives t' < t.ahead := by
  cases h with
  | quiet h =>
    rw [h.gives]
    exact h.ahead_lt
  | create hs hheld h =>
    simp [-Option.not_isSome, Task.ahead, Task.gives, hs, Stage.ahead, Task.wantsSequencer,
      Task.wants, Stage.line?, Stage.lock?, startStreaming_reading h, Reading.begin]
  | streamOn hs h =>
    have := Streaming.step_shorter h
    simp [-Option.not_isSome, Task.ahead, Task.gives, hs, Stage.ahead, Task.wantsSequencer,
      Task.wants, Stage.line?, Stage.lock?]
    omega
  | enqueue hs | refer hs | ask hs | append hs | createFails hs | streamed hs | streamFails hs
  | publish hs | publishFails hs | drop hs | unlock hs | release hs | count hs hticket | leave hs =>
    simp [-Option.not_isSome, Task.ahead, Task.gives, hs, Stage.ahead, Task.wantsSequencer,
      Task.wants, Stage.line?, Stage.lock?]
    try omega
  | vanish h => exact h.ahead_lt

/-- Whoever is over does not move. -/
theorem Move.going (h : Move c clock i w t w' t') : t.stage.isOver = false := by
  cases hover : t.stage.isOver with
  | false => rfl
  | true =>
    have hlt := h.ahead_lt
    rw [Task.ahead_of_isOver hover] at hlt
    exact absurd hlt (Nat.not_lt_zero _)

/-- Uploads keep their requests, and come in with all ahead of them. -/
theorem Move.ahead_le (h : Move c clock i w t w' t')
    (hle : t.ahead ≤ 16 + t.request.body.length) : t'.ahead ≤ 16 + t'.request.body.length := by
  have hlt := h.ahead_lt
  rw [h.request_eq]
  omega

end

/-- The sum before and after one element is replaced. -/
theorem sum_map_set_add {α : Type} (f : α → Nat) {a : α} (b : α) :
    ∀ {l : List α} {i : Nat}, l[i]? = some a →
      ((l.set i b).map f).sum + f a = (l.map f).sum + f b
  | [], _, h => by simp at h
  | x :: l, 0, h => by
    obtain rfl : x = a := by simpa using h
    simp only [List.set_cons_zero, List.map_cons, List.sum_cons]
    omega
  | x :: l, i + 1, h => by
    have ih := sum_map_set_add f b (l := l) (i := i) (by simpa using h)
    simp only [List.set_cons_succ, List.map_cons, List.sum_cons]
    omega

namespace Machine

/-- More than the moves that all tasks together have ahead of them. -/
def ahead (m : Machine) : Nat := (m.tasks.map Task.ahead).sum

section

variable {m m' : Machine} {i : TaskId} {t t' : Task}

/-- And so for all tasks together, since the others stay as they are. -/
theorem Moved.ahead_lt (hi : m.tasks[i]? = some t) (hm : m.Moved i t t' m') :
    m'.ahead + t.gives t' < m.ahead := by
  have hsum := sum_map_set_add Task.ahead t' hi
  have hlt := hm.move.ahead_lt
  rw [ahead, ahead, hm.tasks]
  omega

/-- Every move takes something away. -/
theorem step_ahead_lt (h : m.step i = some m') : m'.ahead < m.ahead := by
  obtain ⟨t, t', hi, hm⟩ := step_moved h
  have hlt := hm.ahead_lt hi
  omega

/-- The first happening of a run. -/
theorem afterAll_cons {e : Happening} (ha : m.after e = some m') (hs : List Happening) :
    m.afterAll (e :: hs) = m'.afterAll hs := by
  rw [afterAll, ha]

/-- What every move lowers by `k` at least, a run of moves lowers by so much for each of them. -/
theorem moves_add_le {f : Machine → Nat} {k : Nat}
    (hstep : ∀ {m m' : Machine} {i : TaskId}, m.step i = some m' → k + f m' ≤ f m) :
    ∀ {moves : List TaskId} {m : Machine}, m.afterAll (moves.map .move) = some m' →
      moves.length * k + f m' ≤ f m
  | [], m, h => by
    cases h
    simp
  | i :: moves, m, h => by
    rw [List.map_cons, afterAll] at h
    split at h
    · simp at h
    · rename_i m₁ h₁
      have hlt : k + f m₁ ≤ f m := hstep h₁
      have ih := moves_add_le hstep h
      rw [List.length_cons, Nat.succ_mul]
      omega

/-- Tasks cannot move on for ever. -/
theorem length_moves_add_ahead_le {moves : List TaskId}
    (ha : m.afterAll (moves.map .move) = some m') : moves.length + m'.ahead ≤ m.ahead := by
  have hle := moves_add_le (f := ahead) (k := 1) (fun h => by
    have := step_ahead_lt h
    omega) ha
  rwa [Nat.mul_one] at hle

/-! ## Reachable states -/

/-- A machine that came about from an endpoint that nobody used.  Nothing is asked of its
configuration. -/
def Reachable (m : Machine) : Prop := ∃ g hs, (ofIngest g).afterAll hs = some m

/-- Runs go on. -/
theorem Reachable.afterAll {hs : List Happening} (h : m.Reachable) (ha : m.afterAll hs = some m') :
    m'.Reachable := by
  obtain ⟨g, before, hbefore⟩ := h
  exact ⟨g, before ++ hs, by rw [afterAll_append, hbefore]; exact ha⟩

/-- In every reachable state all lines are in order. -/
theorem Reachable.lined (h : m.Reachable) : m.Lined := by
  obtain ⟨g, hs, ha⟩ := h
  exact afterAll_keeps (P := Lined) (fun _ _ _ h ha => h.after ha) hs (lined_ofIngest g) ha

/-- In every reachable state an upload has no more ahead of it than when it came in. -/
theorem Reachable.ahead_le (h : m.Reachable) :
    ∀ t ∈ m.tasks, t.ahead ≤ 16 + t.request.body.length := by
  obtain ⟨g, hs, ha⟩ := h
  refine afterAll_keeps (P := fun m => ∀ t ∈ m.tasks, t.ahead ≤ 16 + t.request.body.length)
    (fun m₁ m₂ e hle ha₁ => ?_) hs (by simp [ofIngest]) ha
  have hmoved : ∀ {i t t'}, m₁.tasks[i]? = some t → m₁.Moved i t t' m₂ →
      ∀ u ∈ m₂.tasks, u.ahead ≤ 16 + u.request.body.length := by
    intro i t t' hi hm u hu
    rw [hm.tasks] at hu
    rcases List.mem_or_eq_of_mem_set hu with hu | rfl
    · exact hle u hu
    · exact hm.move.ahead_le (hle t (List.mem_of_getElem? hi))
  cases happened ha₁ with
  | arrive request =>
    intro u hu
    rcases List.mem_append.mp hu with hu | hu
    · exact hle u hu
    · rw [List.mem_singleton.mp hu]
      exact Nat.le_refl _
  | move hi hm => exact hmoved hi hm
  | disconnect hi hg hm => exact hmoved hi hm
  | pass clock hclock => exact hle

/-- When nobody can move all uploads are over, for one that is not would have somebody free. -/
theorem Reachable.over_of_still (h : m.Reachable) (hstill : ∀ i, m.step i = none) :
    ∀ t ∈ m.tasks, t.stage.isOver = true := by
  intro t ht
  obtain ⟨i, hi⟩ := List.mem_iff_getElem?.mp ht
  cases hover : t.stage.isOver with
  | true => rfl
  | false =>
    obtain ⟨j, u, hj, hfree⟩ := h.lined.exists_free hi hover
    rw [← step_isSome hj, hstill j] at hfree
    exact absurd hfree (by simp)

end

end Machine

/-- However the uploads of a machine move on, their bodies bound the number of moves, and when none can
move any more all of them are over. -/
theorem uploads_end {m m' : Machine} (h : m.Reachable) {moves : List TaskId}
    (ha : m.afterAll (moves.map .move) = some m') :
    moves.length ≤ (m.tasks.map fun t => 16 + t.request.body.length).sum ∧
      ((∀ i, m'.step i = none) → ∀ t ∈ m'.tasks, t.stage.isOver = true) := by
  refine ⟨?_, (h.afterAll ha).over_of_still⟩
  have hmoves := Machine.length_moves_add_ahead_le ha
  have hahead : m.ahead ≤ (m.tasks.map fun t => 16 + t.request.body.length).sum :=
    List.sum_le_sum h.ahead_le
  omega

/-- Whatever has happened, the uploads can move on until all of them are over.  The recursion goes
down with what all tasks have ahead of them. -/
theorem exists_moves_over {m : Machine} (h : m.Reachable) :
    ∃ (moves : List TaskId) (m' : Machine), m.afterAll (moves.map .move) = some m' ∧
      ∀ t ∈ m'.tasks, t.stage.isOver = true := by
  by_cases hstill : ∀ i, m.step i = none
  · exact ⟨[], m, rfl, h.over_of_still hstill⟩
  · obtain ⟨i, hi⟩ := Classical.not_forall.mp hstill
    obtain ⟨m₁, h₁⟩ := Option.ne_none_iff_exists'.mp hi
    have hfirst : m.after (.move i) = some m₁ := h₁
    have hlt := Machine.step_ahead_lt h₁
    obtain ⟨moves, m', ha, hover⟩ :=
      exists_moves_over (h.afterAll (Machine.afterAll_cons hfirst []))
    exact ⟨i :: moves, m', (Machine.afterAll_cons hfirst _).trans ha, hover⟩
termination_by m.ahead

end LiveIngest.Traffic
