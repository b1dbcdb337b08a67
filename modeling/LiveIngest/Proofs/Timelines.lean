import LiveIngest.Proofs.Queueing

/-!
# A timeline plays to its end

`Timeline.play` settles by the clock which task moves next.  What it does is one of the runs of its
machine (`Timeline.play_run`), so all that is known of runs is known of it.

It is written with two bounds on the number of turns, one on the moves between two occasions and
one on the occasions.  Neither is ever reached:

1. **Moves.**  After a turn of `Machine.settle` the queue has everybody who can move without waiting
   for data (`Machine.Settled`).  A turn takes a task out of the queue or moves one, and whoever a
   move puts into the queue was handed a lock that the task gave up, which is among what it had ahead
   of it (`Machine.length_enabled_le`).

2. **Occasions.**  Data that arrive leave less to be read (`Move.unread_le`), and visits,
   disconnections and looks happen once each.  So every occasion leaves fewer of them
   (`Timeline.Steady.happen`).

So a timeline stops only where nothing is to happen any more, and there all uploads are over
(`play_ends`).

What is left of a run is measured twice: `Machine.ahead` counts moves and bounds the turns of
`settle`, `Timeline.left` counts occasions and bounds the turns of `playWithin`.  Both are sums over
the tasks, so a step that concerns one task changes one summand (`sum_map_set_add`).
-/

namespace LiveIngest.Traffic

open LiveIngest.Body
open LiveIngest.Upload

attribute [local irreducible] dropPart startStreaming Streaming.step publish appendRead partPath

namespace Machine

variable {m m' : Machine} {i j : TaskId} {t t' u : Task}

/-! ## Settling is a run -/

/-- Settling lets tasks move and does nothing else.  The induction is on the turns. -/
theorem settle_run :
    ∀ (fuel : Nat) (m : Machine) (queue : List TaskId),
      ∃ moves : List TaskId, m.afterAll (moves.map .move) = some (settle fuel m queue)
  | 0, m, queue => ⟨[], rfl⟩
  | _ + 1, m, [] => ⟨[], rfl⟩
  | fuel + 1, m, i :: queue => by
    rw [settle]
    split
    · split
      · exact settle_run fuel m queue
      · rename_i m₁ h₁
        obtain ⟨moves, ha⟩ := settle_run fuel m₁ (i :: (queue ++ (m.enabled m₁).filter (· ≠ i)))
        exact ⟨i :: moves, (afterAll_cons (e := .move i) h₁ _).trans ha⟩
    · exact settle_run fuel m queue

/-! ## Settling lets everybody move who can -/

/-- Everybody is in the queue who neither waits for data nor for a lock.  With an empty queue:
nobody can move before time passes or something comes in. -/
def Settled (m : Machine) (queue : List TaskId) : Prop :=
  ∀ i t, m.tasks[i]? = some t → t.stage.reading? = none → m.isFree i t.stage = true → i ∈ queue

/-- If nobody is to move, any queue has everybody who is. -/
theorem Settled.weaken (h : m.Settled []) (queue : List TaskId) : m.Settled queue :=
  fun i t hi hr hfree => absurd (h i t hi hr hfree) List.not_mem_nil

/-- Whoever reads is ready when the next piece is there, or the deadline. -/
theorem isReady_of_reading {r : Reading} (hi : m.tasks[i]? = some t)
    (hr : t.stage.reading? = some r) : m.isReady i = decide (r.settlesAt ≤ m.clock) := by
  rw [isReady, hi]
  simp only [hr]

/-- Whoever does not read is ready unless a lock is missing. -/
theorem isReady_of_free (hi : m.tasks[i]? = some t) (hr : t.stage.reading? = none) :
    m.isReady i = m.isFree i t.stage := by
  rw [isReady, hi]
  simp only [hr]
  exact step_isSome hi

/-- Whoever is ready is there. -/
theorem exists_of_isReady (h : m.isReady i = true) : ∃ t, m.tasks[i]? = some t := by
  unfold isReady at h
  split at h
  · simp at h
  · exact ⟨_, ‹_›⟩

/-- Whoever can move after a move of somebody else but could not before was handed a lock that the
other gave up.  There is nothing else to wait for: data come with the clock. -/
theorem handed_of_enabled (h : m.Lined) (hi : m.tasks[i]? = some t) (hm : m.Moved i t t' m')
    (hj : j ∈ m.enabled m') (hij : j ≠ i) :
    (m'.sequencer.holder = some j ∧ (t.wantsSequencer && !t'.wantsSequencer) = true) ∨
      ∃ l, t.stage.line? = some l ∧ t'.wants l = false ∧ (m'.table.mutex l).holder = some j := by
  simp only [enabled, List.mem_filter, Bool.and_eq_true, Bool.not_eq_true'] at hj
  obtain ⟨-, hbefore, hafter⟩ := hj
  obtain ⟨u, hu'⟩ := exists_of_isReady hafter
  have hu : m.tasks[j]? = some u := (hm.others hij).symm.trans hu'
  cases hr : u.stage.reading? with
  | some r =>
    -- data come with the clock, and a move does not touch it
    rw [isReady_of_reading hu hr] at hbefore
    rw [isReady_of_reading hu' hr, hm.clock, hbefore] at hafter
    exact absurd hafter (by simp)
  | none =>
    rw [isReady_of_free hu hr] at hbefore
    rw [isReady_of_free hu' hr] at hafter
    -- of those who do not read, two kinds wait
    cases hs : u.stage with
    | queued plan hint =>
      simp only [hs, isFree, holdsSequencer, beq_iff_eq, beq_eq_false_iff_ne] at hbefore hafter
      obtain ⟨hwanted, hgiven⟩ :=
        ((h.sequencer_change hi hm).holder hij hafter).resolve_left hbefore
      exact Or.inl ⟨hafter, by rw [hwanted, hgiven]; rfl⟩
    | waiting plan destination work l =>
      simp only [hs, isFree, holdsLock, beq_iff_eq, beq_eq_false_iff_ne] at hbefore hafter
      obtain ⟨hwanted, hgiven⟩ :=
        ((h.lock_change hi hm l).holder hij hafter).resolve_left hbefore
      exact Or.inr ⟨l, by simpa [Task.wants] using hwanted, hgiven, hafter⟩
    | finished | cancelled | broken => simp [hs, isFree] at hafter
    | _ => simp [hs, isFree] at hbefore

/-- A move lets no more of the others move than it gives up locks.  There are two locks to give up,
and each has at most one next holder. -/
theorem length_enabled_le (h : m.Lined) (hi : m.tasks[i]? = some t) (hm : m.Moved i t t' m') :
    ((m.enabled m').filter (· ≠ i)).length ≤ t.gives t' := by
  let first := if t.wantsSequencer && !t'.wantsSequencer then m'.sequencer.holder.toList else []
  let second := t.stage.line?.elim [] fun l =>
    if t'.wants l then [] else (m'.table.mutex l).holder.toList
  have hsubset : (m.enabled m').filter (· ≠ i) ⊆ first ++ second := by
    intro j hj
    simp only [List.mem_filter, decide_eq_true_eq] at hj
    rw [List.mem_append]
    rcases handed_of_enabled h hi hm hj.1 hj.2 with ⟨hholder, hgiven⟩ | ⟨l, hline, hgiven, hholder⟩
    · exact Or.inl (by simp only [first, if_pos hgiven, hholder]; simp)
    · exact Or.inr (by simp [second, hline, hgiven, hholder])
  have hnodup : ((m.enabled m').filter (· ≠ i)).Nodup :=
    (List.nodup_range.filter _).filter _
  have hfirst : first.length ≤ (t.wantsSequencer && !t'.wantsSequencer).toNat := by
    simp only [first]
    cases t.wantsSequencer && !t'.wantsSequencer <;> cases m'.sequencer.holder <;> simp
  have hsecond : second.length ≤ (t.stage.line?.any fun l => !t'.wants l).toNat := by
    simp only [second]
    cases t.stage.line? with
    | none => simp
    | some l => cases hw : t'.wants l <;> cases (m'.table.mutex l).holder <;> simp [hw]
  have hlength := (List.subperm_of_subset hnodup hsubset).length_le
  rw [List.length_append] at hlength
  exact hlength.trans (Nat.add_le_add hfirst hsecond)

/-- Whoever a move lets move gets into the queue, and the one that moved stays in it. -/
theorem Settled.moved {queue : List TaskId} (h : m.Settled (i :: queue))
    (hm : m.Moved i t t' m') :
    m'.Settled (i :: (queue ++ (m.enabled m').filter (· ≠ i))) := by
  intro j u hu' hr hfree
  by_cases hij : j = i
  · exact hij ▸ List.mem_cons_self
  · have hu : m.tasks[j]? = some u := (hm.others hij).symm.trans hu'
    rw [List.mem_cons, List.mem_append]
    cases hbefore : m.isFree j u.stage with
    | true => exact Or.inr (Or.inl ((List.mem_cons.mp (h j u hu hr hbefore)).resolve_left hij))
    | false =>
      refine Or.inr (Or.inr ?_)
      simp only [enabled, List.mem_filter, List.mem_range, Bool.and_eq_true, Bool.not_eq_true',
        decide_eq_true_eq]
      refine ⟨⟨(List.getElem?_eq_some_iff.mp hu').1, ?_, ?_⟩, hij⟩
      · rw [isReady_of_free hu hr, hbefore]
      · rw [isReady_of_free hu' hr, hfree]

/-- Whoever cannot move is taken out of the queue. -/
theorem Settled.tail {queue : List TaskId} (h : m.Settled (i :: queue)) (hi : m.isReady i = false) :
    m.Settled queue := by
  intro j u hu hr hfree
  refine (List.mem_cons.mp (h j u hu hr hfree)).resolve_left fun hij => ?_
  subst hij
  rw [isReady_of_free hu hr, hfree] at hi
  exact absurd hi (by simp)

/-- Settling lets everybody move who can, if it has as many turns as there are moves ahead and tasks
in the queue.  Each turn uses up one of these: a move pays for whom it puts into the queue with the
locks it gave up, which were among what it had ahead. -/
theorem settle_settled :
    ∀ (fuel : Nat) {m : Machine} {queue : List TaskId}, m.Lined → m.Settled queue →
      m.ahead + queue.length ≤ fuel → (settle fuel m queue).Settled []
  | 0, m, queue, _, h, hle => by
    have hnil : queue = [] := List.length_eq_zero_iff.mp (by omega)
    exact hnil ▸ h
  | fuel + 1, m, [], _, h, _ => h
  | fuel + 1, m, i :: queue, hlined, h, hle => by
    rw [List.length_cons] at hle
    rw [settle]
    split
    · split
      · -- who is in the queue and cannot move goes out of it
        rename_i hready hnone
        refine settle_settled fuel hlined (fun j u hu hr hfree => ?_) (by omega)
        refine (List.mem_cons.mp (h j u hu hr hfree)).resolve_left fun hij => ?_
        subst hij
        rw [← step_isSome hu, hnone] at hfree
        exact absurd hfree (by simp)
      · -- others may get in, but no more than the move has paid for
        rename_i m₁ h₁
        obtain ⟨t, t', hi, hm⟩ := step_moved h₁
        have hahead := hm.ahead_lt hi
        have hlength := length_enabled_le hlined hi hm
        refine settle_settled fuel (hlined.moved hi hm) (h.moved hm) ?_
        rw [List.length_cons, List.length_append]
        omega
    · rename_i hready
      exact settle_settled fuel hlined (h.tail (by simpa using hready)) (by omega)

/-- A machine has enough moves for what its tasks have ahead of them, and for each of them once. -/
theorem Reachable.ahead_lt_moves (h : m.Reachable) : m.ahead + m.tasks.length < m.moves := by
  -- the fold starts at any number, for the induction on the tasks
  have hmoves : ∀ (ts : List Task) (n : Nat), (∀ t ∈ ts, t.ahead ≤ 16 + t.request.body.length) →
      n + (ts.map Task.ahead).sum + ts.length ≤
        ts.foldl (fun n t => n + 2 * (t.request.body.length + 20)) n := by
    intro ts
    induction ts with
    | nil => intro n _; simp
    | cons t ts ih =>
      intro n hle
      have ht := hle t List.mem_cons_self
      have hts := ih (n + 2 * (t.request.body.length + 20)) fun u hu =>
        hle u (List.mem_cons_of_mem t hu)
      simp only [List.map_cons, List.sum_cons, List.length_cons, List.foldl_cons]
      omega
  have hle := hmoves m.tasks 100 h.ahead_le
  rw [ahead, moves]
  omega

/-- Settling comes to a reachable state. -/
theorem Reachable.settleAll {queue : List TaskId} (h : m.Reachable) :
    (m.settleAll queue).Reachable := by
  obtain ⟨moves, ha⟩ := settle_run m.moves m queue
  exact h.afterAll ha

/-- Settling all the way leaves nobody who can move. -/
theorem Reachable.settleAll_settled {queue : List TaskId} (h : m.Reachable) (hq : m.Settled queue)
    (hlength : queue.length ≤ m.tasks.length + 1) : (m.settleAll queue).Settled [] := by
  have := h.ahead_lt_moves
  exact settle_settled m.moves h.lined hq (by omega)

end Machine

/-! ## What is still to be read -/

/-- More than the times that a task will wait for data under the lock of its destination. -/
def Work.unread : Work → Nat
  | .append _ _ => 0
  | .overwrite _ body => body.length + 1

/-- What was read before the lock was asked for is not read again. -/
@[simp] theorem Work.unread_append (payload : Bytes) (reading : Reading) :
    (Work.append payload reading).unread = 0 := rfl

/-- A body that nobody has read is all still to be read. -/
@[simp] theorem Work.unread_overwrite (declared : Nat) (body : Schedule) :
    (Work.overwrite declared body).unread = body.length + 1 := rfl

/-- At least the times that a task at this stage will wait for data; `body` is the number of pieces
of its body.  Every wait ends with a piece, or with the end of the reading. -/
def Stage.unread (body : Nat) : Stage → Nat
  | .arriving => body + 1
  | .queued _ _ => body + 1
  | .buffering _ b => b.reading.rest.length + 1
  | .seeking _ _ work => work.unread
  | .asking _ _ work _ => work.unread
  | .waiting _ _ work _ => work.unread
  | .streaming _ _ s _ => s.reading.rest.length + 1
  | _ => 0

/-- At least the times that a task will wait for data. -/
def Task.unread (t : Task) : Nat := t.stage.unread t.request.body.length

section

variable {c : Config} {clock : Nat} {i : TaskId} {w w' : Shared} {t t' : Task}

/-- Moves without a lock leave no more to wait for. -/
theorem Quiet.unread_le (h : Quiet c clock i w t t') :
    t'.unread + t.stage.reading?.isSome.toNat ≤ t.unread := by
  cases h with
  | collect hs h hmode hlen hstart =>
    simp [Task.unread, hs, Stage.unread, Stage.reading?, rest_startBuffering hstart]
  | collectOn hs h =>
    have := Buffering.step_shorter h
    simp [Task.unread, hs, Stage.unread, Stage.reading?]
    omega
  | reject hs | skip hs | address hs | refuse hs | issue hs | collectFails hs | unfit hs
  | collected hs | pass hs | uncounted hs | stale hs | answer hs =>
    simp [Task.unread, hs, Stage.unread, Stage.reading?]

/-- A move of a task that waits for data leaves less to wait for, and no move leaves more. -/
theorem Move.unread_le (h : Move c clock i w t w' t') :
    t'.unread + t.stage.reading?.isSome.toNat ≤ t.unread := by
  cases h with
  | quiet h => exact h.unread_le
  | create hs hheld h =>
    simp [Task.unread, hs, Stage.unread, Stage.reading?, startStreaming_reading h, Reading.begin]
  | streamOn hs h =>
    have := Streaming.step_shorter h
    simp [Task.unread, hs, Stage.unread, Stage.reading?]
    omega
  | enqueue hs | refer hs | ask hs | append hs | createFails hs | streamed hs | streamFails hs
  | publish hs | publishFails hs | drop hs | unlock hs | release hs | count hs | leave hs =>
    simp [Task.unread, hs, Stage.unread, Stage.reading?]
  | vanish h => cases h <;> simp_all [Task.unread, Stage.unread, Stage.reading?]

end

namespace Machine

variable {m m' : Machine} {i j : TaskId} {t t' u : Task}

/-- At least the times that all tasks together will wait for data. -/
def unread (m : Machine) : Nat := (m.tasks.map Task.unread).sum

/-- The same for all tasks together: only one of the summands changes. -/
theorem Moved.unread_le (hi : m.tasks[i]? = some t) (hm : m.Moved i t t' m') :
    m'.unread + t.stage.reading?.isSome.toNat ≤ m.unread := by
  have hsum := sum_map_set_add Task.unread t' hi
  have hle := hm.move.unread_le
  rw [unread, unread, hm.tasks]
  omega

/-- Settling leaves no more to wait for. -/
theorem settle_unread_le (fuel : Nat) (m : Machine) (queue : List TaskId) :
    (settle fuel m queue).unread ≤ m.unread := by
  obtain ⟨moves, ha⟩ := settle_run fuel m queue
  have hle := moves_add_le (f := unread) (k := 0) (fun h => by
    obtain ⟨t, t', hi, hm⟩ := step_moved h
    have := hm.unread_le hi
    omega) ha
  rwa [Nat.mul_zero, Nat.zero_add] at hle

/-- Data that are there are read: the first turn lets the task move that waits for them, and the
others leave no more than it does. -/
theorem Reachable.settleAll_unread_lt {r : Reading} (h : m.Reachable) (hi : m.tasks[i]? = some t)
    (hr : t.stage.reading? = some r) (hready : r.settlesAt ≤ m.clock) :
    (m.settleAll [i]).unread < m.unread := by
  have hmove : m.isReady i = true := by
    rw [isReady_of_reading hi hr]
    simpa using hready
  obtain ⟨m₁, h₁⟩ : ∃ m₁, m.step i = some m₁ := by
    rw [← Option.isSome_iff_exists, step_isSome hi]
    cases hs : t.stage <;> simp_all [Stage.reading?, isFree]
  obtain ⟨fuel, hfuel⟩ : ∃ fuel, m.moves = fuel + 1 := by
    have := h.ahead_lt_moves
    exact ⟨m.moves - 1, by omega⟩
  have hle := settle_unread_le fuel m₁ (i :: ([] ++ (m.enabled m₁).filter (· ≠ i)))
  obtain ⟨t₀, t', hi₀, hm⟩ := step_moved h₁
  rw [hi, Option.some.injEq] at hi₀
  subst hi₀
  have hlt := hm.unread_le hi
  rw [hr, Option.isSome_some, Bool.toNat_true] at hlt
  rw [Machine.settleAll, hfuel, settle, if_pos hmove, h₁]
  simp only
  omega

/-! ## Who is still going on -/

/-- Whether an upload is still going on. -/
def isGoing (m : Machine) (i : TaskId) : Bool := m.tasks[i]?.any fun t => !t.stage.isOver

/-- Which is read off its stage. -/
theorem isGoing_eq (hi : m.tasks[i]? = some t) : m.isGoing i = !t.stage.isOver := by
  rw [isGoing, hi, Option.any_some]

/-- Whoever is over stays so, and is not changed any more. -/
theorem afterAll_over {hs : List Happening} (ha : m.afterAll hs = some m')
    (hi : m.tasks[i]? = some t) (hover : t.stage.isOver = true) : m'.tasks[i]? = some t := by
  refine afterAll_keeps (P := fun m => m.tasks[i]? = some t) (fun m₁ m₂ e hi₁ ha₁ => ?_) hs hi ha
  -- whoever moves is not over
  have hmoved : ∀ {j u u'}, m₁.tasks[j]? = some u → m₁.Moved j u u' m₂ → m₂.tasks[i]? = some t := by
    intro j u u' hj hm
    rw [hm.others, hi₁]
    rintro rfl
    rw [hi₁, Option.some.injEq] at hj
    subst hj
    rw [hm.move.going] at hover
    exact absurd hover (by simp)
  cases happened ha₁ with
  | arrive request => exact found_admitTask request hi₁
  | move hj hm => exact hmoved hj hm
  | disconnect hj hg hm => exact hmoved hj hm
  | pass clock hle => exact hi₁

/-- Nobody starts again. -/
theorem isGoing_of_afterAll {hs : List Happening} (ha : m.afterAll hs = some m')
    (hi : i < m.tasks.length) (h : m'.isGoing i = true) : m.isGoing i = true := by
  have ht : m.tasks[i]? = some m.tasks[i] := List.getElem?_eq_getElem hi
  cases hover : m.tasks[i].stage.isOver with
  | false =>
    rw [isGoing_eq ht, hover]
    rfl
  | true =>
    rw [isGoing_eq (afterAll_over ha ht hover), hover] at h
    exact absurd h (by simp)

/-- Settling keeps those over who are. -/
theorem isGoing_settleAll {queue : List TaskId} (hi : m.tasks[i]? = some t)
    (hover : t.stage.isOver = true) : (m.settleAll queue).isGoing i = false := by
  obtain ⟨moves, ha⟩ := settle_run m.moves m queue
  have hi' : (m.settleAll queue).tasks[i]? = some t := afterAll_over ha hi hover
  rw [isGoing_eq hi', hover]
  rfl

/-- Settling loses no tasks. -/
theorem length_le_settleAll (m : Machine) (queue : List TaskId) :
    m.tasks.length ≤ (m.settleAll queue).tasks.length := by
  obtain ⟨moves, ha⟩ := settle_run m.moves m queue
  exact (afterAll_le ha).1

/-! ## Who comes and who goes -/

/-- An upload that comes in is one more. -/
theorem length_admitTask (m : Machine) (request : Request) :
    (m.admitTask request).tasks.length = m.tasks.length + 1 := List.length_append

/-- It brings its whole body. -/
theorem unread_admitTask (m : Machine) (request : Request) :
    (m.admitTask request).unread = m.unread + (request.body.length + 1) := by
  show ((m.tasks ++ [Task.new request]).map Task.unread).sum = _
  rw [List.map_append, List.sum_append]
  rfl

/-- The task that came in is the only one that is to move. -/
theorem Settled.admitTask (h : m.Settled []) (request : Request) :
    (m.admitTask request).Settled [m.tasks.length] := by
  intro j u hj hr hfree
  rw [List.mem_singleton]
  have hlt : j < m.tasks.length + 1 :=
    length_admitTask m request ▸ (List.getElem?_eq_some_iff.mp hj).1
  refine (Nat.lt_succ_iff_lt_or_eq.mp hlt).resolve_left fun hold => ?_
  have hj' : m.tasks[j]? = some u :=
    (m.getElem?_admitTask request (Nat.ne_of_lt hold)).symm.trans hj
  exact absurd (h j u hj' hr hfree) List.not_mem_nil

/-- A client whose upload cannot move can disconnect.  The stages at which a disconnection has to
wait are those from which the task moves on at once. -/
theorem Settled.exists_cancel (h : m.Settled []) (hi : m.tasks[i]? = some t)
    (hgoing : t.stage.isOver = false) : ∃ m', m.cancel i = some m' := by
  have hstuck : t.stage.reading? = none → m.isFree i t.stage = false := fun hr => by
    cases hfree : m.isFree i t.stage with
    | false => rfl
    | true => exact absurd (h i t hi hr hfree) List.not_mem_nil
  rw [← Option.isSome_iff_exists, cancel, hi]
  cases hs : t.stage <;> simp_all [Stage.reading?, isFree, Stage.isOver]

/-- After a disconnection those are to move whom it lets move: the next ones in line for what the
upload held. -/
theorem Settled.cancelled {time : Nat} (h : m.Settled [])
    (hm : m.Moved i t (t.at (.cancelled time)) m') : m'.Settled (m.enabled m') := by
  intro j u hj hr hfree
  rcases List.mem_cons.mp ((h.weaken [i]).moved hm j u hj hr hfree) with rfl | hmem
  · rw [hm.tasks] at hj
    rcases getElem?_set_cases hj with ⟨-, rfl⟩ | ⟨hne, -⟩
    · simp [isFree] at hfree
    · exact absurd rfl hne
  · exact List.mem_of_mem_filter hmem

end Machine

namespace Timeline

variable {l : Timeline} {o : Occasion} {time : Nat}

/-! ## What is to happen -/

/-- All occasions: data, visits with their disconnections, and looks. -/
def pending (l : Timeline) : List (Nat × Occasion) :=
  l.dataOccasions ++ l.visitOccasions ++ l.lookOccasions

/-- Data come for whoever waits for them, at the moment when the wait ends. -/
theorem mem_dataOccasions {p : Nat × Occasion} : p ∈ l.dataOccasions ↔
    ∃ i t r, l.machine.tasks[i]? = some t ∧ t.stage.reading? = some r ∧
      p = (r.settlesAt, .data i) := by
  simp only [dataOccasions, List.mem_filterMap, List.mem_zipIdx_iff_getElem?, Prod.exists,
    Option.map_eq_some_iff]
  constructor
  · rintro ⟨t, i, hi, r, hr, rfl⟩
    exact ⟨i, t, r, hi, hr, rfl⟩
  · rintro ⟨i, t, r, hi, hr, rfl⟩
    exact ⟨t, i, hi, r, hr, rfl⟩

/-- Looks that have not been taken are still to come. -/
theorem mem_lookOccasions {p : Nat × Occasion} : p ∈ l.lookOccasions ↔
    ∃ k time, l.looks[k]? = some (time, none) ∧ p = (l.base + time, .look k) := by
  simp only [lookOccasions, List.mem_filterMap, List.mem_zipIdx_iff_getElem?, Prod.exists]
  constructor
  · rintro ⟨time, seen, k, hk, hp⟩
    cases seen with
    | none => exact ⟨k, time, hk, (Option.some.inj hp).symm⟩
    | some b => simp at hp
  · rintro ⟨k, time, hk, rfl⟩
    exact ⟨time, none, k, hk, rfl⟩

/-- A visit is still to come in, or its upload is on its way and the client is to disconnect. -/
theorem mem_visitOccasions {p : Nat × Occasion} : p ∈ l.visitOccasions ↔
    (∃ k v, l.visits[k]? = some (v, none) ∧ p = (l.base + v.start, .visit k)) ∨
    ∃ (k : Nat) (v : Visit) (i : TaskId) (time : Nat) (t : Task),
      l.visits[k]? = some (v, some i) ∧ v.disconnect = some time ∧
      l.machine.tasks[i]? = some t ∧ t.stage.isOver = false ∧
      p = (l.base + time, .disconnect i) := by
  simp only [visitOccasions, List.mem_filterMap, List.mem_zipIdx_iff_getElem?, Prod.exists]
  constructor
  · rintro ⟨v, task, k, hk, hp⟩
    cases task with
    | none => exact Or.inl ⟨k, v, hk, (Option.some.inj hp).symm⟩
    | some i =>
      simp only at hp
      split at hp
      · rename_i time t htime hi
        split at hp
        · simp at hp
        · rename_i hgoing
          exact Or.inr ⟨k, v, i, time, t, hk, htime, hi, by simpa using hgoing,
            (Option.some.inj hp).symm⟩
      · simp at hp
  · rintro (⟨k, v, hk, rfl⟩ | ⟨k, v, i, time, t, hk, htime, hi, hgoing, rfl⟩)
    · exact ⟨v, none, k, hk, rfl⟩
    · exact ⟨v, some i, k, hk, by simp [htime, hi, hgoing]⟩

/-- The earlier of the best occasion so far and another. -/
def best (found : Option (Nat × Occasion)) (o : Nat × Occasion) : Option (Nat × Occasion) :=
  some (found.elim o fun b => if earlier o b then o else b)

/-- The next occasion is found by one pass over all of them. -/
theorem next?_eq_foldl (l : Timeline) : l.next? = l.pending.foldl best none := by
  unfold next? pending
  congr 1
  funext found o
  cases found with
  | none => rfl
  | some b => exact (apply_ite some _ _ _).symm

/-- The best of some occasions is one of them. -/
theorem foldl_best (ps : List (Nat × Occasion)) (b : Nat × Occasion) :
    ∃ p, p ∈ b :: ps ∧ ps.foldl best (some b) = some p := by
  induction ps generalizing b with
  | nil => exact ⟨b, List.mem_cons_self, rfl⟩
  | cons o ps ih =>
    obtain ⟨p, hp, he⟩ := ih (if earlier o b then o else b)
    refine ⟨p, ?_, he⟩
    rcases List.mem_cons.mp hp with rfl | hp
    · split
      · exact List.mem_cons_of_mem b List.mem_cons_self
      · exact List.mem_cons_self
    · exact List.mem_cons_of_mem b (List.mem_cons_of_mem o hp)

/-- The next occasion is one of them, and there is one if there is any. -/
theorem next?_cases (l : Timeline) :
    l.next? = none ∧ l.pending = [] ∨ ∃ p ∈ l.pending, l.next? = some p := by
  rw [next?_eq_foldl]
  cases l.pending with
  | nil => exact Or.inl ⟨rfl, rfl⟩
  | cons o ps => exact Or.inr (foldl_best ps o)

/-! ## Playing is a run -/

/-- An occasion is something that can happen to the machine, and the moves that it makes possible.
Where it cannot happen any more the machine stays as it is. -/
theorem happen_run (l : Timeline) (o : Occasion) :
    ∃ hs, l.machine.afterAll hs = some (l.happen o).machine := by
  cases o with
  | data i =>
    obtain ⟨moves, ha⟩ := Machine.settle_run l.machine.moves l.machine [i]
    exact ⟨_, ha⟩
  | visit k =>
    rw [happen]
    split
    · exact ⟨[], rfl⟩
    · rename_i v task hk
      obtain ⟨moves, ha⟩ := Machine.settle_run (l.machine.admitTask v.request).moves
        (l.machine.admitTask v.request) [l.machine.tasks.length]
      exact ⟨.arrive v.request :: moves.map .move, ha⟩
  | disconnect i =>
    rw [happen]
    split
    · exact ⟨[], rfl⟩
    · rename_i m hm
      obtain ⟨moves, ha⟩ := Machine.settle_run m.moves m (l.machine.enabled m)
      exact ⟨.disconnect i :: moves.map .move,
        (Machine.afterAll_cons (e := .disconnect i) hm _).trans ha⟩
  | look k =>
    rw [happen]
    split <;> exact ⟨[], rfl⟩

/-- Time passes. -/
theorem atTime_run (l : Timeline) (time : Nat) :
    l.machine.afterAll [.pass (max l.machine.clock time)] = some (l.atTime time).machine := by
  refine Machine.afterAll_cons ?_ []
  rw [Machine.after, if_pos (Nat.le_max_left _ _)]
  rfl

/-- Any number of turns is a run: time passes, the occasion happens, and so on. -/
theorem playWithin_run :
    ∀ (fuel : Nat) (l : Timeline), ∃ hs, l.machine.afterAll hs = some (playWithin fuel l).machine
  | 0, l => ⟨[], rfl⟩
  | fuel + 1, l => by
    rw [playWithin]
    split
    · exact ⟨[], rfl⟩
    · rename_i time o ho
      obtain ⟨hs, ha⟩ := happen_run (l.atTime time) o
      obtain ⟨hs', ha'⟩ := playWithin_run fuel ((l.atTime time).happen o)
      refine ⟨[.pass (max l.machine.clock time)] ++ hs ++ hs', ?_⟩
      rw [Machine.afterAll_append, Machine.afterAll_append, atTime_run, Option.bind_some, ha]
      exact ha'

/-- What a timeline plays is a run of its machine. -/
theorem play_run (l : Timeline) : ∃ hs, l.machine.afterAll hs = some l.play.machine :=
  playWithin_run l.occasions l

/-! ## Playing comes to its end -/

/-- What is known of a timeline between two occasions: nobody can move, and whoever has come in is
there. -/
structure Steady (l : Timeline) : Prop where
  reachable : l.machine.Reachable
  settled : l.machine.Settled []
  arrived : ∀ v i, (v, some i) ∈ l.visits → i < l.machine.tasks.length

/-- At least the occasions that a visit still has, those of its data apart once it has come in.
Before that they are counted here, one for each piece of the body. -/
def toCome (m : Machine) : Visit × Option TaskId → Nat
  | (v, none) => v.request.body.length + 3
  | (_, some i) => (m.isGoing i).toNat

/-- At least the occasions that a timeline still has.  Those for data are counted by
`Machine.unread`. -/
def left (l : Timeline) : Nat :=
  l.machine.unread + (l.visits.map (toCome l.machine)).sum + l.looks.countP (·.2.isNone)

/-- The clock alone changes nothing of this. -/
theorem Steady.atTime (h : l.Steady) (time : Nat) : (l.atTime time).Steady where
  reachable := h.reachable.afterAll (atTime_run l time)
  settled := h.settled
  arrived := h.arrived

/-- Nor the number of the occasions. -/
theorem left_atTime (l : Timeline) (time : Nat) : (l.atTime time).left = l.left := rfl

/-- Visits do not have more to come after a run of the machine: nobody who is over starts again. -/
theorem Steady.toCome_le {hs : List Machine.Happening} {m : Machine} (h : l.Steady)
    (ha : l.machine.afterAll hs = some m) : ∀ v ∈ l.visits, toCome m v ≤ toCome l.machine v := by
  rintro ⟨v, task⟩ hv
  cases task with
  | none => exact Nat.le_refl _
  | some i =>
    have hgoing := Machine.isGoing_of_afterAll ha (h.arrived v i hv)
    show (m.isGoing i).toNat ≤ (l.machine.isGoing i).toNat
    cases hm : m.isGoing i with
    | false => exact Nat.zero_le _
    | true => rw [hgoing hm]

/-- Data arrive, and there is less to be read. -/
theorem Steady.happen_data (h : l.Steady) {i : TaskId} {t : Task} {r : Reading}
    (hi : l.machine.tasks[i]? = some t) (hr : t.stage.reading? = some r)
    (hready : r.settlesAt ≤ l.machine.clock) :
    (l.happen (.data i)).Steady ∧ (l.happen (.data i)).left < l.left := by
  obtain ⟨hs, ha⟩ := happen_run l (.data i)
  have hlt := h.reachable.settleAll_unread_lt hi hr hready
  have hsum := List.sum_le_sum (h.toCome_le ha)
  refine ⟨⟨h.reachable.afterAll ha, ?_, fun v j hv => ?_⟩, ?_⟩
  · exact h.reachable.settleAll_settled (h.settled.weaken [i]) (by simp)
  · exact Nat.lt_of_lt_of_le (h.arrived v j hv) (Machine.afterAll_le ha).1
  · have hsame : (l.happen (.data i)).machine = l.machine.settleAll [i] := rfl
    simp only [left, hsame] at hsum ⊢
    show (l.machine.settleAll [i]).unread + (l.visits.map _).sum + l.looks.countP _ < _
    omega

/-- A visit comes in.  It had more to come than its body has pieces, and now has its body and
perhaps a disconnection. -/
theorem Steady.happen_visit (h : l.Steady) {k : Nat} {v : Visit}
    (hk : l.visits[k]? = some (v, none)) :
    (l.happen (.visit k)).Steady ∧ (l.happen (.visit k)).left < l.left := by
  obtain ⟨hs, ha⟩ := happen_run l (.visit k)
  let i := l.machine.tasks.length
  let m := l.machine.admitTask v.request
  have hhappen : l.happen (.visit k) =
      { l with machine := m.settleAll [i], visits := l.visits.set k (v, some i) } := by
    rw [happen, hk]
  rw [hhappen] at ha ⊢
  have harrive : l.machine.afterAll [.arrive v.request] = some m := rfl
  have hlater : i + 1 ≤ (m.settleAll [i]).tasks.length :=
    (Machine.length_admitTask ..).symm.le.trans (Machine.length_le_settleAll m [i])
  refine ⟨⟨h.reachable.afterAll ha, ?_, fun w j hw => ?_⟩, ?_⟩
  · exact (h.reachable.afterAll harrive).settleAll_settled (h.settled.admitTask v.request) (by simp)
  · rcases List.mem_or_eq_of_mem_set hw with hw | hw
    · exact Nat.lt_of_lt_of_le (h.arrived w j hw) ((Nat.le_succ i).trans hlater)
    · cases hw
      exact hlater
  · have hunread : m.unread = l.machine.unread + (v.request.body.length + 1) :=
      Machine.unread_admitTask ..
    have hle : (m.settleAll [i]).unread ≤ m.unread := Machine.settle_unread_le m.moves m [i]
    have hsum : (l.visits.map (toCome (m.settleAll [i]))).sum ≤
        (l.visits.map (toCome l.machine)).sum := List.sum_le_sum (h.toCome_le ha)
    have hset := sum_map_set_add (toCome (m.settleAll [i])) (v, some i) hk
    have hone : toCome (m.settleAll [i]) (v, some i) ≤ 1 := Bool.toNat_le _
    have hmany : toCome (m.settleAll [i]) (v, none) = v.request.body.length + 3 := rfl
    simp only [left]
    omega

/-- A client disconnects, and its upload does not go on. -/
theorem Steady.happen_disconnect (h : l.Steady) {v : Visit} {i : TaskId} {t : Task}
    (hv : (v, some i) ∈ l.visits) (hi : l.machine.tasks[i]? = some t)
    (hgoing : t.stage.isOver = false) :
    (l.happen (.disconnect i)).Steady ∧ (l.happen (.disconnect i)).left < l.left := by
  obtain ⟨hs, ha⟩ := happen_run l (.disconnect i)
  obtain ⟨m, hm⟩ := h.settled.exists_cancel hi hgoing
  let queue := l.machine.enabled m
  have hhappen : l.happen (.disconnect i) = { l with machine := m.settleAll queue } := by
    rw [happen, hm]
  rw [hhappen] at ha ⊢
  have hcancel : l.machine.after (.disconnect i) = some m := hm
  obtain ⟨t₀, tree, hi₀, -, hmoved⟩ := cancel_moved hm
  rw [hi, Option.some.injEq] at hi₀
  subst hi₀
  refine ⟨⟨h.reachable.afterAll ha, ?_, fun w j hw => ?_⟩, ?_⟩
  · refine (h.reachable.afterAll (Machine.afterAll_cons hcancel [])).settleAll_settled
      (h.settled.cancelled hmoved) (Nat.le_succ_of_le ?_)
    exact (List.length_filter_le _ _).trans_eq List.length_range
  · exact Nat.lt_of_lt_of_le (h.arrived w j hw) (Machine.afterAll_le ha).1
  · -- the upload went on before and is over now
    have hbefore : l.machine.isGoing i = true := by rw [Machine.isGoing_eq hi, hgoing]; rfl
    have hover : m.tasks[i]? = some (t.at (.cancelled l.machine.clock)) := hmoved.self hi
    have hafter : (m.settleAll queue).isGoing i = false := Machine.isGoing_settleAll hover rfl
    have hsum : (l.visits.map (toCome (m.settleAll queue))).sum <
        (l.visits.map (toCome l.machine)).sum := by
      refine List.sum_lt_sum _ _ (h.toCome_le ha) ⟨(v, some i), hv, ?_⟩
      simp [toCome, hbefore, hafter]
    have hunread := hmoved.unread_le hi
    have hle : (m.settleAll queue).unread ≤ m.unread := Machine.settle_unread_le m.moves m queue
    simp only [left]
    omega

/-- Somebody looks, once. -/
theorem Steady.happen_look (h : l.Steady) {k : Nat} (hk : l.looks[k]? = some (time, none)) :
    (l.happen (.look k)).Steady ∧ (l.happen (.look k)).left < l.left := by
  have hhappen : l.happen (.look k) =
      { l with looks := l.looks.set k (time, some l.machine.sequencer.holder.isSome) } := by
    rw [happen, hk]
  rw [hhappen]
  refine ⟨⟨h.reachable, h.settled, h.arrived⟩, ?_⟩
  have hcount := countP_set_add (fun look : Nat × Option Bool => look.2.isNone)
    (time, some l.machine.sequencer.holder.isSome) hk
  simp only [Option.isNone_none, Option.isNone_some, if_true, Bool.false_eq_true, if_false,
    Nat.add_zero] at hcount
  simp only [left]
  show _ + _ + (l.looks.set k _).countP _ < _
  omega

/-- At an occasion a timeline stays steady, and has fewer occasions left. -/
theorem Steady.happen (h : l.Steady) (ho : (time, o) ∈ l.pending) :
    ((l.atTime time).happen o).Steady ∧ ((l.atTime time).happen o).left < l.left := by
  have hlater := h.atTime time
  rw [← left_atTime l time]
  rcases List.mem_append.mp ho with ho | ho
  · rcases List.mem_append.mp ho with ho | ho
    · obtain ⟨i, t, r, hi, hr, he⟩ := mem_dataOccasions.mp ho
      cases he
      exact hlater.happen_data hi hr (Nat.le_max_right _ _)
    · rcases mem_visitOccasions.mp ho with
        ⟨k, v, hk, he⟩ | ⟨k, v, i, time', t, hk, -, hi, hgoing, he⟩
      · cases he
        exact hlater.happen_visit hk
      · cases he
        exact hlater.happen_disconnect (List.mem_of_getElem? hk) hi hgoing
  · obtain ⟨k, time', hk, he⟩ := mem_lookOccasions.mp ho
    cases he
    exact hlater.happen_look hk

/-- Occasions happen until there are none, if there are enough turns for those that are left. -/
theorem Steady.playWithin :
    ∀ {fuel : Nat} {l : Timeline}, l.Steady → l.left < fuel →
      (playWithin fuel l).Steady ∧ (playWithin fuel l).pending = []
  | fuel + 1, l, h, hlt => by
    rw [Timeline.playWithin]
    rcases next?_cases l with ⟨hnone, hnil⟩ | ⟨⟨time, o⟩, hmem, hsome⟩
    · rw [hnone]
      exact ⟨h, hnil⟩
    · rw [hsome]
      obtain ⟨hnext, hleft⟩ := h.happen hmem
      exact hnext.playWithin (by omega)

/-- A timeline is steady at its start, when there is no task. -/
theorem steady_of (g : Ingest) (visits : List Visit) (looks : List Nat) :
    (Timeline.of g visits looks).Steady where
  reachable := ⟨g, [], rfl⟩
  settled := fun i t hi => by simp [of, Machine.ofIngest] at hi
  arrived := fun v i hv => by simp [of] at hv

/-- It has turns enough for all its occasions. -/
theorem left_of (g : Ingest) (visits : List Visit) (looks : List Nat) :
    (Timeline.of g visits looks).left < (Timeline.of g visits looks).occasions := by
  have hvisits : ∀ (vs : List (Visit × Option TaskId)) (n : Nat), (∀ v ∈ vs, v.2 = none) →
      n + (vs.map (toCome (Machine.ofIngest g))).sum ≤
        vs.foldl (fun n v => n + v.1.request.body.length + 4) n := by
    intro vs
    induction vs with
    | nil => exact fun n _ => by simp
    | cons v vs ih =>
      intro n hnone
      obtain ⟨v, task⟩ := v
      obtain rfl : task = none := hnone _ List.mem_cons_self
      have hvs := ih (n + v.request.body.length + 4) fun w hw => hnone w (List.mem_cons_of_mem _ hw)
      simp only [List.map_cons, List.sum_cons, List.foldl_cons, toCome]
      omega
  have hle := hvisits (visits.map fun v => (v, none)) (looks.length + 1) (by simp)
  have hlooks := List.countP_le_length (p := fun look : Nat × Option Bool => look.2.isNone)
    (l := looks.map fun time => (time, none))
  rw [List.length_map] at hlooks
  have hunread : (Machine.ofIngest g).unread = 0 := rfl
  simp only [left, occasions, of]
  rw [List.length_map]
  omega

/-- Where nothing is to happen any more all uploads are over. -/
theorem Steady.over (h : l.Steady) (hnil : l.pending = []) :
    ∀ t ∈ l.machine.tasks, t.stage.isOver = true := by
  refine h.reachable.over_of_still fun i => ?_
  cases hi : l.machine.tasks[i]? with
  | none => rw [Machine.step, hi]
  | some t =>
    cases hr : t.stage.reading? with
    | some r =>
      have hmem : (r.settlesAt, .data i) ∈ l.pending :=
        List.mem_append_left _ (List.mem_append_left _ (mem_dataOccasions.mpr ⟨i, t, r, hi, hr, rfl⟩))
      exact absurd (hnil ▸ hmem) List.not_mem_nil
    | none =>
      rw [← Option.not_isSome_iff_eq_none, Machine.step_isSome hi]
      exact fun hfree => absurd (h.settled i t hi hr hfree) List.not_mem_nil

/-- An upload that is over has come to one of the other endings. -/
theorem endingOf_ne_unfinished {i : TaskId} {t : Task} (hi : l.machine.tasks[i]? = some t)
    (hover : t.stage.isOver = true) : l.endingOf (some i) ≠ .unfinished := by
  simp only [endingOf, Option.bind_some, hi]
  cases hs : t.stage <;> simp_all [Stage.isOver]

/-- Where nothing is to happen any more every visit has come to an end. -/
theorem Steady.unfinished_notMem (h : l.Steady) (hnil : l.pending = []) :
    .unfinished ∉ l.endings := by
  intro hmem
  obtain ⟨⟨v, task⟩, hv, hending⟩ := List.mem_map.mp hmem
  cases task with
  | none =>
    obtain ⟨k, hk⟩ := List.mem_iff_getElem?.mp hv
    have hp : (l.base + v.start, .visit k) ∈ l.pending :=
      List.mem_append_left _ (List.mem_append_right _
        (mem_visitOccasions.mpr (Or.inl ⟨k, v, hk, rfl⟩)))
    exact absurd (hnil ▸ hp) List.not_mem_nil
  | some i =>
    have hi := List.getElem?_eq_getElem (h.arrived v i hv)
    exact endingOf_ne_unfinished hi (h.over hnil _ (List.mem_of_getElem? hi)) hending

/-- Where nothing is to happen any more every look has seen something. -/
theorem seen_of_pending (hnil : l.pending = []) : ∀ look ∈ l.looks, look.2 ≠ none := by
  rintro ⟨time, seen⟩ hlook hnone
  obtain rfl : seen = none := hnone
  obtain ⟨k, hk⟩ := List.mem_iff_getElem?.mp hlook
  have hp : (l.base + time, .look k) ∈ l.pending :=
    List.mem_append_right _ (mem_lookOccasions.mpr ⟨k, time, hk, rfl⟩)
  exact absurd (hnil ▸ hp) List.not_mem_nil

end Timeline

/-- A timeline plays until nothing is to happen any more: every visit has come to an end, and every
look has seen something. -/
theorem play_ends (g : Ingest) (visits : List Visit) (looks : List Nat) :
    (Timeline.of g visits looks).play.pending = [] ∧
      .unfinished ∉ (Timeline.of g visits looks).play.endings ∧
      ∀ look ∈ (Timeline.of g visits looks).play.looks, look.2 ≠ none := by
  obtain ⟨hsteady, hnil⟩ :=
    (Timeline.steady_of g visits looks).playWithin (Timeline.left_of g visits looks)
  exact ⟨hnil, hsteady.unfinished_notMem hnil, Timeline.seen_of_pending hnil⟩

end LiveIngest.Traffic
