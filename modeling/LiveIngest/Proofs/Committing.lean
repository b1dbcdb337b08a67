import LiveIngest.Proofs.Dispatching
import LiveIngest.Proofs.Invariant
import Mathlib.Data.List.Perm.Subperm

/-!
# The order in which segments are committed

Segments are numbered in the order in which their uploads come to the sequencer.  Along a run,
`Machine.arrivals` are the uploads that get in line for the sequencer, and `Machine.commits` those
that are committed, each with the index that it was given.

The line is served first come, first served.  So the uploads that are committed and behind them those
that still stand in line are some of the arrivals, in their order; this is `Numbered.order`, and every
move keeps it: who comes goes to the end, who is committed stood at the head, and who fails or goes
away leaves the others in their order.

The same move that commits an upload counts it (`Move.committed`), which is why the indices are `0,
1, 2, ...` and why the counter is the number of the commits (`Numbered.length_eq`).  Behind
`Move.uncounted` stands that a segment in place is counted next or lost with a disconnection:
between renaming and counting the sequencer is held, so nobody else gets an index.
-/

namespace LiveIngest.Traffic

open LiveIngest.Storage
open LiveIngest.Upload

/-! ## One segment -/

/-- Whether an upload is a segment that is in place and not yet counted.  This is the state in which
the file of the current index is there and the counter does not say so. -/
def Task.isUncounted (t : Task) : Bool :=
  t.ticket.isSome &&
    match t.stage with
    | .unlocking _ _ ended _ => ended.result.isOk
    | .releasing _ _ ended _ => ended.result.isOk
    | .counting _ ended => ended.result.isOk
    | _ => false

/-- The index that a task commits with its next move, if it does.  Both the ticket and the outcome
are asked, as the program asks them. -/
def Task.committing? (t : Task) : Option Nat :=
  match t.stage, t.ticket with
  | .counting _ ended, some ticket =>
    match ended.result, ticket.session.commit ticket.slot.index with
    | .ok _, .ok _ => some ticket.slot.index
    | _, _ => none
  | _, _ => none

/-- Whether a chunked upload was committed: it is counted, and is or will be answered 200. -/
def Task.isCommitted (t : Task) : Bool :=
  chunkedPath.toList.isPrefixOf t.request.path.toList &&
    match t.stage with
    | .leaving _ ended => ended.result.isOk
    | .reporting _ ended => ended.result.isOk
    | .finished reply _ _ => reply.status == 200
    | _ => false

section

variable {c : Config} {clock : Nat} {i : TaskId} {w w' : Shared} {t t' : Task}

/-- A segment that is not yet counted has its ticket, and its task is not over.  So its task holds
the sequencer. -/
theorem Task.ticket_of_isUncounted (h : t.isUncounted = true) :
    t.ticket ≠ none ∧ t.stage.isOver = false := by
  unfold isUncounted at h
  rw [Bool.and_eq_true] at h
  refine ⟨fun hn => by rw [hn] at h; exact absurd h.1 (by simp), ?_⟩
  cases hs : t.stage <;> simp_all [Stage.isOver]

/-- Without a ticket there is nothing to count. -/
theorem Task.isUncounted_of_noTicket (h : t.ticket = none) : t.isUncounted = false := by
  rw [isUncounted, h]
  rfl

/-- Who keeps to itself commits nothing: whatever it answers, it was committed before or is not. -/
theorem Quiet.uncommitted (h : Quiet c clock i w t t') (hdash : c.dashMode = .sequenced)
    (hok : t.Ok c w.tree w.counter clock) :
    t.committing? = none ∧ t'.isCommitted = t.isCommitted := by
  cases h with
  | reject hs h => simp [Task.committing?, Task.isCommitted, hs, status_failed_ne]
  | skip hs h hmode hlen =>
    -- an upload without a body is not for the chunked path
    have hno := isPrefixOf_chunkedPath hdash h
    rw [hmode] at hno
    simp [Task.committing?, Task.isCommitted, hs, hno, Mode.isSequenced]
  | pass hs hticket =>
    obtain ⟨destination, haims⟩ := hok.aims hs
    have hno := isPrefixOf_chunkedPath hdash haims.planned
    rw [← haims.isSome_ticket, hticket] at hno
    simp [Task.committing?, Task.isCommitted, hs, hticket, hno]
  | uncounted hs hticket h =>
    simp [Task.committing?, Task.isCommitted, hs, hticket, h, Except.isOk, Except.toBool]
  | stale hs hticket h hcommit =>
    -- the ticket is for the current index, so it is never stale
    rw [(hok.commit_eq hs hticket).2.2] at hcommit
    exact absurd hcommit (by simp)
  | answer hs h =>
    rename_i plan ended reply
    -- being answered 200 is the same as having succeeded
    have hstatus : (reply.status == 200) = ended.result.isOk := by
      rw [← replyTo?_any_eq plan.mode, h, Option.any_some]
    refine ⟨by simp [Task.committing?, hs], ?_⟩
    simp only [Task.isCommitted, Task.request_at, Task.stage_at, hs, hstatus]
  | collect hs | address hs | refuse hs | issue hs | collectOn hs | collectFails hs | unfit hs
  | collected hs =>
    simp [Task.committing?, Task.isCommitted, hs, Except.isOk, Except.toBool]

/-- Nor does who vanishes.  A segment that is to be counted waits for nothing any more. -/
theorem Gone.uncommitted {tree : Tree} {s : Stage} (h : Gone c clock i w t tree s)
    (hok : t.Ok c w.tree w.counter clock) :
    t.committing? = none ∧ (t.at s).isCommitted = t.isCommitted := by
  cases h with
  | unreported hs h =>
    unfold Task.Ok at hok
    simp only [hs] at hok
    -- every upload that ends has a reply
    exact absurd h (replyTo?_ne_none hok.2)
  | queued hs | buffering hs | waiting hs | streaming hs | unstarted hs | uncollected hs
  | uncreated hs | unstreamed hs =>
    simp [Task.committing?, Task.isCommitted, hs]

/-- A move commits its upload and counts it, or does neither.  Everything about order and numbers
comes from here: the counter goes up by one exactly when one task turns from uncounted to committed,
and then nothing else changes. -/
theorem Move.committed (h : Move c clock i w t w' t') (hdash : c.dashMode = .sequenced)
    (hok : t.Ok c w.tree w.counter clock) :
    (t.committing? = none ∧ t'.isCommitted = t.isCommitted ∧ w'.counter = w.counter) ∨
      (t.committing? = some w.counter ∧ t.isCommitted = false ∧ t'.isCommitted = true ∧
        t.isUncounted = true ∧ t'.isUncounted = false ∧ w' = { w with counter := w.counter + 1 }) := by
  cases h with
  | quiet h =>
    obtain ⟨hnone, hsame⟩ := h.uncommitted hdash hok
    exact Or.inl ⟨hnone, hsame, rfl⟩
  | count hs hticket h hcommit =>
    rename_i plan ended ticket outcome session
    obtain ⟨destination, haims⟩ := hok.aims hs
    obtain ⟨-, hindex, hcommit'⟩ := hok.commit_eq hs hticket
    rw [hcommit', Except.ok.injEq] at hcommit
    subst hcommit
    have hyes := isPrefixOf_chunkedPath hdash haims.planned
    rw [← haims.isSome_ticket, hticket] at hyes
    have hisOk : ended.result.isOk = true := by
      rw [h]
      rfl
    rw [hindex] at hcommit'
    refine Or.inr ⟨?_, ?_, ?_, ?_, ?_, rfl⟩
    · simp only [Task.committing?, hs, hticket, h, hindex, hcommit']
    · simp [Task.isCommitted, hs]
    · simp [Task.isCommitted, hyes, hisOk]
    · simp [Task.isUncounted, hs, hticket, hisOk]
    · simp [Task.isUncounted]
  | vanish h =>
    obtain ⟨hnone, hsame⟩ := h.uncommitted hok
    exact Or.inl ⟨hnone, hsame, rfl⟩
  | enqueue hs | refer hs | ask hs | append hs | create hs | createFails hs | streamOn hs
  | streamed hs | streamFails hs | publish hs | publishFails hs | drop hs | unlock hs | release hs
  | leave hs =>
    refine Or.inl ?_
    simp [Task.committing?, Task.isCommitted, hs]

/-- A segment that is in place stays so until its upload commits. -/
theorem Move.uncounted (h : Move c clock i w t w' t') (hok : t.Ok c w.tree w.counter clock)
    (hu : t.isUncounted = true) : t'.isUncounted = true ∨ t.committing? = some w.counter := by
  unfold Task.isUncounted at hu
  rw [Bool.and_eq_true] at hu
  obtain ⟨hticket, hu⟩ := hu
  obtain ⟨ticket, hticket⟩ := Option.isSome_iff_exists.mp hticket
  cases h with
  | quiet h =>
    cases h with
    | pass hs hnone => rw [hticket] at hnone; cases hnone
    | uncounted hs hsome h => simp [hs, h, Except.isOk, Except.toBool] at hu
    | stale hs hsome h hcommit =>
      rw [(hok.commit_eq hs hsome).2.2] at hcommit
      cases hcommit
    | reject hs | skip hs | collect hs | address hs | refuse hs | issue hs | collectOn hs
    | collectFails hs | unfit hs | collected hs | answer hs => simp [hs] at hu
  | unlock hs =>
    simp only [hs] at hu
    exact Or.inl (by simp [Task.isUncounted, hticket, hu])
  | release hs =>
    simp only [hs] at hu
    exact Or.inl (by simp [Task.isUncounted, hticket, hu])
  | count hs hsome h hcommit =>
    obtain ⟨-, hindex, hcommit'⟩ := hok.commit_eq hs hsome
    rw [hindex] at hcommit'
    exact Or.inr (by simp only [Task.committing?, hs, hsome, h, hindex, hcommit'])
  | vanish h => cases h <;> simp_all
  | enqueue hs | refer hs | ask hs | append hs | create hs | createFails hs | streamOn hs
  | streamed hs | streamFails hs | publish hs | publishFails hs | drop hs | leave hs =>
    simp [hs] at hu

/-- A segment gets in place when its part file is renamed, and only then.  All later stages keep
what they have. -/
theorem Move.placed (h : Move c clock i w t w' t') (hok : t.Ok c w.tree w.counter clock)
    (hu : t'.isUncounted = true) :
    t.isUncounted = true ∧ w'.tree = w.tree ∨
      ∃ plan destination reading l, t.stage = .publishing plan destination reading l ∧
        Upload.publish w.tree (partPath destination) destination = (.ok (), w'.tree) := by
  cases h with
  | quiet h =>
    refine Or.inl ⟨?_, rfl⟩
    cases h <;> simp_all [Task.isUncounted]
  | unlock hs =>
    refine Or.inl ⟨?_, rfl⟩
    simpa [Task.isUncounted, hs] using hu
  | release hs =>
    refine Or.inl ⟨?_, rfl⟩
    simpa [Task.isUncounted, hs] using hu
  | append hs hheld =>
    -- whoever appends has no ticket
    rename_i plan destination payload reading l
    unfold Task.Ok at hok
    simp only [hs] at hok
    obtain ⟨haims, hmode, -⟩ := hok
    have hnone : t.ticket.isSome = false := by
      rw [haims.isSome_ticket]
      cases hm : plan.mode <;> simp_all [Mode.isChunked, Mode.isSequenced]
    simp [Task.isUncounted, hnone] at hu
  | drop hs =>
    unfold Task.Ok at hok
    simp only [hs] at hok
    obtain ⟨-, -, cause, hcause⟩ := hok
    simp [Task.isUncounted, hcause, Except.isOk, Except.toBool] at hu
  | publish hs h => exact Or.inr ⟨_, _, _, _, hs, h⟩
  | vanish h => cases h <;> simp [Task.isUncounted] at hu
  | enqueue hs | refer hs | ask hs | create hs | createFails hs | streamOn hs
  | streamed hs | streamFails hs | publishFails hs | count hs | leave hs =>
    simp [Task.isUncounted] at hu

/-- The line of the sequencer changes at its end when somebody comes, and else nobody gets in.
Whoever goes leaves the others in their order, which `Sublist` says. -/
theorem Move.line (h : Move c clock i w t w' t') (hord : w.sequencer.Orderly) :
    w'.sequencer.Orderly ∧
      ((∃ plan hint, t.stage = .arriving ∧ t' = t.at (.queued plan hint) ∧
        w'.sequencer.line = w.sequencer.line ++ [i]) ∨
      w'.sequencer.line.Sublist w.sequencer.line) := by
  cases h with
  | enqueue hs h hmode =>
    exact ⟨Mutex.orderly_enter _ i, Or.inl ⟨_, _, hs, rfl, Mutex.line_enter hord i⟩⟩
  | leave hs =>
    refine ⟨hord.leave i, Or.inr ?_⟩
    show (w.sequencer.leave i).line.Sublist _
    rw [Mutex.line_leave]
    exact List.erase_sublist
  | vanish h =>
    -- who disconnects may have stood in line or not
    have hgone : w.sequencerWithout i t = w.sequencer.leave i ∨
        w.sequencerWithout i t = w.sequencer := by
      unfold Shared.sequencerWithout
      split <;> simp
    show (w.sequencerWithout i t).Orderly ∧ (_ ∨ (w.sequencerWithout i t).line.Sublist _)
    rcases hgone with hgone | hgone <;> rw [hgone]
    · rw [Mutex.line_leave]
      exact ⟨hord.leave i, Or.inr List.erase_sublist⟩
    · exact ⟨hord, Or.inr (List.Sublist.refl _)⟩
  | _ => exact ⟨hord, Or.inr (List.Sublist.refl _)⟩

/-- Nobody arrives twice, so nobody gets in line twice. -/
theorem Move.stage_ne_arriving (h : Move c clock i w t w' t') : t'.stage ≠ .arriving := by
  cases h with
  | quiet h => cases h <;> simp
  | vanish h => cases h <;> simp
  | _ => simp

end

/-! ## A whole run -/

namespace Machine

/-- Whether a task is a segment that was committed, as one can see from its stage. -/
def hasCommitted (m : Machine) (i : TaskId) : Bool := m.tasks[i]?.any Task.isCommitted

/-- The task that gets in line for the sequencer, if one does.  It is read off the two lines before
and after the move. -/
def joining (m m' : Machine) : Happening → List TaskId
  | .move i => if i ∉ m.sequencer.line ∧ i ∈ m'.sequencer.line then [i] else []
  | _ => []

/-- The task that is committed, if one is, with the index that it was given. -/
def committing (m _m' : Machine) : Happening → List (TaskId × Nat)
  | .move i => ((m.tasks[i]?.bind Task.committing?).map fun index => (i, index)).toList
  | _ => []

/-- The uploads that get in line for the sequencer along a run, in order. -/
def arrivals (m : Machine) (hs : List Happening) : List TaskId := m.gather joining hs

/-- The uploads that are committed along a run, in order, with their indices. -/
def commits (m : Machine) (hs : List Happening) : List (TaskId × Nat) := m.gather committing hs

/-- The uploads are committed in the order of their arrival and numbered without a gap.  `order` is
the heart: what was committed and behind it the rest of the line is a part of what arrived, in its
order. -/
structure Numbered (m : Machine) (arrived : List TaskId) (done : List (TaskId × Nat)) : Prop where
  orderly : m.sequencer.Orderly
  order : (done.map Prod.fst ++ m.sequencer.line.filter fun i => !m.hasCommitted i).Sublist arrived
  nodup : arrived.Nodup
  arrived : ∀ i ∈ arrived, ∃ t, m.tasks[i]? = some t ∧ t.stage ≠ .arriving
  mem : ∀ i, i ∈ done.map Prod.fst ↔ m.hasCommitted i = true
  indices : done.map Prod.snd = List.range m.counter

/-- A move concerns one task, so committing is decided by it alone. -/
theorem hasCommitted_moved {m m' : Machine} {i : TaskId} {t t' : Task}
    (hi : m.tasks[i]? = some t) (hmv : m.Moved i t t' m') :
    m'.hasCommitted i = t'.isCommitted ∧ m.hasCommitted i = t.isCommitted ∧
      ∀ j, j ≠ i → m'.hasCommitted j = m.hasCommitted j := by
  refine ⟨?_, ?_, fun j hij => ?_⟩
  · rw [hasCommitted, hmv.self hi]
    rfl
  · rw [hasCommitted, hi]
    rfl
  · rw [hasCommitted, hmv.others hij]
    rfl

/-- Whose client disconnects is not committed by that: it is cancelled afterwards, and a cancelled
task is not committed. -/
theorem committing_disconnect {m m' : Machine} {i : TaskId} {t : Task} {time : Nat}
    (hdash : m.config.dashMode = .sequenced) (hinv : m.Inv) (hi : m.tasks[i]? = some t)
    (hmv : m.Moved i t (t.at (.cancelled time)) m') : m.committing m' (.move i) = [] := by
  rcases hmv.move.committed hdash (hinv.ok i t hi) with ⟨hnone, -, -⟩ | ⟨-, -, hafter, -⟩
  · rw [committing, hi, Option.bind_some, hnone]
    rfl
  · simp [Task.isCommitted] at hafter

namespace Numbered

variable {m m' : Machine} {arrived : List TaskId} {done : List (TaskId × Nat)}

/-- At the start nobody has come and nothing is committed. -/
theorem ofIngest (g : Ingest) (h : g.counter = 0) : (Machine.ofIngest g).Numbered [] [] where
  orderly := fun _ => rfl
  order := List.Sublist.refl _
  nodup := List.nodup_nil
  arrived := by simp
  mem := by simp [hasCommitted, Machine.ofIngest]
  indices := by
    show [] = List.range g.counter
    rw [h]
    rfl

/-- Who stands in line has arrived: by `order` if it is not committed, and by `mem` if it is. -/
theorem mem_arrived_of_line (h : m.Numbered arrived done) {i : TaskId}
    (hi : i ∈ m.sequencer.line) : i ∈ arrived := by
  apply h.order.subset
  rw [List.mem_append, h.mem, List.mem_filter]
  cases hc : m.hasCommitted i with
  | true => exact Or.inl rfl
  | false => exact Or.inr ⟨hi, rfl⟩

/-- What a move leaves of the arrivals is still there, and has left the first stage for good. -/
theorem arrived_moved (h : m.Numbered arrived done) {i : TaskId} {t t' : Task}
    (hi : m.tasks[i]? = some t) (hmv : m.Moved i t t' m') :
    ∀ j, j ∈ arrived ∨ j = i → ∃ u, m'.tasks[j]? = some u ∧ u.stage ≠ .arriving := by
  intro j hj
  by_cases hij : j = i
  · subst hij
    exact ⟨t', hmv.self hi, hmv.move.stage_ne_arriving⟩
  · rw [hmv.others hij]
    exact h.arrived j (hj.resolve_right hij)

section

variable {i : TaskId} {t t' : Task} (h : m.Numbered arrived done) (hi : m.tasks[i]? = some t)
  (hmv : m.Moved i t t' m')
include h hi hmv

/-- A move that commits nothing lets at most its own upload into the line.  It is a new one, because
who has arrived is past the first stage. -/
theorem kept (hsame : t'.isCommitted = t.isCommitted) (hcounter : m'.counter = m.counter) :
    m'.Numbered (arrived ++ m.joining m' (.move i)) done := by
  obtain ⟨hafter, hbefore, hothers⟩ := hasCommitted_moved hi hmv
  have hcommitted : m'.hasCommitted = m.hasCommitted := by
    funext j
    by_cases hij : j = i
    · rw [hij, hafter, hbefore, hsame]
    · exact hothers j hij
  have hstays := h.arrived_moved hi hmv
  obtain ⟨horderly, hline⟩ := hmv.move.line h.orderly
  rcases hline with ⟨plan, hint, hs, rfl, hline⟩ | hline
  · -- it comes
    have hnew : i ∉ arrived := by
      intro hmem
      obtain ⟨u, hu, hne⟩ := h.arrived i hmem
      rw [hi, Option.some.injEq] at hu
      exact hne (hu ▸ hs)
    have hout : i ∉ m.sequencer.line := fun hmem => hnew (h.mem_arrived_of_line hmem)
    have hline : m'.sequencer.line = m.sequencer.line ++ [i] := hline
    have hjoin : m.joining m' (.move i) = [i] := by
      rw [joining, if_pos ⟨hout, by rw [hline]; simp⟩]
    have hpending : m'.hasCommitted i = false := by
      rw [hafter]
      simp [Task.isCommitted]
    rw [hjoin]
    refine ⟨horderly, ?_, ?_, fun j hj => hstays j ?_, fun j => ?_, ?_⟩
    · rw [hline, List.filter_append, ← List.append_assoc, hcommitted]
      refine List.Sublist.append h.order ?_
      exact List.filter_sublist
    · rw [List.nodup_append]
      refine ⟨h.nodup, by simp, fun j hj k hk => ?_⟩
      rw [List.mem_singleton] at hk
      rintro rfl
      exact hnew (hk ▸ hj)
    · simpa using hj
    · rw [hcommitted]
      exact h.mem j
    · rw [hcounter]
      exact h.indices
  · -- nobody gets in
    have hline : m'.sequencer.line.Sublist m.sequencer.line := hline
    have hjoin : m.joining m' (.move i) = [] := by
      rw [joining, if_neg fun hin => hin.1 (hline.subset hin.2)]
    rw [hjoin, List.append_nil]
    refine ⟨horderly, ?_, h.nodup, fun j hj => hstays j (Or.inl hj), fun j => ?_, ?_⟩
    · rw [hcommitted]
      exact ((List.Sublist.refl _).append (hline.filter _)).trans h.order
    · rw [hcommitted]
      exact h.mem j
    · rw [hcounter]
      exact h.indices

/-- Who is committed stood at the head of the line.  So it moves from the head of the line to the
end of the committed uploads, and the two put together stay as they are. -/
theorem counted (hheld : m.sequencer.holder = some i) (hbefore : t.isCommitted = false)
    (hafter : t'.isCommitted = true) (hsequencer : m'.sequencer = m.sequencer)
    (hcounter : m'.counter = m.counter + 1) :
    m'.Numbered arrived (done ++ [(i, m.counter)]) := by
  obtain ⟨hafter', hbefore', hothers⟩ := hasCommitted_moved hi hmv
  rw [hafter] at hafter'
  rw [hbefore] at hbefore'
  have hline : m.sequencer.line = i :: m.sequencer.waiting := Mutex.line_of_holder hheld
  have hold := h.order
  refine ⟨by rw [hsequencer]; exact h.orderly, ?_, h.nodup,
    fun j hj => h.arrived_moved hi hmv j (Or.inl hj), fun j => ?_, ?_⟩
  · rw [hline, List.filter_cons_of_pos (by rw [hbefore']; rfl)] at hold
    rw [hsequencer, hline, List.filter_cons_of_neg (by rw [hafter']; simp), List.map_append,
      List.map_cons, List.map_nil, List.append_assoc, List.singleton_append]
    -- the head of the line becomes the last of those that are done
    refine ((List.Sublist.refl _).append (List.Sublist.cons_cons i ?_)).trans hold
    refine List.monotone_filter_right _ fun j hj => ?_
    by_cases hij : j = i
    · rw [hij, hafter'] at hj
      cases hj
    · rw [← hothers j hij]
      exact hj
  · rw [List.map_append, List.mem_append, h.mem]
    by_cases hij : j = i
    · simp [hij, hafter']
    · simp [hij, hothers j hij]
  · rw [List.map_append, h.indices, hcounter, List.range_succ]
    rfl

/-- Every move keeps the uploads numbered: `kept` for a move that commits nothing and `counted` for
the one that commits. -/
theorem moved (hdash : m.config.dashMode = .sequenced) (hinv : m.Inv) :
    m'.Numbered (arrived ++ m.joining m' (.move i)) (done ++ m.committing m' (.move i)) := by
  have hcommitting : m.committing m' (.move i) =
      (t.committing?.map fun index => (i, index)).toList := by
    rw [committing, hi]
    rfl
  rcases hmv.move.committed hdash (hinv.ok i t hi) with ⟨hnone, hsame, hcounter⟩ |
    ⟨hsome, hbefore, hafter, huncounted, -, hw⟩
  · rw [hcommitting, hnone]
    simpa using h.kept hi hmv hsame hcounter
  · obtain ⟨hticket, hgoing⟩ := Task.ticket_of_isUncounted huncounted
    have hsequencer : m'.sequencer = m.sequencer := congrArg Shared.sequencer hw
    have hcounter : m'.counter = m.counter + 1 := congrArg Shared.counter hw
    have hjoin : m.joining m' (.move i) = [] := by
      rw [joining, hsequencer, if_neg fun hin => hin.1 hin.2]
    rw [hcommitting, hsome, hjoin, List.append_nil]
    exact h.counted hi hmv (hinv.ticketed i t hi hticket hgoing) hbefore hafter hsequencer hcounter

end

/-- A new upload is at its first stage.  It has not arrived at the sequencer yet, so nothing
changes. -/
theorem admitTask (h : m.Numbered arrived done) (request : Request) :
    (m.admitTask request).Numbered arrived done := by
  have hcommitted : (m.admitTask request).hasCommitted = m.hasCommitted := by
    funext j
    by_cases hj : j = m.tasks.length
    · rw [hj, hasCommitted, hasCommitted, m.getElem?_admitTask_length request,
        List.getElem?_eq_none (Nat.le_refl _)]
      simp [Task.isCommitted, Task.new]
    · rw [hasCommitted, hasCommitted, m.getElem?_admitTask request hj]
  refine ⟨h.orderly, by rw [hcommitted]; exact h.order, h.nodup, fun j hj => ?_,
    fun j => by rw [hcommitted]; exact h.mem j, h.indices⟩
  obtain ⟨t, ht, hne⟩ := h.arrived j hj
  exact ⟨t, found_admitTask request ht, hne⟩

/-- The uploads stay numbered, whatever happens. -/
theorem after {e : Happening} (h : m.Numbered arrived done) (hdash : m.config.dashMode = .sequenced)
    (hinv : m.Inv) (ha : m.after e = some m') :
    m'.Numbered (arrived ++ m.joining m' e) (done ++ m.committing m' e) := by
  cases happened ha with
  | arrive request => simpa [joining, committing] using h.admitTask request
  | move hi hmv => exact h.moved hi hmv hdash hinv
  | disconnect hi hg hmv =>
    rename_i i t tree
    -- a disconnection is a move that lets nobody in line and commits nothing
    have hmoved := h.moved hi hmv hdash hinv
    have hjoin : m.joining m' (.move i) = [] := by
      rcases (hmv.move.line h.orderly).2 with ⟨plan, hint, -, hqueued, -⟩ | hline
      · exact absurd (congrArg Task.stage hqueued) (by simp)
      · rw [joining, if_neg fun hin => hin.1 (hline.subset hin.2)]
    have hcommitting := committing_disconnect hdash hinv hi hmv
    rw [hjoin, hcommitting] at hmoved
    exact hmoved
  | pass clock hle =>
    simp only [joining, committing, List.append_nil]
    exact ⟨h.orderly, h.order, h.nodup, h.arrived, h.mem, h.indices⟩

/-- The committed uploads are those of the arrivals, in their order.  Being a sublist of the
arrivals without repetitions and having the same members, they are the filtered arrivals. -/
theorem committed_eq (h : m.Numbered arrived done) :
    done.map Prod.fst = arrived.filter m.hasCommitted := by
  have hsub : (done.map Prod.fst).Sublist arrived :=
    (List.sublist_append_left _ _).trans h.order
  have hall : (done.map Prod.fst).filter m.hasCommitted = done.map Prod.fst :=
    List.filter_eq_self.mpr fun i hi => (h.mem i).mp hi
  have hfilter := hsub.filter m.hasCommitted
  rw [hall] at hfilter
  refine hfilter.eq_of_length_le ?_
  refine (List.subperm_of_subset (h.nodup.filter _) fun i hi => ?_).length_le
  rw [h.mem]
  exact (List.mem_filter.mp hi).2

/-- The counter is the number of the commits. -/
theorem length_eq (h : m.Numbered arrived done) : m.counter = done.length := by
  have hlen := congrArg List.length h.indices
  rw [List.length_map, List.length_range] at hlen
  exact hlen.symm

end Numbered

end Machine

end LiveIngest.Traffic
