import LiveIngest.Proofs.Locks
import LiveIngest.Proofs.Output

/-!
# What a task in progress knows

Between two moves a task carries what it has found out: its plan, its destination, how far its body
was read, what it has written.  `Task.Ok` says, stage by stage, that all of this is still true.  The
body, above all: whatever was read so far is what `readBody` reads, and a part file holds what the
buffer would hold at this point.

`Move.ok` is the step of this invariant for the task that moves; `Task.Ok.frame` is the step for all
the others, as long as nobody touches their part file.

The stages of one upload hand their knowledge on.  While a body is collected in memory the task
knows that the rest of the reading ends as the whole reading does (`Task.Reads` with
`Buffering.run`), so that every step may rewrite its knowledge by one equation.  A streamed upload
knows the same of a buffer that it does not have: the part file holds what the buffer would hold,
and `Streaming.step_again_sim` moves both.
-/

namespace LiveIngest.Traffic

open LiveIngest.Body
open LiveIngest.Storage
open LiveIngest.Storage.Path
open LiveIngest.Upload

/-- What reading the body of a task comes to, from some moment that has been.  The moment itself is
lost, since the task may have waited for a lock in between; that it is not later than the clock is
all that is needed. -/
def Task.Reads (c : Config) (clock : Nat) (t : Task) (plan : Plan)
    (r : Except Stop Bytes × Reading) : Prop :=
  ∃ start, start ≤ clock ∧ readBody c.readTimeout plan.length start t.request.body = r

/-- The ticket that goes with a mode: a sequenced upload has been given the current index, which
agrees with its hint. -/
def TicketFor (c : Config) (counter : Nat) (ticket : Option Ticket) : Mode → Prop
  | .sequenced hint =>
    ticket = some ⟨Segment.Slot.at c.streamName counter, ⟨counter, some counter⟩⟩ ∧
      ∀ kind, hint = some kind → kind = Segment.Kind.ofIndex counter
  | _ => ticket = none

/-- A task that goes by its plan, towards the destination of the plan.  The destination follows from
the plan and the counter, so a task with a ticket depends on the counter standing still. -/
structure Task.Aims (c : Config) (counter : Nat) (t : Task) (plan : Plan) (destination : String) :
    Prop where
  planned : classify c t.request.path t.request.headers = .ok plan
  ticket : TicketFor c counter t.ticket plan.mode
  place : destination = c.destination (plan.mode.target c counter)

/-- A task that goes by its plan, with the work that the plan asks for.  A whole upload comes here
with its payload in hand, a chunked one with a body that nobody has read. -/
def Task.Works (c : Config) (clock : Nat) (t : Task) (plan : Plan) : Work → Prop
  | .append payload reading =>
    plan.mode.isChunked = false ∧ plan.length ≠ 0 ∧ ∃ bytes, t.Reads c clock plan (.ok bytes, reading) ∧
      Machine.payloadOf plan.mode bytes = .ok payload
  | .overwrite declared body =>
    plan.mode.isChunked = true ∧ declared = plan.length ∧ body = t.request.body

/-- A part file that holds what was collected so far: some buffering that is as far as the streaming
has the bytes in memory that the streaming has on the disk. -/
def Task.Streams (c : Config) (tree : Tree) (counter clock : Nat) (t : Task) (plan : Plan)
    (s : Streaming) : Prop :=
  ∃ (b : Buffering) (k : Location), t.Reads c clock plan b.run ∧ s.reading = b.reading ∧
    partPlace tree c.outputDir (plan.mode.target c counter) = .ok k ∧
    Carries s.handle tree k b.buffer

/-- A part file that holds the whole body, at the end of `Task.Streams`. -/
def Task.Streamed (c : Config) (tree : Tree) (counter clock : Nat) (t : Task) (plan : Plan)
    (reading : Reading) : Prop :=
  ∃ (bytes : Bytes) (k : Location), t.Reads c clock plan (.ok bytes, reading) ∧
    partPlace tree c.outputDir (plan.mode.target c counter) = .ok k ∧
    tree.get? k = some (.file bytes)

/-- What a task knows at its stage is true.  Stages that have their lock also know their plan; that
they hold the lock is not said here but in `Machine.Inv`, because it is about the lock table. -/
def Task.Ok (c : Config) (tree : Tree) (counter clock : Nat) (t : Task) : Prop :=
  match t.stage with
  | .arriving => t.ticket = none
  | .queued plan hint =>
    classify c t.request.path t.request.headers = .ok plan ∧ plan.mode = .sequenced hint ∧
      t.ticket = none
  | .buffering plan b =>
    classify c t.request.path t.request.headers = .ok plan ∧ plan.mode.isChunked = false ∧
      plan.length ≠ 0 ∧ t.ticket = none ∧ t.Reads c clock plan b.run
  | .seeking plan destination work => t.Aims c counter plan destination ∧ t.Works c clock plan work
  | .asking plan destination work _ => t.Aims c counter plan destination ∧ t.Works c clock plan work
  | .waiting plan destination work _ => t.Aims c counter plan destination ∧ t.Works c clock plan work
  | .streaming plan destination s _ =>
    t.Aims c counter plan destination ∧ plan.mode.isChunked = true ∧
      t.Streams c tree counter clock plan s
  | .publishing plan destination reading _ =>
    t.Aims c counter plan destination ∧ plan.mode.isChunked = true ∧
      t.Streamed c tree counter clock plan reading
  | .dropping plan destination ended _ =>
    t.Aims c counter plan destination ∧ plan.mode.isChunked = true ∧
      ∃ cause, ended.result = .error (.failed cause)
  | .unlocking plan destination ended _ =>
    t.Aims c counter plan destination ∧ ended.result ≠ .error .overflow
  | .releasing plan destination ended _ =>
    t.Aims c counter plan destination ∧ ended.result ≠ .error .overflow
  | .counting plan ended =>
    (∃ destination, t.Aims c counter plan destination) ∧ ended.result ≠ .error .overflow
  | .leaving plan ended => (∃ hint, plan.mode = .sequenced hint) ∧ ended.result ≠ .error .overflow
  | .reporting _ ended => t.ticket = none ∧ ended.result ≠ .error .overflow
  | .finished .. => True
  | .cancelled _ => True
  | .broken _ => True

section

variable {c : Config} {tree tree' : Tree} {counter counter' clock clock' : Nat} {t t' : Task}
  {plan : Plan} {destination : String}

/-- A moment that has been stays one. -/
theorem Task.Reads.later {r : Except Stop Bytes × Reading} (h : t.Reads c clock plan r)
    (hle : clock ≤ clock') : t.Reads c clock' plan r := by
  obtain ⟨start, hs, hr⟩ := h
  exact ⟨start, Nat.le_trans hs hle, hr⟩

/-- An upload that is appended goes to the raw output file, whatever form it came in. -/
theorem Task.Aims.tree_appendRead (h : t.Aims c counter plan destination)
    (hmode : plan.mode.isChunked = false) (payload : Bytes) (reading : Reading) (tree : Tree) :
    (appendRead payload destination reading tree).tree =
      (appendPayload tree (join c.outputDir c.rawOutputFile) payload).2 := by
  have hdest : destination = join c.outputDir c.rawOutputFile := by
    rw [h.place, target_of_whole hmode]
    rfl
  rw [(appendRead_result payload destination reading tree).2.1, hdest]

/-- Whoever has no ticket does not depend on the counter: the three other modes name their file
without it. -/
theorem Task.Aims.of_noTicket (h : t.Aims c counter plan destination) (ht : t.ticket = none) :
    t.Aims c counter' plan destination ∧ plan.mode.target c counter' = plan.mode.target c counter := by
  obtain ⟨hplan, hticket, hdest⟩ := h
  cases hm : plan.mode with
  | sequenced hint =>
    rw [hm] at hticket
    rw [ht] at hticket
    -- a sequenced upload with an aim has a ticket
    exact absurd hticket.1 (by simp)
  | rawAppend => exact ⟨⟨hplan, by rw [hm]; exact ht, by rw [hdest, hm]; rfl⟩, rfl⟩
  | form boundary field => exact ⟨⟨hplan, by rw [hm]; exact ht, by rw [hdest, hm]; rfl⟩, rfl⟩
  | addressed name => exact ⟨⟨hplan, by rw [hm]; exact ht, by rw [hdest, hm]; rfl⟩, rfl⟩

/-- Uploads that are appended whole go with no ticket. -/
theorem ticketFor_of_whole {mode : Mode} {ticket : Option Ticket} (hmode : mode.isChunked = false)
    (ht : ticket = none) : TicketFor c counter ticket mode := by
  cases mode with
  | rawAppend => exact ht
  | form boundary field => exact ht
  | addressed name => exact absurd hmode (by simp [Mode.isChunked])
  | sequenced hint => exact absurd hmode (by simp [Mode.isChunked])

/-- Only sequenced uploads have tickets. -/
theorem Task.Aims.sequenced_of_ticket (h : t.Aims c counter plan destination)
    (ht : t.ticket ≠ none) : ∃ hint, plan.mode = .sequenced hint := by
  have hticket := h.ticket
  cases hm : plan.mode with
  | sequenced hint => exact ⟨hint, rfl⟩
  | rawAppend => rw [hm] at hticket; exact absurd hticket ht
  | form boundary field => rw [hm] at hticket; exact absurd hticket ht
  | addressed name => rw [hm] at hticket; exact absurd hticket ht

/-- The same task at another stage goes the same way. -/
theorem Task.Aims.at (h : t.Aims c counter plan destination) (s : Stage) :
    (t.at s).Aims c counter plan destination := ⟨h.planned, h.ticket, h.place⟩

/-- Time changes nothing about the work: a payload that was read is still what was read. -/
theorem Task.Works.later {work : Work} (h : t.Works c clock plan work) (hle : clock ≤ clock') :
    t.Works c clock' plan work := by
  cases work with
  | append payload reading =>
    obtain ⟨hmode, hlen, bytes, hread, hpay⟩ := h
    exact ⟨hmode, hlen, bytes, hread.later hle, hpay⟩
  | overwrite declared body => exact h

/-- The plan of a task whose part file is there.  Between its creation and its renaming or removal
the file belongs to the task alone. -/
def Stage.flight? : Stage → Option Plan
  | .streaming plan _ _ _ => some plan
  | .publishing plan _ _ _ => some plan
  | .dropping plan _ _ _ => some plan
  | _ => none

/-- A move that changes nothing shared is never made with a part file in hand: the moves of a task
in flight are among those that may touch the disk. -/
theorem Quiet.flight? {i : TaskId} {w : Shared} (h : Quiet c clock i w t t') :
    t.stage.flight? = none := by
  cases h <;> simp_all [Stage.flight?]

/-- The place of the part file of a task, while it may be there. -/
def Task.InFlight (c : Config) (tree : Tree) (counter : Nat) (t : Task) (k : Location) : Prop :=
  ∃ plan, t.stage.flight? = some plan ∧
    partPlace tree c.outputDir (plan.mode.target c counter) = .ok k

/-- The aim does not move while others do: either the counter stands still or the task does not look
at it. -/
theorem Task.Aims.frame (h : t.Aims c counter plan destination)
    (hcounter : counter' = counter ∨ t.ticket = none) :
    t.Aims c counter' plan destination ∧ plan.mode.target c counter' = plan.mode.target c counter := by
  rcases hcounter with rfl | hticket
  · exact ⟨h, rfl⟩
  · exact h.of_noTicket hticket

/-- What a task knows stays true as long as nobody else touches its part file, and as long as nobody
else moves the counter that it has a ticket for.  The caller has these two from the locks: the part
file is only touched under the lock of the destination, the counter only moved by the holder of the
sequencer. -/
theorem Task.Ok.frame (h : t.Ok c tree counter clock) (hclock : clock ≤ clock')
    (hcounter : counter' = counter ∨ t.ticket = none ∨ t.stage.isOver = true)
    (hplaces : SamePlaces tree tree' c.outputDir) (hroom : tree'.room = none ↔ tree.room = none)
    (hpart : ∀ k, t.InFlight c tree counter k → tree'.get? k = tree.get? k) :
    t.Ok c tree' counter' clock' := by
  -- a task that is over has no use for the counter
  have hnumber : t.stage.isOver = false → counter' = counter ∨ t.ticket = none := by
    intro hover
    rcases hcounter with h | h | h
    · exact Or.inl h
    · exact Or.inr h
    · rw [hover] at h
      exact absurd h (by simp)
  unfold Task.Ok at h ⊢
  cases hs : t.stage with
  | arriving => simp only [hs] at h ⊢; exact h
  | queued plan hint => simp only [hs] at h ⊢; exact h
  | buffering plan b =>
    simp only [hs] at h ⊢
    obtain ⟨hplan, hmode, hlen, hticket, hread⟩ := h
    exact ⟨hplan, hmode, hlen, hticket, hread.later hclock⟩
  | seeking plan destination work =>
    simp only [hs] at h ⊢
    exact ⟨(h.1.frame (hnumber (by rw [hs]; rfl))).1, h.2.later hclock⟩
  | asking plan destination work l =>
    simp only [hs] at h ⊢
    exact ⟨(h.1.frame (hnumber (by rw [hs]; rfl))).1, h.2.later hclock⟩
  | waiting plan destination work l =>
    simp only [hs] at h ⊢
    exact ⟨(h.1.frame (hnumber (by rw [hs]; rfl))).1, h.2.later hclock⟩
  | streaming plan destination s l =>
    simp only [hs] at h ⊢
    obtain ⟨haims, hmode, b, k, hread, hreading, hk, hcarries⟩ := h
    obtain ⟨haims', htarget⟩ := haims.frame (hnumber (by rw [hs]; rfl))
    refine ⟨haims', hmode, b, k, hread.later hclock, hreading, ?_, ?_⟩
    · rw [htarget, hplaces.partPlace_eq]
      exact hk
    · exact hcarries.of_eq (hpart k ⟨plan, by rw [hs]; rfl, hk⟩) hroom
  | publishing plan destination reading l =>
    simp only [hs] at h ⊢
    obtain ⟨haims, hmode, bytes, k, hread, hk, hget⟩ := h
    obtain ⟨haims', htarget⟩ := haims.frame (hnumber (by rw [hs]; rfl))
    refine ⟨haims', hmode, bytes, k, hread.later hclock, ?_, ?_⟩
    · rw [htarget, hplaces.partPlace_eq]
      exact hk
    · rw [hpart k ⟨plan, by rw [hs]; rfl, hk⟩]
      exact hget
  | dropping plan destination ended l =>
    simp only [hs] at h ⊢
    exact ⟨(h.1.frame (hnumber (by rw [hs]; rfl))).1, h.2⟩
  | unlocking plan destination ended l =>
    simp only [hs] at h ⊢
    exact ⟨(h.1.frame (hnumber (by rw [hs]; rfl))).1, h.2⟩
  | releasing plan destination ended l =>
    simp only [hs] at h ⊢
    exact ⟨(h.1.frame (hnumber (by rw [hs]; rfl))).1, h.2⟩
  | counting plan ended =>
    simp only [hs] at h ⊢
    obtain ⟨⟨destination, haims⟩, hne⟩ := h
    exact ⟨⟨destination, (haims.frame (hnumber (by rw [hs]; rfl))).1⟩, hne⟩
  | leaving plan ended => simp only [hs] at h ⊢; exact h
  | reporting plan ended => simp only [hs] at h ⊢; exact h
  | finished reply taken time => trivial
  | cancelled time => trivial
  | broken time => trivial

/-- Whoever has a ticket stores a segment, and whoever stores a segment has a ticket. -/
theorem Task.Aims.isSome_ticket (h : t.Aims c counter plan destination) : t.ticket.isSome = plan.mode.isSequenced := by
  have hfor := h.ticket
  cases hm : plan.mode with
  | sequenced hint => rw [hm] at hfor; rw [hfor.1]; rfl
  | rawAppend => rw [hm] at hfor; exact congrArg Option.isSome hfor
  | form boundary field => rw [hm] at hfor; exact congrArg Option.isSome hfor
  | addressed name => rw [hm] at hfor; exact congrArg Option.isSome hfor

/-- A task that is about to be counted still goes by its plan. -/
theorem Task.Ok.aims {tree : Tree} {ended : Ended} (h : t.Ok c tree counter clock)
    (hs : t.stage = .counting plan ended) : ∃ destination, t.Aims c counter plan destination := by
  unfold Task.Ok at h
  simp only [hs] at h
  exact h.1

/-- A ticket is one for the current index: while it is out the counter waits for it. -/
theorem Task.Aims.ticket_eq {ticket : Ticket} (h : t.Aims c counter plan destination)
    (hticket : t.ticket = some ticket) : (∃ hint, plan.mode = .sequenced hint) ∧
      ticket = ⟨Segment.Slot.at c.streamName counter, ⟨counter, some counter⟩⟩ := by
  obtain ⟨hint, hmode⟩ := h.sequenced_of_ticket (by rw [hticket]; simp)
  have hfor := h.ticket
  rw [hmode, hticket] at hfor
  exact ⟨⟨hint, hmode⟩, Option.some.inj hfor.1⟩

/-- The index that a task was given is the one it commits.  So the sequencer never refuses a commit,
and the reply for a stale one is never given. -/
theorem Task.Ok.commit_eq {tree : Tree} {ended : Ended} {ticket : Ticket}
    (h : t.Ok c tree counter clock) (hs : t.stage = .counting plan ended)
    (hticket : t.ticket = some ticket) :
    (∃ hint, plan.mode = .sequenced hint) ∧ ticket.slot.index = counter ∧
      ticket.session.commit ticket.slot.index = .ok ⟨counter + 1, some counter⟩ := by
  obtain ⟨destination, haims⟩ := h.aims hs
  obtain ⟨hmode, rfl⟩ := haims.ticket_eq hticket
  exact ⟨hmode, rfl, commit_issued counter⟩

/-! ## The task that moves -/

/-- A move that changes nothing shared keeps what the task knows true.  These moves are made without
a lock, or while waiting for one; what they add is read off the request (`classify`), the sequencer
(`issue`) or the body (`Buffering.step`). -/
theorem Quiet.ok {i : TaskId} {w : Shared} (h : Quiet c clock i w t t')
    (hok : t.Ok c w.tree w.counter clock) : t'.Ok c w.tree w.counter clock := by
  unfold Task.Ok at hok
  cases h with
  | reject hs h => trivial
  | skip hs h hmode hlen =>
    simp only [hs] at hok
    exact ⟨hok, by simp⟩
  | collect hs h hmode hlen hstart =>
    rename_i plan b
    simp only [hs] at hok
    refine ⟨h, hmode, ?_, hok, clock, Nat.le_refl _, (startBuffering_ok hstart).2⟩
    -- a form is never empty
    intro h0
    have hempty := (classify_ok h).2.2 h0
    cases hm : plan.mode with
    | rawAppend => exact hlen hm h0
    | form boundary field => rw [hm] at hempty; exact absurd hempty (by simp [Mode.takesEmpty])
    | addressed name => rw [hm] at hmode; exact absurd hmode (by simp [Mode.isChunked])
    | sequenced hint => rw [hm] at hmode; exact absurd hmode (by simp [Mode.isChunked])
  | address hs h hmode =>
    simp only [hs] at hok
    refine ⟨⟨h, by rw [hmode]; exact hok, by rw [hmode]; rfl⟩, by rw [hmode]; rfl, rfl, rfl⟩
  | refuse hs hheld h =>
    simp only [hs] at hok
    exact ⟨⟨_, hok.2.1⟩, by simp⟩
  | issue hs hheld h =>
    rename_i plan hint slot session
    simp only [hs] at hok
    obtain ⟨hplan, hmode, -⟩ := hok
    rcases issue_begin w.counter c.streamName hint with ⟨kind, -, -, hissue⟩ | ⟨hagree, hissue⟩
    · rw [hissue] at h
      -- a refused index is no ticket
      exact absurd h (by simp)
    · rw [hissue, Except.ok.injEq, Prod.mk.injEq] at h
      obtain ⟨rfl, rfl⟩ := h
      refine ⟨⟨hplan, ?_, ?_⟩, by rw [hmode]; rfl, rfl, rfl⟩
      · rw [hmode]; exact ⟨rfl, hagree⟩
      · rw [hmode]; rfl
  | collectOn hs h =>
    simp only [hs] at hok
    obtain ⟨hplan, hmode, hlen, hticket, hread⟩ := hok
    rw [Buffering.run_of_again h] at hread
    exact ⟨hplan, hmode, hlen, hticket, hread⟩
  | collectFails hs h =>
    simp only [hs] at hok
    exact ⟨hok.2.2.2.1, by simp⟩
  | unfit hs h hpay =>
    simp only [hs] at hok
    exact ⟨hok.2.2.2.1, by simp⟩
  | collected hs h hpay =>
    simp only [hs] at hok
    obtain ⟨hplan, hmode, hlen, hticket, hread⟩ := hok
    rw [Buffering.run_of_done h] at hread
    refine ⟨⟨hplan, ?_, ?_⟩, hmode, hlen, _, hread, hpay⟩
    · exact ticketFor_of_whole hmode hticket
    · rw [target_of_whole hmode]; rfl
  | pass hs hticket =>
    simp only [hs] at hok
    exact ⟨hticket, hok.2⟩
  | uncounted hs hticket h =>
    simp only [hs] at hok
    obtain ⟨⟨destination, haims⟩, hne⟩ := hok
    exact ⟨haims.sequenced_of_ticket (by rw [hticket]; simp), hne⟩
  | stale hs hticket h hcommit =>
    simp only [hs] at hok
    obtain ⟨⟨destination, haims⟩, -⟩ := hok
    exact ⟨haims.sequenced_of_ticket (by rw [hticket]; simp), by simp⟩
  | answer hs h => trivial

/-- A move keeps what its task knows true.  The cases go along the life of an upload; those that
write use that the part file is at the place of the plan (`hlinks`), so that a write does not go
somewhere else. -/
theorem Move.ok {i : TaskId} {w w' : Shared} (h : Move c clock i w t w' t') (hc : c.Valid)
    (hlinks : NoLinks w.tree c.outputDir) (hok : t.Ok c w.tree w.counter clock) :
    t'.Ok c w'.tree w'.counter clock := by
  unfold Task.Ok at hok
  cases h with
  | quiet h => exact h.ok hok
  | enqueue hs h hmode =>
    simp only [hs] at hok
    exact ⟨h, hmode, hok⟩
  | refer hs => simp only [hs] at hok; exact ⟨hok.1.at _, hok.2⟩
  | ask hs => simp only [hs] at hok; exact ⟨hok.1.at _, hok.2⟩
  | append hs hheld =>
    simp only [hs] at hok
    exact ⟨hok.1.at _, appendRead_ne_overflow _ _ _ _⟩
  | create hs hheld h =>
    rename_i plan destination declared body l s tree
    simp only [hs] at hok
    obtain ⟨haims, hmode, rfl, rfl⟩ := hok
    have hn := isComponent_target hc haims.planned w.counter
    have hplace : destination = join c.outputDir (plan.mode.target c w.counter) := haims.place
    rw [hplace] at h
    obtain ⟨hstart, k, hk, hcarries, htouch, -⟩ := startStreaming_ok hn (hlinks.part _) h
    refine ⟨haims.at _, hmode, ⟨s.reading, []⟩, k, ?_, rfl, ?_, hcarries⟩
    · exact ⟨clock, Nat.le_refl _, (startBuffering_ok hstart).2⟩
    · rw [(places_of_touches htouch hk).2.1]
      exact hk
  | createFails hs hheld h =>
    simp only [hs] at hok
    obtain ⟨haims, hmode, -, -⟩ := hok
    exact ⟨haims.at _, hmode, _, rfl⟩
  | streamOn hs h =>
    simp only [hs] at hok
    obtain ⟨haims, hmode, b, k, hread, hreading, hk, hcarries⟩ := hok
    -- one step on the disk is one step in memory
    obtain ⟨b', hb, hreading', hcarries', htouch, -⟩ :=
      Streaming.step_again_sim (Tree.place_ne_nil hk) hreading hcarries h
    rw [Buffering.run_of_again hb] at hread
    refine ⟨haims.at _, hmode, b', k, hread, hreading', ?_, hcarries'⟩
    rw [(places_of_touches htouch hk).2.1]
    exact hk
  | streamed hs h =>
    simp only [hs] at hok
    obtain ⟨haims, hmode, b, k, hread, hreading, hk, hcarries⟩ := hok
    -- the last step: what the buffer holds is what the file holds
    obtain ⟨hb, rfl, hget⟩ := Streaming.step_ok_sim hreading hcarries h
    rw [Buffering.run_of_done hb] at hread
    exact ⟨haims.at _, hmode, b.buffer, k, hread, hk, hget⟩
  | streamFails hs h =>
    simp only [hs] at hok
    exact ⟨hok.1.at _, hok.2.1, _, rfl⟩
  | publish hs h =>
    simp only [hs] at hok
    exact ⟨hok.1.at _, by simp⟩
  | publishFails hs h =>
    simp only [hs] at hok
    obtain ⟨-, cause, rfl⟩ := publish_error h
    exact ⟨hok.1.at _, hok.2.1, cause, rfl⟩
  | drop hs =>
    simp only [hs] at hok
    obtain ⟨haims, -, cause, hcause⟩ := hok
    exact ⟨haims.at _, by rw [hcause]; simp⟩
  | unlock hs => simp only [hs] at hok; exact ⟨hok.1.at _, hok.2⟩
  | release hs => simp only [hs] at hok; exact ⟨⟨_, hok.1.at _⟩, hok.2⟩
  | count hs hticket h hcommit =>
    simp only [hs] at hok
    obtain ⟨⟨destination, haims⟩, hne⟩ := hok
    exact ⟨haims.sequenced_of_ticket (by rw [hticket]; simp), hne⟩
  | leave hs => simp only [hs] at hok; exact ⟨rfl, hok.2⟩
  | vanish h => cases h <;> trivial

end

end LiveIngest.Traffic
