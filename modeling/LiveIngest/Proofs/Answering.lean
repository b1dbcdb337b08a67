import LiveIngest.Proofs.Linearizing
import LiveIngest.Proofs.Scanning
import Mathlib.Logic.Relation

/-!
# Every upload is answered

What is computed while an upload is handled stays in range, so that nothing breaks down on the way and
there is always a reply.  Five things could go wrong:

1. **Deadlines.**  An instant has a limit.  The time for the whole body, and the end of every wait,
   have to be before it.  This is the one thing that depends on the settings: `DeadlinesFit`, which
   `DeadlinesFit.of_seconds` shows of every read timeout up to 2^60 seconds.
2. **The remaining length.**  It is what was declared without what was received, so no more may be
   received than was declared.
3. **Slices of a piece.**  What counts of a piece has to be a piece of it.
4. **Slices of a form.**  `Form.scan_eq`.
5. **The counter.**  It is the number of segments that were committed.

`Reading.Orderly` is the invariant that covers the first three; both loops keep it, since both go on
to the next reading in the same way (`Reading.Next`).  `dispatch_answers` puts all five together.

The settings are not checked for the first: `validate` refuses a read timeout of nothing, but none that
is too long, and `dispatch_not_answered` is an upload that such a timeout leaves without a reply.
-/

namespace LiveIngest.Body

/-! ## Which deadlines fit -/

/-- All deadlines fit for a read timeout of 2^60 seconds, as long as the clock shows no more than that
and lengths are words. -/
theorem DeadlinesFit.of_seconds {timeout : Span} {declared start : Nat}
    (htimeout : timeout.nanos ≤ (Span.ofSeconds (2 ^ 60)).nanos) (hdeclared : declared ≤ Text.maxWord)
    (hstart : start ≤ 1000 * 2 ^ 60) : DeadlinesFit timeout declared start := by
  apply DeadlinesFit.of_last
  -- a length is a word, so at the minimum rate it takes no more seconds than a word over that
  have hrate : declared / minBytesPerSecond ≤ 2 ^ 48 := by
    simp only [minBytesPerSecond, Text.maxWord, UInt64.size] at hdeclared ⊢
    omega
  have hwhole : (allowance timeout declared).nanos =
      timeout.nanos + Span.nanosPerSecond * (declared / minBytesPerSecond) := rfl
  have hlast : (Span.ofMillis start + (Span.ofMillis (allowance timeout declared).ceilMillis +
      timeout)).nanos = Span.nanosPerMilli * start +
        (Span.nanosPerMilli * (allowance timeout declared).ceilMillis + timeout.nanos) := rfl
  have hceil : Span.nanosPerMilli * (allowance timeout declared).ceilMillis ≤
      (allowance timeout declared).nanos + (Span.nanosPerMilli - 1) := by
    rw [Span.ceilMillis]
    exact Nat.mul_div_le _ _
  rw [representable, decide_eq_true_eq, Span.seconds, hlast]
  simp only [Span.ofSeconds, Span.nanosPerSecond, Span.nanosPerMilli, maxSecond, UInt64.size] at *
  omega

/-! ## What is computed while a body is read -/

/-- What the next turn of a loop computes is in range. -/
structure Reading.InRange (r : Reading) : Prop where
  /-- The deadline of the whole body. -/
  deadline : r.reaches r.deadline = true
  /-- The deadlines of the next wait, one after each empty piece. -/
  wait : r.await ≠ .overflow
  /-- The remaining length is a difference. -/
  remaining : r.received + r.remaining = r.declared
  /-- What counts of the next piece is a slice of it, and is wanted. -/
  piece : ∀ bytes after, r.await = .piece bytes after → ∃ n ≤ bytes.length,
    (after.accept bytes).1 = bytes.take n ∧ (after.accept bytes).2.remaining + n = r.remaining

/-- What counts of a piece, and what was received with it. -/
theorem Reading.accept_piece {r after : Reading} {bytes : Bytes}
    (h : r.await = .piece bytes after) :
    (after.accept bytes).1 = bytes.take (min bytes.length r.remaining) ∧
      (after.accept bytes).2.received = r.received + min bytes.length r.remaining ∧
      (after.accept bytes).2.declared = r.declared := by
  obtain ⟨-, hreceived, hdeclared, -, -⟩ := Reading.await_piece h
  have hremaining : after.remaining = r.remaining := by
    rw [remaining, remaining, hreceived, hdeclared]
  refine ⟨?_, ?_, hdeclared⟩
  · show bytes.take after.remaining = _
    rw [hremaining, List.take_eq_take_min, Nat.min_comm]
  · show after.received + (bytes.take after.remaining).length = _
    rw [hreceived, hremaining, List.length_take, Nat.min_comm]

/-- A reading that is within its time and has received no more than it should. -/
structure Reading.Orderly (r : Reading) : Prop where
  timely : r.Timely
  received : r.received ≤ r.declared

/-- A loop goes on to another reading once a piece is there. -/
def Reading.Next (r r' : Reading) : Prop :=
  ∃ bytes after, r.await = .piece bytes after ∧ r' = (after.accept bytes).2

namespace Reading.Orderly

variable {r r' : Reading}

/-- A reading that has just begun is orderly. -/
theorem start {timeout : Span} {declared start : Nat} (h : DeadlinesFit timeout declared start)
    (body : Schedule) : (Reading.begin timeout declared start body).Orderly :=
  ⟨h.timely_begin body, Nat.zero_le _⟩

/-- So its next wait breaks nothing: it stays in its time. -/
theorem within (h : r.Orderly) : r.await.Within r := awaitFrom_within r.rest r h.timely

/-- The step: an orderly reading goes on to an orderly one.  What counts of a piece is cut off at
what is still wanted. -/
theorem next (h : r.Orderly) (hn : r.Next r') : r'.Orderly := by
  obtain ⟨bytes, after, hpiece, rfl⟩ := hn
  have hwithin := h.within
  rw [hpiece] at hwithin
  refine ⟨h.timely.continues (Reading.continues_accept hwithin bytes), ?_⟩
  obtain ⟨-, hreceived, hdeclared⟩ := Reading.accept_piece hpiece
  have hle := h.received
  rw [hreceived, hdeclared]
  simp only [remaining]
  omega

/-- The invariant covers all that the next turn computes. -/
theorem inRange (h : r.Orderly) : r.InRange := by
  have hle := h.received
  refine ⟨h.timely.fit.whole, fun hov => ?_, ?_, fun bytes after hpiece => ?_⟩
  · have hwithin := h.within
    rw [hov] at hwithin
    exact hwithin
  · rw [remaining]
    omega
  · obtain ⟨hcounted, hreceived, hdeclared⟩ := Reading.accept_piece hpiece
    refine ⟨min bytes.length r.remaining, Nat.min_le_left _ _, hcounted, ?_⟩
    rw [remaining, hreceived, hdeclared, remaining]
    omega

end Reading.Orderly

/-- A turn of collecting a body that goes on. -/
def Buffering.Turns (b b' : Buffering) : Prop := b.step = .again b'

/-- This loop goes on to the next reading, -/
theorem Buffering.Turns.next {b b' : Buffering} (h : b.Turns b') : b.reading.Next b'.reading := by
  obtain ⟨-, bytes, after, hpiece, rfl⟩ := step_again h
  exact ⟨bytes, after, hpiece, rfl⟩

/-- A loop whose turns go on to the next reading is orderly all along. -/
theorem Reading.Orderly.along {σ : Type} {turns : σ → σ → Prop} (reading : σ → Reading) {s s' : σ}
    (hs : (reading s).Orderly) (hrun : Relation.ReflTransGen turns s s')
    (hnext : ∀ s s', turns s s' → (reading s).Next (reading s')) : (reading s').Orderly := by
  induction hrun with
  | refl => exact hs
  | tail _ hturn ih => exact ih.next (hnext _ _ hturn)

end LiveIngest.Body

namespace LiveIngest.Upload

open LiveIngest.Body
open LiveIngest.Storage
open LiveIngest.Traffic.Machine (payloadOf)

/-- A turn of streaming a body into `part` that goes on, with the disk before and after it. -/
def Streaming.Turns (part : String) (x x' : Streaming × Tree) : Prop :=
  x.1.step part x.2 = (.again x'.1, x'.2)

/-- and so does this one, whatever the file does. -/
theorem Streaming.Turns.next {part : String} {x x' : Streaming × Tree}
    (h : Streaming.Turns part x x') : x.1.reading.Next x'.1.reading := by
  unfold Turns step at h
  split at h
  · simp at h
  · split at h
    · simp at h
    · simp at h
    · rename_i bytes after hpiece
      simp only at h
      split at h
      · simp at h
      · simp only [Prod.mk.injEq, Turn.again.injEq] at h
        refine ⟨bytes, after, hpiece, ?_⟩
        rw [← h.1]

/-- Streaming that has begun starts with the reading of the body. -/
theorem startStreaming_reading {timeout : Span} {declared start : Nat} {body : Schedule}
    {part : String} {t t' : Tree} {s : Streaming}
    (h : startStreaming timeout declared start body part t = (.ok s, t')) :
    s.reading = Reading.begin timeout declared start body := by
  unfold startStreaming at h
  split at h
  · simp at h
  · simp only at h
    split at h
    · cases h
      rfl
    · simp at h

/-! ## Streaming does not break down -/

section

variable {timeout : Span} {declared start : Nat} {body : Schedule}

/-- The deadline of the whole body is computed before the first wait. -/
theorem startStreaming_ne_overflow (h : DeadlinesFit timeout declared start) (body : Schedule)
    (part : String) (t : Tree) :
    (startStreaming timeout declared start body part t).1 ≠ .error .overflow := by
  unfold startStreaming
  split
  · simp [fileFault]
  · simp [show (Reading.begin timeout declared start body).reaches
      (Reading.begin timeout declared start body).deadline = true from h.whole]

/-- No turn of the loop breaks down, as the reading of each is orderly. -/
theorem Streaming.run_ne_overflow (part : String) (s : Streaming) (t : Tree)
    (hs : s.reading.Orderly) : (s.run part t).1.1 ≠ .error .overflow := by
  fun_induction Streaming.run s part t with
  | case1 s t result reading t' hstep =>
    -- of the ways for a turn to be the last, only a wait has a deadline
    rintro rfl
    unfold step at hstep
    split at hstep
    · simp only [Prod.mk.injEq, Turn.done.injEq] at hstep
      exact settle_ne_overflow _ _ hstep.1.1
    · split at hstep
      · rename_i hov
        exact hs.inRange.wait hov
      · simp at hstep
      · simp only at hstep
        split at hstep
        · simp [fileFault] at hstep
        · simp at hstep
  | case2 s t s' t' hstep ih =>
    have hturn : Streaming.Turns part (s, t) (s', t') := hstep
    exact ih (hs.next hturn.next)

/-- So an overwrite does not break down.  What is left of it, the rename and the removal of the part
file, has no deadlines. -/
theorem overwrite_ne_overflow (h : DeadlinesFit timeout declared start) (destination : String)
    (t : Tree) :
    (overwrite timeout declared start body destination t).result ≠ .error .overflow := by
  suffices hstream :
      (stream timeout declared start body destination t).1.1 ≠ .error .overflow by
    unfold overwrite
    split
    · simp
    · rename_i heq
      rw [heq] at hstream
      exact fun he => hstream (by simpa using he)
  unfold stream
  simp only
  split
  · rename_i stop t' heq
    have hne := startStreaming_ne_overflow h body (partPath destination) t
    rw [heq] at hne
    exact fun he => hne (by simpa using he)
  · rename_i s t' hstart
    have hreading := startStreaming_reading hstart
    have hne := Streaming.run_ne_overflow (partPath destination) s t'
      (hreading ▸ Reading.Orderly.start h body)
    split
    · rename_i heq
      rw [heq] at hne
      exact fun he => hne (by simpa using he)
    · unfold publish
      split <;> simp [fileFault]

end

-- that it does not break down is all that matters of it from here on
attribute [local irreducible] overwrite

namespace Ingest

/-! ## The counter -/

/-- An upload is committed: it is numbered, and answered 200. -/
def commits (g : Ingest) (request : Request) : Bool :=
  match classify g.config request.path request.headers with
  | .error _ => false
  | .ok plan => plan.mode.isSequenced && (g.dispatch request).reply.any (·.status == 200)

/-- The number of uploads that are committed when they are handled one after the other. -/
def committed (g : Ingest) : List Request → Nat
  | [] => 0
  | request :: rest =>
    (if g.commits request then 1 else 0) + (g.dispatch request).ingest.committed rest

/-- The settings do not change, with one upload -/
theorem config_dispatch (g : Ingest) (request : Request) :
    (g.dispatch request).ingest.config = g.config := by
  unfold dispatch
  split <;> rfl

/-- or with many. -/
theorem config_dispatchAll (g : Ingest) (requests : List Request) :
    (g.dispatchAll requests).2.config = g.config := by
  induction requests generalizing g with
  | nil => rfl
  | cons request rest ih => exact (ih _).trans (config_dispatch g request)

/-- The counter moves with a segment that was stored, and with nothing else. -/
theorem execute_counter (g : Ingest) (plan : Plan) (body : Schedule) :
    (g.execute plan body).counter =
      if plan.mode.isSequenced && (g.execute plan body).result.isOk then g.counter + 1
      else g.counter := by
  cases hm : plan.mode with
  | sequenced hint =>
    rcases execute_sequenced hm body with ⟨kind, -, -, hexec⟩ | ⟨-, events, hexec⟩
    · rw [hexec]
      rfl
    · rw [hexec]
      generalize (g.overwriting _ plan.length body).result = result
      cases result <;> rfl
  | _ =>
    unfold execute
    rw [hm]
    rfl

/-- The counter moves by one for every upload that is committed, and for no other. -/
theorem counter_dispatch (g : Ingest) (request : Request) :
    (g.dispatch request).ingest.counter = g.counter + if g.commits request then 1 else 0 := by
  cases hplan : classify g.config request.path request.headers with
  | error rejection =>
    rw [(dispatch_rejected hplan).2, commits, hplan]
    rfl
  | ok plan =>
    obtain ⟨hreply, hingest⟩ := dispatch_planned hplan
    rw [hingest, commits, hplan]
    simp only [hreply, replyTo?_any_eq]
    rw [execute_counter]
    split <;> rfl

/-- So the counter is the number of those that were committed, from where it started. -/
theorem counter_dispatchAll (g : Ingest) (requests : List Request) :
    (g.dispatchAll requests).2.counter = g.counter + g.committed requests := by
  induction requests generalizing g with
  | nil => rfl
  | cons request rest ih =>
    have hrest := ih (g.dispatch request).ingest
    rw [counter_dispatch] at hrest
    rw [committed, ← Nat.add_assoc, ← hrest]
    rfl

/-! ## Every upload is answered -/

/-- A plan whose deadlines fit is carried out to the end. -/
theorem execute_ne_overflow {g : Ingest} {plan : Plan} (body : Schedule)
    (hempty : plan.length = 0 → plan.mode.takesEmpty g.config = true)
    (hfit : DeadlinesFit g.config.readTimeout plan.length g.clock) :
    (g.execute plan body).result ≠ .error .overflow := by
  have hcollected : (g.collected plan body).result ≠ .error .overflow := by
    have hread := (readBody_timely hfit body).1
    unfold collected
    split
    · rename_i heq
      rw [heq] at hread
      exact fun he => hread (by simpa using he)
    · split
      · simp
      · exact appendRead_ne_overflow _ _ _ _
  -- by mode: two kinds of body are collected, two are streamed
  cases hm : plan.mode with
  | rawAppend =>
    by_cases hlen : plan.length = 0
    · rw [execute_rawEmpty hm hlen]
      simp
    · rw [execute_collected (by rw [hm]; rfl) hlen]
      exact hcollected
  | form boundary field =>
    rw [hm] at hempty
    have hlen : plan.length ≠ 0 := fun h0 => absurd (hempty h0) (by simp [Mode.takesEmpty])
    rw [execute_collected (by rw [hm]; rfl) hlen]
    exact hcollected
  | addressed name =>
    rw [execute_addressed hm]
    exact overwrite_ne_overflow hfit _ _
  | sequenced hint =>
    rcases execute_sequenced hm body with ⟨kind, -, -, hexec⟩ | ⟨-, events, hexec⟩
    · rw [hexec]
      simp
    · rw [hexec]
      exact overwrite_ne_overflow hfit _ _

/-- What is computed while an upload is handled is in range. -/
structure InRange (g : Ingest) (request : Request) (plan : Plan) : Prop where
  /-- At the start of the body. -/
  start : (g.beginReading plan.length request.body).InRange
  /-- In every turn of the loop that collects the body. -/
  buffering : ∀ b₀ b,
    startBuffering g.config.readTimeout plan.length g.clock request.body = .ok b₀ →
      Relation.ReflTransGen Buffering.Turns b₀ b → b.reading.InRange
  /-- In every turn of the loop that streams the body to a file. -/
  streaming : ∀ part t s₀ t₀ s t',
    startStreaming g.config.readTimeout plan.length g.clock request.body part t = (.ok s₀, t₀) →
      Relation.ReflTransGen (Streaming.Turns part) (s₀, t₀) (s, t') → s.reading.InRange
  /-- In every form that the body may be. -/
  form : ∀ bytes boundary, Form.scan bytes boundary = some (Form.parse bytes boundary)

/-- If the deadlines fit, all of it is in range: both loops start orderly and stay so. -/
theorem inRange {g : Ingest} {request : Request} {plan : Plan}
    (hfit : DeadlinesFit g.config.readTimeout plan.length g.clock) : g.InRange request plan := by
  have hstart := Reading.Orderly.start hfit request.body
  refine ⟨hstart.inRange, fun b₀ b hb hrun => ?_, fun part t s₀ t₀ s t' hs hrun => ?_,
    Form.scan_eq⟩
  · obtain ⟨rfl, -⟩ := startBuffering_ok hb
    exact (Reading.Orderly.along Buffering.reading hstart hrun fun _ _ h => h.next).inRange
  · have hs₀ : s₀.reading.Orderly := startStreaming_reading hs ▸ hstart
    exact (Reading.Orderly.along (·.1.reading) hs₀ hrun fun _ _ h => h.next).inRange

/-- An upload is answered, whatever it is and whatever was handled before, if the deadlines of its
body can be represented: its reading stays in range, no slice of the form is out of bounds, and the
counter is the number of uploads that were committed. -/
theorem dispatch_answers {c : Config} {tree : Tree} {before : List Request} {request : Request}
    {g : Ingest} (hbefore : ((Ingest.start c tree).dispatchAll before).2 = g)
    (hfit : ∀ plan, classify c request.path request.headers = .ok plan →
      DeadlinesFit c.readTimeout plan.length g.clock) :
    (∃ reply, (g.dispatch request).reply = some reply) ∧
      (∀ plan, classify c request.path request.headers = .ok plan → g.InRange request plan) ∧
      (g.dispatch request).ingest.counter =
        (Ingest.start c tree).committed (before ++ [request]) := by
  have hconfig : g.config = c := by
    rw [← hbefore]
    exact config_dispatchAll _ _
  subst hconfig
  refine ⟨?_, fun plan hplan => inRange (hfit plan hplan), ?_⟩
  · cases hplan : classify g.config request.path request.headers with
    | error rejection => exact ⟨_, (dispatch_rejected hplan).1⟩
    | ok plan =>
      rw [(dispatch_planned hplan).1]
      have hne := execute_ne_overflow request.body (classify_ok hplan).2.2 (hfit plan hplan)
      exact Option.ne_none_iff_exists'.mp (replyTo?_ne_none hne)
  · have hcount := counter_dispatchAll (Ingest.start g.config tree) (before ++ [request])
    rw [dispatchAll_append, hbefore] at hcount
    rw [hcount]
    exact Nat.zero_add _

/-- The third segment of a session is answered, and is the third that is committed. -/
theorem dispatch_answers_session :
    let c : Config := {}
    let before := [threeBytes, threeBytes]
    let g := ((Ingest.start c Tree.empty).dispatchAll before).2
    (∀ plan, classify c threeBytes.path threeBytes.headers = .ok plan →
        DeadlinesFit c.readTimeout plan.length g.clock) ∧
      (∃ reply, (g.dispatch threeBytes).reply = some reply) ∧
      (∀ plan, classify c threeBytes.path threeBytes.headers = .ok plan →
        g.InRange threeBytes plan) ∧
      (g.dispatch threeBytes).ingest.counter =
        (Ingest.start c Tree.empty).committed (before ++ [threeBytes]) ∧
      (Ingest.start c Tree.empty).committed (before ++ [threeBytes]) = 3 := by
  intro c before g
  have hclock : g.clock ≤ 1000 * 2 ^ 60 := by decide +kernel
  have hfit : ∀ plan, classify c threeBytes.path threeBytes.headers = .ok plan →
      DeadlinesFit c.readTimeout plan.length g.clock := fun plan hplan => by
    have hlength := declaredLength_le (classify_ok hplan).2.1
    exact .of_seconds (by decide) (Nat.le_trans hlength (by decide)) hclock
  obtain ⟨hreply, hinRange, hcounter⟩ := dispatch_answers (g := g) rfl hfit
  exact ⟨hfit, hreply, hinRange, hcounter, by decide +kernel⟩

/-! ## An upload that is not answered -/

/-- Settings with a read timeout of as many seconds as a word can hold. -/
def endless : Config := { readTimeout := Span.ofSeconds Text.maxWord }

/-- The settings are accepted, and neither raw uploads nor segments are ever answered. -/
theorem dispatch_not_answered :
    endless.validate = .ok () ∧
      ((Ingest.start endless Tree.empty).dispatch
        (.declaring "/upload" "video/webm" "5" [⟨0, .data [1, 2, 3, 4, 5]⟩])).reply = none ∧
      ((Ingest.start endless Tree.empty).dispatch threeBytes).reply = none := by
  decide +kernel

end Ingest

end LiveIngest.Upload
