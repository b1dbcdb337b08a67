import LiveIngest.Body.Buffering

/-!
# Reading a body

What the loop that collects a body comes to, told apart from when it happens.

* `run_of_again`, `run_of_done`: the loop is its turns.
* `readBody_bytes`: a body that was read in full gives exactly the first bytes of all its data.
* `readBody_timely`: reading is over when the time for the whole body is, and it does not break down
  as long as every deadline can be represented (`DeadlinesFit`).
* `readBody_restart`: the moment at which reading starts does not matter then.
-/

namespace LiveIngest.Body

/-- The data of a schedule, all chunks together, whether or not anybody gets to read them. -/
def Schedule.bytes (body : Schedule) : Bytes := body.flatMap Chunk.bytes

namespace Buffering

/-- One turn of the loop, when it goes on. -/
theorem run_of_again {b b' : Buffering} (h : b.step = .again b') : b.run = b'.run := by
  rw [run]
  split
  · rename_i heq
    rw [h] at heq
    simp at heq
  · rename_i b'' heq
    rw [h, Turn.again.injEq] at heq
    rw [heq]

/-- The last turn of the loop. -/
theorem run_of_done {b : Buffering} {result : Except Stop Bytes} {reading : Reading}
    (h : b.step = .done result reading) : b.run = (result, reading) := by
  rw [run]
  split
  · rename_i heq
    rw [h, Turn.done.injEq] at heq
    rw [heq.1, heq.2]
  · rename_i heq
    rw [h] at heq
    simp at heq

end Buffering

/-! ## One wait -/

/-- What a wait that ends with a piece has done: it took a shorter schedule, and skipped nothing but
empty pieces.  Nothing has been counted yet; that is done by whoever takes the piece. -/
theorem awaitFrom_piece :
    ∀ (rest : Schedule) (r after : Reading) (bytes : Bytes),
      awaitFrom r rest = .piece bytes after →
        Schedule.bytes rest = bytes ++ Schedule.bytes after.rest ∧ after.received = r.received ∧
          after.declared = r.declared ∧ after.timeout = r.timeout ∧ after.start = r.start
  | [], r, after, bytes, h => by
    rw [awaitFrom] at h
    split at h <;> simp at h
  | c :: rest, r, after, bytes, h => by
    rw [awaitFrom] at h
    split at h
    · simp at h
    · split at h
      · simp at h
      · split at h
        · simp at h
        · split at h
          · rename_i hitem
            -- the chunk was empty, and the wait went on behind it
            obtain ⟨hb, hrec, hdec, htime, hstart⟩ := awaitFrom_piece rest _ after bytes h
            refine ⟨?_, hrec, hdec, htime, hstart⟩
            rw [← hb, Schedule.bytes, List.flatMap_cons, Chunk.bytes, hitem]
            rfl
          · rename_i b bs hitem
            cases h
            refine ⟨?_, rfl, rfl, rfl, rfl⟩
            rw [Schedule.bytes, List.flatMap_cons, Chunk.bytes, hitem]
            rfl
          · simp at h
          · simp at h
          · simp at h

/-- A wait that fails has received nothing: what was read before it still counts as it did. -/
theorem awaitFrom_failed :
    ∀ (rest : Schedule) (r after : Reading) (fault : BodyFault),
      awaitFrom r rest = .failed fault after → after.received = r.received
  | [], r, after, fault, h => by
    rw [awaitFrom] at h
    split at h
    · simp at h
    · cases h
      rfl
  | c :: rest, r, after, fault, h => by
    rw [awaitFrom] at h
    split at h
    · simp at h
    · split at h
      · cases h
        rfl
      · split at h
        · cases h
          rfl
        · split at h
          · exact awaitFrom_failed rest (r.took _ rest) after fault h
          · simp at h
          all_goals
            cases h
            rfl

/-- The same for the wait that a reading is at, which is over the rest of its own schedule. -/
theorem Reading.await_piece {r after : Reading} {bytes : Bytes} (h : r.await = .piece bytes after) :
    Schedule.bytes r.rest = bytes ++ Schedule.bytes after.rest ∧ after.received = r.received ∧
      after.declared = r.declared ∧ after.timeout = r.timeout ∧ after.start = r.start :=
  awaitFrom_piece r.rest r after bytes h

/-! ## The bytes that are read -/

/-- A turn that goes on has waited for a piece, because bytes were missing, and has taken what
counts of it. -/
theorem Buffering.step_again {b b' : Buffering} (h : b.step = .again b') :
    b.reading.remaining ≠ 0 ∧ ∃ bytes after, b.reading.await = .piece bytes after ∧
      b' = ⟨(after.accept bytes).2, b.buffer ++ (after.accept bytes).1⟩ := by
  unfold step at h
  split at h
  · simp at h
  · rename_i hrem
    refine ⟨hrem, ?_⟩
    split at h
    · simp at h
    · simp at h
    · rename_i bytes after ha
      cases h
      exact ⟨bytes, after, ha, rfl⟩

/-- A turn that ends well has found nothing missing, and changes nothing. -/
theorem Buffering.step_done_ok {b : Buffering} {bytes : Bytes} {reading : Reading}
    (h : b.step = .done (.ok bytes) reading) :
    b.reading.remaining = 0 ∧ bytes = b.buffer ∧ reading = b.reading := by
  unfold step at h
  split at h
  · rename_i hrem
    cases h
    exact ⟨hrem, rfl, rfl⟩
  · split at h <;> simp at h

/-- A turn that fails has waited, and either the deadline of the wait could not be computed or the
body failed; the error says which. -/
theorem Buffering.step_done_error {b : Buffering} {stop : Stop} {reading : Reading}
    (h : b.step = .done (.error stop) reading) :
    b.reading.remaining ≠ 0 ∧
      (b.reading.await = .overflow ∧ stop = .overflow ∧ reading = b.reading ∨
        ∃ fault, b.reading.await = .failed fault reading ∧
          stop = .failed (.write (.body fault))) := by
  unfold step at h
  split at h
  · simp at h
  · rename_i hrem
    refine ⟨hrem, ?_⟩
    split at h
    · rename_i ha
      cases h
      exact Or.inl ⟨ha, rfl, rfl⟩
    · rename_i fault after ha
      cases h
      exact Or.inr ⟨fault, ha, rfl⟩
    · simp at h

/-- What has been received only grows, since no turn takes anything back. -/
theorem Buffering.received_le_run (b : Buffering) : b.reading.received ≤ b.run.2.received := by
  fun_induction Buffering.run b with
  | case1 b result reading hstep =>
    cases result with
    | ok bytes =>
      obtain ⟨-, -, rfl⟩ := step_done_ok hstep
      exact Nat.le_refl _
    | error stop =>
      obtain ⟨-, ⟨-, -, rfl⟩ | ⟨fault, ha, -⟩⟩ := step_done_error hstep
      · exact Nat.le_refl _
      · exact Nat.le_of_eq (awaitFrom_failed _ _ _ _ ha).symm
  | case2 b b' hstep ih =>
    obtain ⟨-, bytes, after, ha, rfl⟩ := step_again hstep
    obtain ⟨-, hreceived, -, -, -⟩ := Reading.await_piece ha
    refine Nat.le_trans ?_ ih
    show b.reading.received ≤ after.received + _
    omega

/-- What is still to be read behind a piece that counted in part or in full.  If the piece was cut
short nothing is wanted any more, and the second part is empty. -/
theorem take_accept (bytes rest : Bytes) (n : Nat) :
    (bytes ++ rest).take n = bytes.take n ++ rest.take (n - (bytes.take n).length) := by
  rw [List.take_append, List.length_take]
  congr 2
  omega

/-- A loop that ends well has added what was still wanted of the data, and all of that was there.
By induction on the loop; a turn moves a piece from the schedule to the buffer, as far as it is
wanted. -/
theorem Buffering.run_bytes (b : Buffering) {bytes : Bytes} {reading : Reading}
    (h : b.run = (.ok bytes, reading)) :
    bytes = b.buffer ++ (Schedule.bytes b.reading.rest).take b.reading.remaining ∧
      b.reading.remaining ≤ (Schedule.bytes b.reading.rest).length := by
  fun_induction Buffering.run b with
  | case1 b result reading' hstep =>
    cases h
    obtain ⟨hrem, hb, -⟩ := step_done_ok hstep
    rw [hrem, List.take_zero, List.append_nil]
    exact ⟨hb, Nat.zero_le _⟩
  | case2 b b' hstep ih =>
    obtain ⟨-, piece, after, ha, rfl⟩ := step_again hstep
    obtain ⟨hrest, hrec, hdec, -, -⟩ := Reading.await_piece ha
    obtain ⟨hbytes, hle⟩ := ih h
    have hremaining : after.remaining = b.reading.remaining := by
      rw [Reading.remaining, Reading.remaining, hrec, hdec]
    -- what is wanted shrinks by what was kept of the piece
    have hleft : (after.accept piece).2.remaining =
        b.reading.remaining - (piece.take b.reading.remaining).length := by
      rw [← hremaining]
      simp only [Reading.accept, Reading.remaining]
      omega
    have hkept : (after.accept piece).1 = piece.take b.reading.remaining := by
      rw [Reading.accept, hremaining]
    rw [hleft] at hbytes hle
    have hrest' : (after.accept piece).2.rest = after.rest := rfl
    rw [hrest'] at hbytes hle
    refine ⟨?_, ?_⟩
    · rw [hbytes, hkept, hrest, take_accept, List.append_assoc]
    · rw [hrest, List.length_append]
      rw [List.length_take] at hle
      omega

/-- At the start everything is missing. -/
theorem Reading.remaining_begin (timeout : Span) (declared start : Nat) (body : Schedule) :
    (Reading.begin timeout declared start body).remaining = declared := Nat.sub_zero declared

/-- A loop that could be started stands at the beginning of the body, with an empty buffer, and
running it is what reading the body means. -/
theorem startBuffering_ok {timeout : Span} {declared start : Nat} {body : Schedule} {b : Buffering}
    (h : startBuffering timeout declared start body = .ok b) :
    b = ⟨Reading.begin timeout declared start body, []⟩ ∧
      readBody timeout declared start body = b.run := by
  have hrun : readBody timeout declared start body = b.run := by rw [readBody, h]
  refine ⟨?_, hrun⟩
  rw [startBuffering] at h
  split at h
  · exact (Except.ok.inj h).symm
  · exact absurd h (by simp)

/-- A body that was read in full gives exactly the first bytes of its data, as many as were
declared.  That there were so many is part of having been read in full. -/
theorem readBody_bytes {timeout : Span} {declared start : Nat} {body : Schedule} {bytes : Bytes}
    {reading : Reading} (h : readBody timeout declared start body = (.ok bytes, reading)) :
    bytes = (Schedule.bytes body).take declared ∧ bytes.length = declared := by
  cases hs : startBuffering timeout declared start body with
  | error stop =>
    rw [readBody, hs, Prod.mk.injEq] at h
    exact absurd h.1 (by simp)
  | ok b =>
    obtain ⟨hb, hrun⟩ := startBuffering_ok hs
    rw [hrun] at h
    obtain ⟨hbytes, hle⟩ := Buffering.run_bytes b h
    rw [hb, Reading.remaining_begin] at hbytes hle
    have hbytes' : bytes = (Schedule.bytes body).take declared := hbytes
    have hle' : declared ≤ (Schedule.bytes body).length := hle
    refine ⟨hbytes', ?_⟩
    rw [hbytes', List.length_take]
    omega

/-! ## The time that reading takes

A wait gives up when the time for the whole body is over, so a reading never gets behind that.  All
the deadlines that it computes are therefore below a bound that is known when it starts, and where
none of them is out of reach, the clock does not show in what is read.
-/

/-- All deadlines that a body may need can be represented: the one for the whole body, and those of
all waits that begin before it is over. -/
structure DeadlinesFit (timeout : Span) (declared start : Nat) : Prop where
  whole : representable (Span.ofMillis start + allowance timeout declared) = true
  each : ∀ elapsed, elapsed ≤ (allowance timeout declared).ceilMillis →
    representable (Span.ofMillis start + (Span.ofMillis elapsed + timeout)) = true

/-- Rounding up to whole milliseconds keeps the order. -/
theorem Span.ceilMillis_le {a b : Span} (h : a.nanos ≤ b.nanos) : a.ceilMillis ≤ b.ceilMillis := by
  rw [Span.ceilMillis, Span.ceilMillis]
  exact Nat.div_le_div_right (Nat.add_le_add_right h _)

/-- What is earlier than an instant that can be represented can be represented. -/
theorem representable_of_le {a b : Span} (h : a.nanos ≤ b.nanos) (hb : representable b = true) :
    representable a = true := by
  unfold representable Span.seconds at hb ⊢
  rw [decide_eq_true_eq] at hb ⊢
  exact Nat.le_trans (Nat.div_le_div_right h) hb

/-- A longer body has more time.  The division rounds down, so a few bytes more may make no
difference. -/
theorem allowance_le {timeout : Span} {n m : Nat} (h : n ≤ m) :
    (allowance timeout n).nanos ≤ (allowance timeout m).nanos := by
  show timeout.nanos + Span.nanosPerSecond * (n / minBytesPerSecond) ≤
    timeout.nanos + Span.nanosPerSecond * (m / minBytesPerSecond)
  exact Nat.add_le_add_left (Nat.mul_le_mul_left _ (Nat.div_le_div_right h)) _

/-- Shorter bodies that are read earlier have deadlines that fit all the more, since each of these
deadlines is before one of the others. -/
theorem DeadlinesFit.mono {timeout : Span} {declared declared' start start' : Nat}
    (h : DeadlinesFit timeout declared start) (hd : declared' ≤ declared) (hs : start' ≤ start) :
    DeadlinesFit timeout declared' start' := by
  have hstart : (Span.ofMillis start').nanos ≤ (Span.ofMillis start).nanos := Nat.mul_le_mul_left _ hs
  constructor
  · exact representable_of_le (Nat.add_le_add hstart (allowance_le hd)) h.whole
  · intro elapsed he
    have he' := Nat.le_trans he (Span.ceilMillis_le (allowance_le hd))
    exact representable_of_le (Nat.add_le_add_right hstart _) (h.each elapsed he')

/-- Rounding up does not shorten. -/
theorem Span.le_ofMillis_ceilMillis (t : Span) : t.nanos ≤ (Span.ofMillis t.ceilMillis).nanos := by
  show t.nanos ≤ Span.nanosPerMilli * ((t.nanos + (Span.nanosPerMilli - 1)) / Span.nanosPerMilli)
  unfold Span.nanosPerMilli
  omega

/-- The last deadline decides: that of a wait which begins when the time for the whole body is just
over.  All others are earlier. -/
theorem DeadlinesFit.of_last {timeout : Span} {declared start : Nat}
    (h : representable (Span.ofMillis start +
      (Span.ofMillis (allowance timeout declared).ceilMillis + timeout)) = true) :
    DeadlinesFit timeout declared start := by
  constructor
  · refine representable_of_le (Nat.add_le_add_left ?_ _) h
    exact Nat.le_trans (Span.le_ofMillis_ceilMillis _) (Nat.le_add_right _ _)
  · intro elapsed he
    refine representable_of_le (Nat.add_le_add_left (Nat.add_le_add_right ?_ _) _) h
    exact Nat.mul_le_mul_left _ he

/-- The same reading at a later or earlier time of day.  Elapsed time is counted from the start, so
nothing else changes. -/
def Reading.restart (r : Reading) (start : Nat) : Reading := { r with start := start }

/-- What a wait ends with, at another time of day. -/
def Arrival.restart (start : Nat) : Arrival → Arrival
  | .piece bytes after => .piece bytes (after.restart start)
  | .failed fault after => .failed fault (after.restart start)
  | .overflow => .overflow

/-- `r'` is a later state of the reading `r`, and the time for the whole body is not over. -/
structure Reading.Continues (r r' : Reading) : Prop where
  timeout : r'.timeout = r.timeout
  declared : r'.declared = r.declared
  start : r'.start = r.start
  elapsed : r'.elapsed ≤ (allowance r.timeout r.declared).ceilMillis

/-- Going on twice is going on; the bound does not move, because neither timeout nor length does. -/
theorem Reading.Continues.trans {r r' r'' : Reading} (h : r.Continues r') (h' : r'.Continues r'') :
    r.Continues r'' := by
  obtain ⟨ht, hd, hs, he⟩ := h'
  rw [h.timeout, h.declared] at he
  exact ⟨ht.trans h.timeout, hd.trans h.declared, hs.trans h.start, he⟩

/-- No wait lasts beyond the time for the whole body: a wait expires at its own deadline or at that
of the body, whichever is earlier. -/
theorem Reading.expiry_le (r : Reading) :
    r.expiry ≤ (allowance r.timeout r.declared).ceilMillis := by
  show r.expiry ≤ r.deadline.ceilMillis
  rw [expiry]
  split
  · exact Nat.le_refl _
  · exact Span.ceilMillis_le (by omega)

/-- A reading whose deadlines can be represented, so far within its time: this is what each wait
needs to go well, and what it hands on to the next one. -/
structure Reading.Timely (r : Reading) : Prop where
  fit : DeadlinesFit r.timeout r.declared r.start
  elapsed : r.elapsed ≤ (allowance r.timeout r.declared).ceilMillis

/-- The deadline of the next wait can be computed, because the wait begins within the time for the
whole body. -/
theorem Reading.Timely.reaches_wait {r : Reading} (h : r.Timely) :
    r.reaches r.waitDeadline = true := h.fit.each r.elapsed h.elapsed

/-- A later state of a timely reading is timely. -/
theorem Reading.Timely.continues {r r' : Reading} (h : r.Timely) (hc : r.Continues r') :
    r'.Timely := by
  obtain ⟨ht, hd, hs, he⟩ := hc
  refine ⟨?_, ?_⟩
  · rw [ht, hd, hs]; exact h.fit
  · rw [ht, hd]; exact he

/-- A wait of a timely reading ends, within the time for the whole body; it does not break down. -/
def Arrival.Within (r : Reading) : Arrival → Prop
  | .piece _ after => r.Continues after
  | .failed _ after => r.Continues after
  | .overflow => False

/-- By induction on the schedule, since empty pieces make the same wait begin anew. -/
theorem awaitFrom_within :
    ∀ (rest : Schedule) (r : Reading), r.Timely → (awaitFrom r rest).Within r
  | [], r, hr => by
    rw [awaitFrom, if_neg (by simp [hr.reaches_wait])]
    exact ⟨rfl, rfl, rfl, hr.elapsed⟩
  | c :: rest, r, hr => by
    have hgave : r.Continues r.gaveUp := ⟨rfl, rfl, rfl, r.expiry_le⟩
    rw [awaitFrom, if_neg (by simp [hr.reaches_wait])]
    split
    · exact hgave
    · rename_i ready _
      split
      · exact hgave
      · rename_i hready
        -- the chunk was there before the wait expired, so it was there in time
        have hle : ready ≤ (allowance r.timeout r.declared).ceilMillis := by
          have := r.expiry_le
          omega
        have htook : r.Continues (r.took ready rest) := ⟨rfl, rfl, rfl, hle⟩
        split
        · -- an empty piece: the same wait goes on with a fresh deadline of its own
          have ih := awaitFrom_within rest (r.took ready rest) (hr.continues htook)
          cases ha : awaitFrom (r.took ready rest) rest with
          | piece bytes after => rw [ha] at ih; exact htook.trans ih
          | failed fault after => rw [ha] at ih; exact htook.trans ih
          | overflow => rw [ha] at ih; exact ih
        · exact htook
        · exact htook
        · exact hgave
        · exact ⟨rfl, rfl, rfl, hle⟩

/-- A wait ends in the same way at any other time of day for which all deadlines can be computed.
Deadlines are compared with elapsed time only, so the two waits go through the same cases. -/
theorem awaitFrom_restart (start : Nat) :
    ∀ (rest : Schedule) (r : Reading), r.Timely → DeadlinesFit r.timeout r.declared start →
      awaitFrom (r.restart start) rest = (awaitFrom r rest).restart start
  | [], r, hr, hs => by
    have hr' : (r.restart start).Timely := ⟨hs, hr.elapsed⟩
    rw [awaitFrom, if_neg (by simp [hr'.reaches_wait]), awaitFrom,
      if_neg (by simp [hr.reaches_wait])]
    rfl
  | c :: rest, r, hr, hs => by
    have hr' : (r.restart start).Timely := ⟨hs, hr.elapsed⟩
    rw [awaitFrom, if_neg (by simp [hr'.reaches_wait]), awaitFrom,
      if_neg (by simp [hr.reaches_wait])]
    -- neither the elapsed time nor the moment of expiry depends on the start
    have helapsed : (r.restart start).elapsed = r.elapsed := rfl
    have hexpiry : (r.restart start).expiry = r.expiry := rfl
    rw [helapsed, hexpiry]
    cases c.readyAt r.elapsed with
    | none => rfl
    | some ready =>
      by_cases hlt : r.expiry < ready
      · simp only [if_pos hlt]
        rfl
      · simp only [if_neg hlt]
        cases hi : c.item with
        | data bytes =>
          cases bytes with
          | nil =>
            have hle : ready ≤ (allowance r.timeout r.declared).ceilMillis := by
              have := r.expiry_le
              omega
            have htook : r.Continues (r.took ready rest) := ⟨rfl, rfl, rfl, hle⟩
            exact awaitFrom_restart start rest (r.took ready rest) (hr.continues htook) hs
          | cons b bytes => rfl
        | fail reason => rfl
        | hang => rfl
        | finish => rfl

/-- Taking a piece costs no time. -/
theorem Reading.continues_accept {r after : Reading} (h : r.Continues after) (bytes : Bytes) :
    r.Continues (after.accept bytes).2 := ⟨h.timeout, h.declared, h.start, h.elapsed⟩

namespace Buffering

/-- The same loop at another time of day. -/
def restart (b : Buffering) (start : Nat) : Buffering := ⟨b.reading.restart start, b.buffer⟩

/-- A turn of a timely loop does not break down and stays within its time.  A turn is at most one
wait. -/
theorem step_within {b : Buffering} (hb : b.reading.Timely) :
    (∃ b', b.step = .again b' ∧ b.reading.Continues b'.reading) ∨
      ∃ result reading, b.step = .done result reading ∧ result ≠ .error .overflow ∧
        b.reading.Continues reading := by
  have hself : b.reading.Continues b.reading := ⟨rfl, rfl, rfl, hb.elapsed⟩
  have ha : (b.reading.await).Within b.reading := awaitFrom_within b.reading.rest b.reading hb
  rw [step]
  split
  · exact Or.inr ⟨_, _, rfl, by simp, hself⟩
  · split
    · rename_i hov
      rw [hov] at ha
      exact ha.elim
    · rename_i fault after hf
      rw [hf] at ha
      exact Or.inr ⟨_, _, rfl, by simp, ha⟩
    · rename_i bytes after hp
      rw [hp] at ha
      exact Or.inl ⟨_, rfl, Reading.continues_accept ha bytes⟩

/-- A turn does the same at another time of day, up to the time of day itself. -/
theorem step_restart {b : Buffering} (start : Nat) (hb : b.reading.Timely)
    (hs : DeadlinesFit b.reading.timeout b.reading.declared start) :
    (b.restart start).step =
      match b.step with
      | .again b' => .again (b'.restart start)
      | .done result reading => .done result (reading.restart start) := by
  have ha : (b.restart start).reading.await = (b.reading.await).restart start :=
    awaitFrom_restart start b.reading.rest b.reading hb hs
  have hrem : (b.restart start).reading.remaining = b.reading.remaining := rfl
  rw [step, step, ha, hrem]
  by_cases h0 : b.reading.remaining = 0
  · simp only [if_pos h0]
    rfl
  · simp only [if_neg h0]
    cases b.reading.await <;> rfl

/-- A timely loop comes to an end within its time, and does so at any time of day.  Both are proved
together, because the loop that is restarted is compared turn by turn with the one that is timely.
-/
theorem run_within (start : Nat) (b : Buffering) (hb : b.reading.Timely)
    (hs : DeadlinesFit b.reading.timeout b.reading.declared start) :
    b.run.1 ≠ .error .overflow ∧ b.reading.Continues b.run.2 ∧
      (b.restart start).run = (b.run.1, b.run.2.restart start) := by
  have hrestart := step_restart start hb hs
  fun_induction Buffering.run b with
  | case1 b result reading hstep =>
    rw [hstep] at hrestart
    rcases step_within hb with ⟨b', h, -⟩ | ⟨result', reading', h, hne, hc⟩
    · rw [hstep] at h
      simp at h
    · rw [hstep, Turn.done.injEq] at h
      obtain ⟨rfl, rfl⟩ := h
      exact ⟨hne, hc, run_of_done hrestart⟩
  | case2 b b' hstep ih =>
    rw [hstep] at hrestart
    rcases step_within hb with ⟨b'', h, hc⟩ | ⟨result', reading', h, -, -⟩
    · rw [hstep, Turn.again.injEq] at h
      subst h
      have hs' : DeadlinesFit b'.reading.timeout b'.reading.declared start := by
        rw [hc.timeout, hc.declared]
        exact hs
      obtain ⟨hne, hc', hrun⟩ :=
        ih (hb.continues hc) hs' (step_restart start (hb.continues hc) hs')
      exact ⟨hne, hc.trans hc', (run_of_again hrestart).trans hrun⟩
    · rw [hstep] at h
      simp at h

end Buffering

section

variable {timeout : Span} {declared start : Nat}

/-- Where all deadlines fit, that for the whole body can be computed, so the loop is started. -/
theorem DeadlinesFit.startBuffering_eq (h : DeadlinesFit timeout declared start)
    (body : Schedule) :
    startBuffering timeout declared start body =
      .ok ⟨Reading.begin timeout declared start body, []⟩ := by
  rw [startBuffering]
  exact if_pos h.whole

/-- And it is timely when it starts, since no time has passed. -/
theorem DeadlinesFit.timely_begin (h : DeadlinesFit timeout declared start) (body : Schedule) :
    (Reading.begin timeout declared start body).Timely := ⟨h, Nat.zero_le _⟩

/-- A body whose deadlines can be represented is read, well or not, within its time.  Whatever else
goes wrong, reading does not break down. -/
theorem readBody_timely (h : DeadlinesFit timeout declared start) (body : Schedule) :
    (readBody timeout declared start body).1 ≠ .error .overflow ∧
      (Reading.begin timeout declared start body).Continues
        (readBody timeout declared start body).2 := by
  obtain ⟨-, hrun⟩ := startBuffering_ok (h.startBuffering_eq body)
  rw [hrun]
  obtain ⟨hne, hc, -⟩ := Buffering.run_within start
    ⟨Reading.begin timeout declared start body, []⟩ (h.timely_begin body) h
  exact ⟨hne, hc⟩

/-- When a body is read does not matter for what is read.  This is what makes an upload comparable
with the same upload that is handled on its own, at another moment. -/
theorem readBody_restart {start' : Nat} (h : DeadlinesFit timeout declared start)
    (h' : DeadlinesFit timeout declared start') (body : Schedule) :
    readBody timeout declared start' body =
      ((readBody timeout declared start body).1,
        (readBody timeout declared start body).2.restart start') := by
  obtain ⟨-, hrun⟩ := startBuffering_ok (h.startBuffering_eq body)
  obtain ⟨-, hrun'⟩ := startBuffering_ok (h'.startBuffering_eq body)
  rw [hrun, hrun']
  exact (Buffering.run_within start' ⟨Reading.begin timeout declared start body, []⟩
    (h.timely_begin body) h').2.2

end

end LiveIngest.Body
