import LiveIngest.Proofs.Arriving

/-!
# What collecting takes from a body

A sender may cut a body anywhere, put empty pieces in between, break off and come to an end early.
None of this shows in what is collected, except through one list of bytes and one number.

1. **Specification.**  `Schedule.supply` is the data in front of the first failure or end, and
   `Schedule.fault?` says which of the two stands there.  A reader that wants `n` bytes asks for
   `Schedule.asked n` and no more; `OnTime` says that all of this, asked for one item after another,
   is there before its deadline, and nothing about what comes later.

2. **The list of items.**  If the supply suffices, what is asked for is the shortest beginning of the
   body with enough data (`asked_shortest`), and whatever is put behind it, the same is asked for
   (`asked_append`).

3. **The loop.**  One induction on the schedule, with one case for each kind of item, follows the loop
   from any state to its end (`Buffering.run_onTime`).  An empty piece does not end the wait inside a
   turn, so there a whole run is compared with a run that starts later (`Buffering.run_eq_of_await`).

`readBody_exact` is the main result.
-/

namespace LiveIngest.Body

namespace Schedule

/-! ## What a reader asks for -/

/-- The data in front of the first failure or end. -/
def supply : Schedule → Bytes
  | [] => []
  | c :: rest =>
    match c.item with
    | .data bytes => bytes ++ supply rest
    | _ => []

/-- The reason of the first failure, if it stands in front of every end. -/
def fault? : Schedule → Option String
  | [] => none
  | c :: rest =>
    match c.item with
    | .data _ => fault? rest
    | .fail reason => some reason
    | _ => none

/-- The items that a reader asks for that wants `n` bytes: pieces until it has them, or everything up
to the first failure or end.  Behind the last item stands the end. -/
def asked : Nat → Schedule → Schedule
  | 0, _ => []
  | _ + 1, [] => [⟨0, .finish⟩]
  | n + 1, c :: rest =>
    match c.item with
    | .data bytes => c :: asked (n + 1 - bytes.length) rest
    | _ => [c]

/-- The milliseconds until the last item is there. -/
def duration : Schedule → Nat
  | [] => 0
  | c :: rest => c.wait + duration rest

section

variable {n : Nat} {c : Chunk} {rest : Schedule} {bytes : Bytes}

/-- These read the lists off an item at a time, first of a piece.  They are about a piece that is
known by its item only, since that is what the cases of the induction leave. -/
theorem supply_data (hc : c.item = .data bytes) : supply (c :: rest) = bytes ++ supply rest := by
  rw [supply, hc]

/-- A piece does not hide a failure that comes later. -/
theorem fault?_data (hc : c.item = .data bytes) : fault? (c :: rest) = fault? rest := by
  rw [fault?, hc]

/-- All data of a body, whether in front of a failure or behind it. -/
theorem bytes_data (hc : c.item = .data bytes) :
    Schedule.bytes (c :: rest) = bytes ++ Schedule.bytes rest := by
  rw [Schedule.bytes, List.flatMap_cons, Chunk.bytes, hc]
  rfl

/-- An empty piece leaves as much to ask for as before. -/
theorem asked_data (hn : n ≠ 0) (hc : c.item = .data bytes) :
    asked n (c :: rest) = c :: asked (n - bytes.length) rest := by
  obtain ⟨m, rfl⟩ := Nat.exists_eq_succ_of_ne_zero hn
  rw [asked, hc]

/-- A reader that wants nothing asks for nothing. -/
theorem asked_zero (body : Schedule) : asked 0 body = [] := by
  cases body <;> rfl

/-- Asking for more than there is finds the end, at once. -/
theorem asked_nil (hn : n ≠ 0) : asked n [] = [⟨0, .finish⟩] := by
  obtain ⟨m, rfl⟩ := Nat.exists_eq_succ_of_ne_zero hn
  rfl

/-- A failure, an end or a connection that hangs is the last thing asked for. -/
theorem asked_other (hn : n ≠ 0) (hc : ∀ bytes, c.item ≠ .data bytes) :
    asked n (c :: rest) = [c] := by
  obtain ⟨m, rfl⟩ := Nat.exists_eq_succ_of_ne_zero hn
  rw [asked]
  split
  · rename_i bytes h
    exact absurd h (hc bytes)
  · rfl

/-- Where there are data to come, a piece comes first. -/
theorem data_of_supply (h : 0 < (supply (c :: rest)).length) : ∃ bytes, c.item = .data bytes := by
  rw [supply] at h
  split at h
  · rename_i bytes hc
    exact ⟨bytes, hc⟩
  · simp at h

/-- There are no data from there on. -/
theorem supply_other (hc : ∀ bytes, c.item ≠ .data bytes) : supply (c :: rest) = [] := by
  rw [supply]
  split
  · rename_i bytes h
    exact absurd h (hc bytes)
  · rfl

end

/-- If there are enough data, what is asked for begins the body and has them, and no shorter
beginning has. -/
theorem asked_shortest {n : Nat} {body : Schedule} (h : n ≤ body.supply.length) :
    asked n body <+: body ∧ n ≤ (Schedule.bytes (asked n body)).length ∧
      ∀ fewer, fewer <+: body → n ≤ (Schedule.bytes fewer).length →
        (asked n body).length ≤ fewer.length := by
  -- each piece that both begin with is taken off, and leaves fewer bytes to look for
  induction body generalizing n with
  | nil =>
    obtain rfl : n = 0 := Nat.le_zero.mp h
    exact ⟨List.nil_prefix, Nat.zero_le _, fun _ _ _ => Nat.zero_le _⟩
  | cons c rest ih =>
    by_cases hn : n = 0
    · subst hn
      exact ⟨List.nil_prefix, Nat.zero_le _, fun _ _ _ => Nat.zero_le _⟩
    · obtain ⟨bytes, hc⟩ := data_of_supply (Nat.lt_of_lt_of_le (Nat.pos_of_ne_zero hn) h)
      rw [supply_data hc, List.length_append] at h
      obtain ⟨hpre, henough, hleast⟩ := @ih (n - bytes.length) (by omega)
      rw [asked_data hn hc, bytes_data hc, List.length_append]
      refine ⟨List.cons_prefix_cons.mpr ⟨rfl, hpre⟩, by omega, ?_⟩
      intro fewer hfewer hfew
      cases fewer with
      | nil =>
        rw [Schedule.bytes, List.flatMap_nil, List.length_nil] at hfew
        omega
      | cons d fewer =>
        obtain ⟨rfl, hbehind⟩ := List.cons_prefix_cons.mp hfewer
        rw [bytes_data hc, List.length_append] at hfew
        have := hleast fewer hbehind (by omega)
        simp only [List.length_cons]
        omega

/-- If there are enough data, neither what is asked for nor the data depend on what stands behind. -/
theorem asked_append {n : Nat} {body : Schedule} (h : n ≤ body.supply.length) (after : Schedule) :
    asked n (asked n body ++ after) = asked n body ∧
      n ≤ (supply (asked n body ++ after)).length ∧
      (supply (asked n body ++ after)).take n = body.supply.take n := by
  induction body generalizing n with
  | nil =>
    obtain rfl : n = 0 := Nat.le_zero.mp h
    exact ⟨asked_zero _, Nat.zero_le _, by simp⟩
  | cons c rest ih =>
    by_cases hn : n = 0
    · subst hn
      exact ⟨asked_zero _, Nat.zero_le _, by simp⟩
    · obtain ⟨bytes, hc⟩ := data_of_supply (Nat.lt_of_lt_of_le (Nat.pos_of_ne_zero hn) h)
      rw [supply_data hc, List.length_append] at h
      obtain ⟨hasked, henough, htake⟩ := @ih (n - bytes.length) (by omega)
      rw [asked_data hn hc, List.cons_append, asked_data hn hc, hasked, supply_data hc, supply_data hc,
        List.length_append, List.take_append, List.take_append, htake]
      exact ⟨rfl, by omega, rfl⟩

end Schedule

/-! ## In time -/

/-- Asked for one after another from the given millisecond on, all items are there in time: each wait
has a deadline that can be represented and is over when the item is there, and so is not the time for
the whole body. -/
def Punctual (timeout : Span) (declared start : Nat) : Nat → Schedule → Prop
  | _, [] => True
  | elapsed, c :: rest =>
    representable (Span.ofMillis start + (Span.ofMillis elapsed + timeout)) = true ∧
      c.item ≠ .hang ∧ c.wait ≤ timeout.ceilMillis ∧
      elapsed + c.wait ≤ (allowance timeout declared).ceilMillis ∧
      Punctual timeout declared start (elapsed + c.wait) rest

/-- For a body that is given, this is computed item by item. -/
instance decidablePunctual (timeout : Span) (declared start : Nat) :
    ∀ elapsed items, Decidable (Punctual timeout declared start elapsed items)
  | _, [] => isTrue trivial
  | elapsed, c :: rest =>
    have := decidablePunctual timeout declared start (elapsed + c.wait) rest
    inferInstanceAs (Decidable (_ ∧ _ ∧ _ ∧ _ ∧ _))

/-- A body meets the deadlines of its reading: that of the whole body can be represented, and all
that is asked for is there in time. -/
structure OnTime (timeout : Span) (declared start : Nat) (body : Schedule) : Prop where
  deadline : representable (Span.ofMillis start + allowance timeout declared) = true
  waits : Punctual timeout declared start 0 (body.asked declared)

/-! ## Following the loop -/

namespace Reading

/-- What is asked for by a reading in progress is there in time. -/
def Meets (r : Reading) : Prop :=
  Punctual r.timeout r.declared r.start r.elapsed (r.rest.asked r.remaining)

/-- The reading after it received what it still wanted. -/
def satisfied (r : Reading) : Reading :=
  { r with
    elapsed := r.elapsed + (r.rest.asked r.remaining).duration
    received := r.received + r.remaining
    taken := r.taken + (r.rest.asked r.remaining).length
    rest := r.rest.drop (r.rest.asked r.remaining).length }

variable {r : Reading} {c : Chunk} {rest : Schedule}

/-- The next item is there before the wait for it is over.  A wait is over with the read timeout or
with the time for the whole body, so there are two bounds. -/
theorem ready_le_expiry (hwait : c.wait ≤ r.timeout.ceilMillis)
    (hwhole : r.elapsed + c.wait ≤ (allowance r.timeout r.declared).ceilMillis) :
    r.elapsed + c.wait ≤ r.expiry := by
  rw [expiry]
  split
  · exact hwhole
  · rw [waitDeadline, Span.ceilMillis_ofMillis_add]
    omega

/-- A wait takes the next item if that is there in time. -/
theorem awaitFrom_cons (hreach : r.reaches r.waitDeadline = true) (hitem : c.item ≠ .hang)
    (hready : r.elapsed + c.wait ≤ r.expiry) :
    awaitFrom r (c :: rest) =
      match c.item with
      | .data [] => awaitFrom (r.took (r.elapsed + c.wait) rest) rest
      | .data (b :: bytes) => .piece (b :: bytes) (r.took (r.elapsed + c.wait) rest)
      | .fail reason =>
        .failed (.truncated r.received r.declared (some reason)) (r.took (r.elapsed + c.wait) rest)
      | .hang => .failed r.timeoutFault r.gaveUp
      | .finish => .failed (.truncated r.received r.declared none) (r.ended (r.elapsed + c.wait)) := by
  have hat : c.readyAt r.elapsed = some (r.elapsed + c.wait) := by
    unfold Chunk.readyAt
    split
    · rename_i h
      exact absurd h hitem
    · rfl
  rw [awaitFrom, if_neg (by simp [hreach]), hat]
  exact if_neg (by omega)

end Reading

namespace Buffering

/-- Two loops that wait for the same come to the same, as long as the wait does not break down. -/
theorem run_eq_of_await {b b' : Buffering} (hremaining : b.reading.remaining ≠ 0)
    (hremaining' : b'.reading.remaining ≠ 0) (hbuffer : b.buffer = b'.buffer)
    (hawait : b.reading.await = b'.reading.await) (h : b'.run.1 ≠ .error .overflow) :
    b.run = b'.run := by
  have hstep : b.step = b'.step := by
    rw [step, step, if_neg hremaining, if_neg hremaining', hawait, hbuffer]
    cases ha : b'.reading.await with
    | overflow =>
      have hdone : b'.step = .done (.error .overflow) b'.reading := by
        rw [step, if_neg hremaining', ha]
      rw [run_of_done hdone] at h
      exact absurd rfl h
    | piece bytes after => rfl
    | failed fault after => rfl
  cases hb : b'.step with
  | again b'' => rw [run_of_again (hstep.trans hb), run_of_again hb]
  | done result reading => rw [run_of_done (hstep.trans hb), run_of_done hb]

/-- The loop ends once it has everything, without waiting. -/
theorem run_of_remaining_zero {b : Buffering} (h : b.reading.remaining = 0) :
    b.run = (.ok b.buffer, b.reading) :=
  run_of_done (by rw [step, if_pos h])

/-- The loop ends with the failure that a wait ends with. -/
theorem run_of_failed {b : Buffering} {fault : BodyFault} {after : Reading}
    (hremaining : b.reading.remaining ≠ 0) (hawait : b.reading.await = .failed fault after) :
    b.run = (.error (.failed (.write (.body fault))), after) :=
  run_of_done (by rw [step, if_neg hremaining, hawait])

/-- What a loop comes to that is never kept waiting: all that it still wanted, or the end of the data. -/
structure Ends (b : Buffering) (body : Schedule) : Prop where
  enough : b.reading.remaining ≤ body.supply.length →
    b.run = (.ok (b.buffer ++ body.supply.take b.reading.remaining), b.reading.satisfied)
  short : body.supply.length < b.reading.remaining →
    b.run.1 = .error (.failed (.write (.body (.truncated
      (b.reading.received + body.supply.length) b.reading.declared body.fault?))))

variable {b : Buffering} {c : Chunk} {rest : Schedule}

/-- Either way, no deadline was beyond what can be represented. -/
theorem Ends.run_ne_overflow {body : Schedule} (h : b.Ends body) : b.run.1 ≠ .error .overflow := by
  by_cases hle : b.reading.remaining ≤ body.supply.length
  · rw [h.enough hle]
    simp
  · rw [h.short (by omega)]
    simp

/-- Where nothing is wanted any more, nothing of the body matters. -/
theorem ends_of_remaining_zero (hn : b.reading.remaining = 0) (body : Schedule) : b.Ends body := by
  constructor
  · intro _
    rw [run_of_remaining_zero hn, hn]
    simp [Reading.satisfied, hn, Schedule.asked_zero, Schedule.duration]
  · intro h
    omega

/-- Nothing more is there. -/
theorem ends_nil (hn : b.reading.remaining ≠ 0) (hrest : b.reading.rest = [])
    (hreach : b.reading.reaches b.reading.waitDeadline = true) : b.Ends [] := by
  have hawait : b.reading.await =
      .failed (.truncated b.reading.received b.reading.declared none)
        (b.reading.ended b.reading.elapsed) := by
    rw [Reading.await, hrest, awaitFrom, if_neg (by simp [hreach])]
  constructor
  · intro h
    exact absurd (Nat.le_zero.mp h) hn
  · intro _
    rw [run_of_failed hn hawait]
    rfl

/-- The connection breaks, or the body ends. -/
theorem ends_other (hn : b.reading.remaining ≠ 0) (hrest : b.reading.rest = c :: rest)
    (hreach : b.reading.reaches b.reading.waitDeadline = true) (hitem : c.item ≠ .hang)
    (hready : b.reading.elapsed + c.wait ≤ b.reading.expiry) (hc : ∀ bytes, c.item ≠ .data bytes) :
    b.Ends (c :: rest) := by
  have hsupply : Schedule.supply (c :: rest) = [] := Schedule.supply_other hc
  obtain ⟨after, hawait⟩ : ∃ after, b.reading.await =
      .failed (.truncated b.reading.received b.reading.declared (Schedule.fault? (c :: rest)))
        after := by
    rw [Reading.await, hrest, Reading.awaitFrom_cons hreach hitem hready, Schedule.fault?]
    cases hi : c.item with
    | data bytes => exact absurd hi (hc bytes)
    | fail reason => exact ⟨_, rfl⟩
    | hang => exact absurd hi hitem
    | finish => exact ⟨_, rfl⟩
  constructor
  · intro h
    rw [hsupply] at h
    exact absurd (Nat.le_zero.mp h) hn
  · intro _
    rw [run_of_failed hn hawait, hsupply]
    rfl

/-- The loop after a piece was taken and what counts of it was kept. -/
def next (b : Buffering) (c : Chunk) (bytes : Bytes) (rest : Schedule) : Buffering :=
  ⟨((b.reading.took (b.reading.elapsed + c.wait) rest).accept bytes).2,
    b.buffer ++ bytes.take b.reading.remaining⟩

/-- A piece leaves less to read, and nothing if it is longer than what was left. -/
theorem remaining_next (b : Buffering) (c : Chunk) (bytes : Bytes) (rest : Schedule) :
    (b.next c bytes rest).reading.remaining = b.reading.remaining - bytes.length := by
  simp only [next, Reading.accept, Reading.remaining, Reading.took, List.length_take]
  omega

/-- It comes to the same whether the loop or the loop after a piece is run.  With an empty piece the
loop is still in the same turn, so there the two are not linked by a step. -/
theorem run_next {bytes : Bytes} (hn : b.reading.remaining ≠ 0) (hrest : b.reading.rest = c :: rest)
    (hc : c.item = .data bytes) (hreach : b.reading.reaches b.reading.waitDeadline = true)
    (hready : b.reading.elapsed + c.wait ≤ b.reading.expiry)
    (h : (b.next c bytes rest).run.1 ≠ .error .overflow) : b.run = (b.next c bytes rest).run := by
  have hawait : b.reading.await = _ :=
    (congrArg _ hrest).trans (Reading.awaitFrom_cons hreach (by simp [hc]) hready)
  rw [hc] at hawait
  cases bytes with
  | nil =>
    have hsame : b.next c [] rest = ⟨b.reading.took (b.reading.elapsed + c.wait) rest, b.buffer⟩ := by
      simp [next, Reading.accept, Reading.took]
    rw [hsame] at h ⊢
    exact run_eq_of_await hn hn rfl hawait h
  | cons x xs => exact run_of_again (by rw [step, if_neg hn, hawait]; rfl)

/-- The loop after a piece comes to the same state in the end. -/
theorem satisfied_next {bytes : Bytes} (hn : b.reading.remaining ≠ 0)
    (hrest : b.reading.rest = c :: rest) (hc : c.item = .data bytes) :
    (b.next c bytes rest).reading.satisfied = b.reading.satisfied := by
  have hreceived : b.reading.received + (bytes.take b.reading.remaining).length +
      (b.reading.remaining - bytes.length) = b.reading.received + b.reading.remaining := by
    rw [List.length_take]
    omega
  simp only [Reading.satisfied, remaining_next, hrest, Schedule.asked_data hn hc, Schedule.duration,
    List.length_cons, List.drop_succ_cons, ← hreceived]
  simp only [next, Reading.accept, Reading.took]
  congr 1 <;> omega

/-- A piece is taken, and the loop goes on. -/
theorem Ends.piece {bytes : Bytes} (hn : b.reading.remaining ≠ 0)
    (hrest : b.reading.rest = c :: rest) (hc : c.item = .data bytes)
    (hreach : b.reading.reaches b.reading.waitDeadline = true)
    (hready : b.reading.elapsed + c.wait ≤ b.reading.expiry)
    (h : (b.next c bytes rest).Ends rest) : b.Ends (c :: rest) := by
  have hrun := run_next hn hrest hc hreach hready h.run_ne_overflow
  have hleft := remaining_next b c bytes rest
  have hsupply : Schedule.supply (c :: rest) = bytes ++ Schedule.supply rest := Schedule.supply_data hc
  constructor
  · intro hle
    rw [hsupply, List.length_append] at hle
    rw [hrun, h.enough (by omega), satisfied_next hn hrest hc, hsupply, hleft, List.take_append]
    simp only [next, List.append_assoc]
  · intro hlt
    rw [hsupply, List.length_append] at hlt
    -- the whole piece counts, since even all data are too few
    have hreceived : (b.next c bytes rest).reading.received = b.reading.received + bytes.length := by
      show b.reading.received + (bytes.take b.reading.remaining).length = _
      rw [List.length_take]
      omega
    rw [hrun, h.short (by omega), hreceived, hsupply, List.length_append, Nat.add_assoc,
      Schedule.fault?_data hc]
    rfl

/-- What the loop comes to from a state in which all that it asks for is there in time. -/
theorem ends_of_meets :
    ∀ (body : Schedule) (b : Buffering), b.reading.rest = body → b.reading.Meets → b.Ends body := by
  intro body
  induction body with
  | nil =>
    intro b hrest hmeets
    by_cases hn : b.reading.remaining = 0
    · exact ends_of_remaining_zero hn []
    · rw [Reading.Meets, hrest, Schedule.asked_nil hn] at hmeets
      exact ends_nil hn hrest hmeets.1
  | cons c rest ih =>
    intro b hrest hmeets
    by_cases hn : b.reading.remaining = 0
    · exact ends_of_remaining_zero hn _
    · rw [Reading.Meets, hrest] at hmeets
      -- a piece leads on to the rest, anything else ends the loop
      by_cases hdata : ∃ bytes, c.item = .data bytes
      · obtain ⟨bytes, hc⟩ := hdata
        rw [Schedule.asked_data hn hc] at hmeets
        obtain ⟨hreach, -, hwait, hwhole, hlater⟩ := hmeets
        refine Ends.piece hn hrest hc hreach (Reading.ready_le_expiry hwait hwhole) (ih _ rfl ?_)
        rw [Reading.Meets, remaining_next]
        exact hlater
      · have hother : ∀ bytes, c.item ≠ .data bytes := fun bytes hc => hdata ⟨bytes, hc⟩
        rw [Schedule.asked_other hn hother] at hmeets
        obtain ⟨hreach, hitem, hwait, hwhole, -⟩ := hmeets
        exact ends_other hn hrest hreach hitem (Reading.ready_le_expiry hwait hwhole) hother

end Buffering

/-! ## Collecting a body -/

section

variable {timeout : Span} {declared start : Nat} {body : Schedule}

/-- So a body in time is read as the loop runs from its very beginning. -/
theorem OnTime.ends (h : OnTime timeout declared start body) :
    ∃ b : Buffering, b.reading = Reading.begin timeout declared start body ∧ b.buffer = [] ∧
      b.Ends body ∧ readBody timeout declared start body = b.run := by
  have hstart : startBuffering timeout declared start body =
      .ok ⟨Reading.begin timeout declared start body, []⟩ := if_pos h.deadline
  exact ⟨⟨Reading.begin timeout declared start body, []⟩, rfl, rfl,
    Buffering.ends_of_meets body ⟨Reading.begin timeout declared start body, []⟩ rfl h.waits,
    (startBuffering_ok hstart).2⟩

/-- A body with enough data is collected, and the reading ends behind what it asked for. -/
theorem OnTime.readBody_enough (h : OnTime timeout declared start body)
    (henough : declared ≤ body.supply.length) :
    readBody timeout declared start body =
      (.ok (body.supply.take declared), (Reading.begin timeout declared start body).satisfied) := by
  obtain ⟨b, hb, hbuffer, hends, hread⟩ := h.ends
  have hn : b.reading.remaining = declared := by rw [hb, Reading.remaining_begin]
  rw [hread, hends.enough (hn ▸ henough), hn, hbuffer, hb, List.nil_append]

/-- A body with too few data is not, and the error counts those that came. -/
theorem OnTime.readBody_short (h : OnTime timeout declared start body)
    (hshort : body.supply.length < declared) :
    (readBody timeout declared start body).1 =
      .error (.failed (.write (.body (.truncated body.supply.length declared body.fault?)))) := by
  obtain ⟨b, hb, -, hends, hread⟩ := h.ends
  have hn : b.reading.remaining = declared := by rw [hb, Reading.remaining_begin]
  rw [hread, hends.short (hn ▸ hshort), hb]
  show _ = Except.error _
  rw [show (Reading.begin timeout declared start body).received = 0 from rfl, Nat.zero_add]
  rfl

/-- What is asked for is in time, whatever stands behind it. -/
theorem OnTime.append (h : OnTime timeout declared start body)
    (henough : declared ≤ body.supply.length) (after : Schedule) :
    OnTime timeout declared start (body.asked declared ++ after) := by
  refine ⟨h.deadline, ?_⟩
  rw [(Schedule.asked_append henough after).1]
  exact h.waits

/-- A body that meets its deadlines is collected exactly if there are enough data in front of the first
failure or end.  Then the bytes are the first ones of the data, and the shortest beginning of the body
that has them was taken; nothing behind it matters.  Otherwise it is truncated, and all the data there
were are counted.  So two bodies with the same data are collected alike, however they are cut. -/
theorem readBody_exact (h : OnTime timeout declared start body) :
    ((∃ bytes, (readBody timeout declared start body).1 = .ok bytes) ↔
      declared ≤ body.supply.length) ∧
    (∀ bytes reading, readBody timeout declared start body = (.ok bytes, reading) →
      bytes = body.supply.take declared ∧
      ∃ items, body = items ++ reading.rest ∧ reading.taken = items.length ∧
        declared ≤ (Schedule.bytes items).length ∧
        (∀ fewer, fewer <+: body → declared ≤ (Schedule.bytes fewer).length →
          items.length ≤ fewer.length) ∧
        ∀ after, readBody timeout declared start (items ++ after) =
          (.ok bytes, { reading with rest := after })) ∧
    (body.supply.length < declared →
      (readBody timeout declared start body).1 =
        .error (.failed (.write (.body (.truncated body.supply.length declared body.fault?))))) ∧
    (∀ timeout' start' body', OnTime timeout' declared start' body' → body'.supply = body.supply →
      ∀ bytes, (readBody timeout' declared start' body').1 = .ok bytes ↔
        (readBody timeout declared start body).1 = .ok bytes) := by
  -- what is collected is a function of the data and the length; the parts about cuts follow
  have hiff : ∀ timeout' start' body', OnTime timeout' declared start' body' → ∀ bytes,
      (readBody timeout' declared start' body').1 = .ok bytes ↔
        declared ≤ body'.supply.length ∧ bytes = body'.supply.take declared := by
    intro timeout' start' body' h' bytes
    by_cases henough : declared ≤ body'.supply.length
    · rw [h'.readBody_enough henough]
      simp [henough, eq_comm]
    · rw [h'.readBody_short (by omega)]
      simp [henough]
  refine ⟨?_, ?_, h.readBody_short, ?_⟩
  · constructor
    · rintro ⟨bytes, hbytes⟩
      exact ((hiff timeout start body h bytes).mp hbytes).1
    · intro henough
      exact ⟨_, (hiff timeout start body h _).mpr ⟨henough, rfl⟩⟩
  · intro bytes reading hread
    have henough := ((hiff timeout start body h bytes).mp (congrArg Prod.fst hread)).1
    obtain ⟨hpre, hhas, hleast⟩ := Schedule.asked_shortest henough
    rw [h.readBody_enough henough, Prod.mk.injEq, Except.ok.injEq] at hread
    obtain ⟨rfl, rfl⟩ := hread
    refine ⟨rfl, body.asked declared, (List.prefix_iff_eq_append.mp hpre).symm, Nat.zero_add _,
      hhas, hleast, ?_⟩
    intro after
    obtain ⟨hasked, henough', htake⟩ := Schedule.asked_append henough after
    rw [(h.append henough after).readBody_enough henough', htake]
    show (_, { (Reading.begin timeout declared start body).satisfied with
      elapsed := 0 + (Schedule.asked declared (body.asked declared ++ after)).duration
      taken := 0 + (Schedule.asked declared (body.asked declared ++ after)).length
      rest := (body.asked declared ++ after).drop
        (Schedule.asked declared (body.asked declared ++ after)).length }) = _
    rw [hasked, List.drop_left]
    rfl
  · intro timeout' start' body' h' hsame bytes
    rw [hiff timeout' start' body' h', hiff timeout start body h, hsame]

/-- Four bytes of five that arrive in two cuts, with empty pieces in front of them and a break behind.
The last piece comes at the very end of the time for the whole body. -/
theorem readBody_exact_cut :
    ∃ timeout : Span, ∃ body : Schedule, OnTime timeout 4 7 body ∧ body.supply = [1, 2, 3, 4, 5] ∧
      body.fault? = some "gone" ∧ body.duration = timeout.ceilMillis ∧
      ∃ bytes, (readBody timeout 4 7 body).1 = .ok bytes := by
  let body : Schedule :=
    [⟨0, .data []⟩, ⟨60, .data [1, 2]⟩, ⟨0, .data []⟩, ⟨40, .data [3, 4, 5]⟩, ⟨0, .fail "gone"⟩]
  have h : OnTime (Span.ofMillis 100) 4 7 body := ⟨by decide +kernel, by decide +kernel⟩
  exact ⟨Span.ofMillis 100, body, h, by decide, by decide, by decide +kernel,
    (readBody_exact h).1.mpr (by decide)⟩

end

end LiveIngest.Body
