import LiveIngest.Proofs.Collecting
import LiveIngest.Proofs.Streaming

/-!
# When a body is given up

Two deadlines run while a body is read.  That of the whole body is fixed when reading starts; that of a
wait starts anew with every item, empty pieces included.  They are compared to the nanosecond and pass
at whole milliseconds.  When does a reading end, and what does it say then?

1. **One wait.**  It is over at the earlier of the two deadlines (`Reading.expiry_eq`), and it is in vain
   just if the item that was asked for is late (`Chunk.Late`).  A turn of a loop is more than one wait,
   since an empty piece only makes it wait again.

2. **The way to the last wait.**  `Reading.Came` keeps the account of what came in between two states of a
   reading: pieces of data only, and the clock shows the sum of their waits.  Whenever a loop gives up,
   what came before is such a way from its start (`readBody_timedOut`).

3. **Both loops.**  On any disk, streaming a body ends as collecting it does, or earlier because of a file
   (`Beside`, `streamToPart_beside`).

`KeepsTime` is the law, and `reading_keeps_time` says that both loops obey it.
-/

namespace LiveIngest

/-- Whether a body failed because it was waited for in vain, by either deadline. -/
def BodyFault.IsTimeout : BodyFault → Prop
  | .tooSlow .. => True
  | .noData .. => True
  | .truncated .. => False

namespace Body

/-- The failure of a body, as the end of an activity. -/
abbrev bodyFault (fault : BodyFault) : Stop := .failed (.write (.body fault))

/-- The waits of two schedules add up. -/
theorem Schedule.duration_append (items rest : Schedule) :
    duration (items ++ rest) = items.duration + duration rest := by
  induction items with
  | nil => exact (Nat.zero_add _).symm
  | cons c items ih => rw [List.cons_append, duration, ih, duration, Nat.add_assoc]

/-- And so do their bytes. -/
theorem Schedule.bytes_append (items rest : Schedule) :
    Schedule.bytes (items ++ rest) = items.bytes ++ Schedule.bytes rest := List.flatMap_append

/-! ## One wait -/

/-- An item that is asked for at `asked` is not there by `expiry`.  One that never comes is late,
too. -/
def Chunk.Late (c : Chunk) (asked expiry : Nat) : Prop :=
  ∀ ready, c.readyAt asked = some ready → expiry < ready

namespace Reading

variable {r r' r'' after : Reading} {c : Chunk} {rest : Schedule} {bytes : Bytes} {fault : BodyFault}

/-- A wait is over at the earlier one of the two deadlines.  Rounding up to milliseconds does not
change which of them is earlier. -/
theorem expiry_eq (r : Reading) :
    r.expiry = min (allowance r.timeout r.declared).ceilMillis (r.elapsed + r.timeout.ceilMillis) := by
  rw [← Span.ceilMillis_ofMillis_add]
  show r.expiry = min r.deadline.ceilMillis r.waitDeadline.ceilMillis
  rw [expiry]
  split
  · rename_i hle
    exact (Nat.min_eq_left (Span.ceilMillis_le hle)).symm
  · rename_i hlt
    exact (Nat.min_eq_right (Span.ceilMillis_le (Nat.le_of_not_le hlt))).symm

/-- A wait in vain: the item that was asked for is late, and the reading gives up.  What it says
then and where it stands is a matter of the reading alone. -/
structure GivesUp (r : Reading) (fault : BodyFault) (after : Reading) : Prop where
  late : ∃ c rest, r.rest = c :: rest ∧ c.Late r.elapsed r.expiry
  fault_eq : fault = r.timeoutFault
  after_eq : after = r.gaveUp

/-- What waiting for the next item comes to.  An empty piece is not the end of it, so that case goes
on with the rest. -/
inductive Waited (r : Reading) (c : Chunk) (rest : Schedule) (arrival : Arrival) : Prop
  | overflow (h : arrival = .overflow)
  | late (hlate : c.Late r.elapsed r.expiry) (h : arrival = .failed r.timeoutFault r.gaveUp)
  | empty (hc : c.item = .data []) (hready : r.elapsed + c.wait ≤ r.expiry)
      (h : arrival = awaitFrom (r.took (r.elapsed + c.wait) rest) rest)
  | piece {b : UInt8} {bytes : Bytes} (hc : c.item = .data (b :: bytes))
      (hready : r.elapsed + c.wait ≤ r.expiry)
      (h : arrival = .piece (b :: bytes) (r.took (r.elapsed + c.wait) rest))
  | truncated {reason? : Option String} {after : Reading}
      (h : arrival = .failed (.truncated r.received r.declared reason?) after)

/-- There are these five ways.  First it is asked whether the deadline of the wait can be
represented, then whether the item is late, and then what it is. -/
theorem awaitFrom_waited (r : Reading) (c : Chunk) (rest : Schedule) :
    Waited r c rest (awaitFrom r (c :: rest)) := by
  by_cases hreach : r.reaches r.waitDeadline = true
  · by_cases hlate : c.Late r.elapsed r.expiry
    · refine .late hlate ?_
      rw [awaitFrom, if_neg (by simp [hreach])]
      cases hready : c.readyAt r.elapsed with
      | none => rfl
      | some ready => exact if_pos (hlate ready hready)
    · have hhang : c.item ≠ .hang := by
        intro hc
        refine hlate fun ready hready => ?_
        rw [Chunk.readyAt, hc] at hready
        cases hready
      have hready : r.elapsed + c.wait ≤ r.expiry := by
        refine Nat.le_of_not_lt fun hlt => hlate fun ready hready => ?_
        rw [Chunk.readyAt] at hready
        split at hready
        · cases hready
        · cases hready
          exact hlt
      have hawait : awaitFrom r (c :: rest) = _ := awaitFrom_cons hreach hhang hready
      cases hc : c.item with
      | data bytes =>
        rw [hc] at hawait
        cases bytes with
        | nil => exact .empty hc hready hawait
        | cons b bytes => exact .piece hc hready hawait
      | fail reason =>
        rw [hc] at hawait
        exact .truncated hawait
      | hang => exact absurd hc hhang
      | finish =>
        rw [hc] at hawait
        exact .truncated hawait
  · refine .overflow ?_
    rw [awaitFrom, if_pos hreach]

/-! ## The way to the last wait -/

/-- These items came on the way from one state of a reading to another: all of them data, the clock went
on by their waits, and what counts of their bytes was received. -/
structure Came (r : Reading) (items : Schedule) (r' : Reading) : Prop where
  rest : r.rest = items ++ r'.rest
  data : ∀ c ∈ items, ∃ bytes, c.item = .data bytes
  timeout : r'.timeout = r.timeout
  declared : r'.declared = r.declared
  elapsed : r'.elapsed = r.elapsed + items.duration
  received : r'.received = min r.declared (r.received + (Schedule.bytes items).length)
  taken : r'.taken = r.taken + items.length

/-- Nothing came. -/
theorem Came.refl (h : r.received ≤ r.declared) : r.Came [] r :=
  ⟨rfl, by simp, rfl, rfl, rfl, (Nat.min_eq_right h).symm, rfl⟩

/-- No more is received than was declared. -/
theorem Came.received_le {items : Schedule} (h : r.Came items r') : r'.received ≤ r'.declared := by
  rw [h.received, h.declared]
  exact Nat.min_le_left _ _

/-- What came on two ways, one after the other. -/
theorem Came.trans {items items' : Schedule} (h : r.Came items r') (h' : r'.Came items' r'') :
    r.Came (items ++ items') r'' := by
  have hdata : ∀ c ∈ items ++ items', ∃ bytes, c.item = .data bytes := fun c hc =>
    (List.mem_append.mp hc).elim (h.data c) (h'.data c)
  refine ⟨?_, hdata, h'.timeout.trans h.timeout, h'.declared.trans h.declared, ?_, ?_, ?_⟩
  · rw [h.rest, h'.rest, List.append_assoc]
  · rw [h'.elapsed, h.elapsed, Schedule.duration_append, Nat.add_assoc]
  · rw [h'.received, h.received, h.declared, Schedule.bytes_append, List.length_append]
    omega
  · rw [h'.taken, h.taken, List.length_append, Nat.add_assoc]

/-- A piece comes, and what counts of it is kept.  More than what remains does not count. -/
theorem came_piece (hrest : r.rest = c :: rest) (hc : c.item = .data bytes)
    (hle : r.received ≤ r.declared) :
    r.Came [c] ((r.took (r.elapsed + c.wait) rest).accept bytes).2 := by
  refine ⟨hrest, by simp [hc], rfl, rfl, rfl, ?_, rfl⟩
  rw [Schedule.bytes_data hc]
  simp only [accept, took, remaining, Schedule.bytes, List.flatMap_nil, List.append_nil,
    List.length_take]
  omega

/-- An empty piece comes, and nothing is kept. -/
theorem came_empty (hrest : r.rest = c :: rest) (hc : c.item = .data [])
    (hle : r.received ≤ r.declared) : r.Came [c] (r.took (r.elapsed + c.wait) rest) := by
  have h := came_piece hrest hc hle
  simpa [accept, took] using h

end Reading

section

variable {fault : BodyFault} {after : Reading} {bytes : Bytes}

/-- Where a piece ends a wait, it came, and empty pieces before it. -/
theorem awaitFrom_came {rest : Schedule} {r : Reading} (hrest : r.rest = rest)
    (hle : r.received ≤ r.declared) (h : awaitFrom r rest = .piece bytes after) :
    ∃ items, r.Came items (after.accept bytes).2 := by
  induction rest generalizing r with
  | nil =>
    rw [awaitFrom] at h
    split at h <;> cases h
  | cons c rest ih =>
    cases Reading.awaitFrom_waited r c rest with
    | overflow heq => cases heq.symm.trans h
    | late hlate heq => cases heq.symm.trans h
    | empty hc hready heq =>
      obtain ⟨items, hitems⟩ :=
        @ih (r.took (r.elapsed + c.wait) rest) rfl hle (heq.symm.trans h)
      exact ⟨c :: items, (Reading.came_empty hrest hc hle).trans hitems⟩
    | piece hc hready heq =>
      cases heq.symm.trans h
      exact ⟨[c], Reading.came_piece hrest hc hle⟩
    | truncated heq => cases heq.symm.trans h

/-- Where a wait runs into a deadline, nothing but empty pieces came, and then the next item was late. -/
theorem awaitFrom_timedOut {rest : Schedule} {r : Reading} (hrest : r.rest = rest)
    (hle : r.received ≤ r.declared) (h : awaitFrom r rest = .failed fault after)
    (htimeout : fault.IsTimeout) :
    ∃ items r', r.Came items r' ∧ r'.received = r.received ∧ r'.GivesUp fault after := by
  induction rest generalizing r with
  | nil =>
    rw [awaitFrom] at h
    split at h
    · cases h
    · cases h
      exact htimeout.elim
  | cons c rest ih =>
    cases Reading.awaitFrom_waited r c rest with
    | overflow heq => cases heq.symm.trans h
    | late hlate heq =>
      cases heq.symm.trans h
      exact ⟨[], r, .refl hle, rfl, ⟨c, rest, hrest, hlate⟩, rfl, rfl⟩
    | empty hc hready heq =>
      obtain ⟨items, r', hitems, hreceived, hgives⟩ :=
        @ih (r.took (r.elapsed + c.wait) rest) rfl hle (heq.symm.trans h)
      exact ⟨c :: items, r', (Reading.came_empty hrest hc hle).trans hitems, hreceived, hgives⟩
    | piece hc hready heq => cases heq.symm.trans h
    | truncated heq =>
      cases heq.symm.trans h
      exact htimeout.elim

namespace Buffering

/-- A turn that goes on has come nearer. -/
theorem came_of_again {b b' : Buffering} (hle : b.reading.received ≤ b.reading.declared)
    (h : b.step = .again b') : ∃ items, b.reading.Came items b'.reading := by
  obtain ⟨-, bytes, after, hpiece, rfl⟩ := step_again h
  exact awaitFrom_came rfl hle hpiece

/-- A loop that ends well ends when all that was wanted came.  The induction is that of the loop. -/
theorem run_came (b : Buffering) (hle : b.reading.received ≤ b.reading.declared)
    (h : b.run = (.ok bytes, after)) : ∃ items, b.reading.Came items after := by
  fun_induction Buffering.run b with
  | case1 b result reading hstep =>
    cases h
    obtain ⟨-, -, rfl⟩ := step_done_ok hstep
    exact ⟨[], .refl hle⟩
  | case2 b b' hstep ih =>
    obtain ⟨items, hitems⟩ := came_of_again hle hstep
    obtain ⟨items', hitems'⟩ := ih hitems.received_le h
    exact ⟨items ++ items', hitems.trans hitems'⟩

/-- A loop that runs into a deadline still wants something, and its last wait is in vain.  Turns
that go on add to the way; the last turn adds the empty pieces of its wait. -/
theorem run_timedOut (b : Buffering) (hle : b.reading.received ≤ b.reading.declared)
    (h : b.run = (.error (bodyFault fault), after)) (htimeout : fault.IsTimeout) :
    ∃ items r, b.reading.Came items r ∧ r.remaining ≠ 0 ∧ r.GivesUp fault after := by
  fun_induction Buffering.run b with
  | case1 b result reading hstep =>
    cases h
    obtain ⟨hremaining, ⟨-, hstop, -⟩ | ⟨fault', hfailed, hstop⟩⟩ := step_done_error hstep
    · cases hstop
    · cases hstop
      obtain ⟨items, r, hitems, hreceived, hgives⟩ := awaitFrom_timedOut rfl hle hfailed htimeout
      refine ⟨items, r, hitems, ?_, hgives⟩
      rw [Reading.remaining, hreceived, hitems.declared]
      exact hremaining
  | case2 b b' hstep ih =>
    obtain ⟨items, hitems⟩ := came_of_again hle hstep
    obtain ⟨items', r, hitems', hremaining, hgives⟩ := ih hitems.received_le h
    exact ⟨items ++ items', r, hitems.trans hitems', hremaining, hgives⟩

end Buffering

end

/-! ## Collecting keeps the time -/

/-- The law of the two deadlines, for a reading that is over `ended` milliseconds from its start. -/
structure KeepsTime {α : Type} (timeout : Span) (declared start : Nat) (body : Schedule)
    (result : Except Stop α) (ended : Nat) : Prop where
  /-- It comes to an end, and no later than the time for the whole body is over. -/
  ends : result ≠ .error .overflow ∧ ended ≤ (allowance timeout declared).ceilMillis
  /-- The body is too slow only when that time is over. -/
  tooSlow : ∀ received n, result = .error (bodyFault (.tooSlow received n)) →
    ended = (allowance timeout declared).ceilMillis
  /-- There were no data only if some item was asked for and was not there when the wait for it had
  lasted the whole read timeout, and if that was before the end of the time for the whole body; so a body
  that has no more time than the read timeout cannot fail in this way. -/
  noData : ∀ waited received n, result = .error (bodyFault (.noData waited received n)) →
    waited = timeout ∧ minBytesPerSecond ≤ declared ∧
      ∃ (items : Schedule) (c : Chunk) (rest : Schedule), body = items ++ c :: rest ∧
        c.Late items.duration ended ∧
        ended = (Span.ofMillis items.duration + timeout).ceilMillis ∧
        (Span.ofMillis items.duration + timeout).nanos < (allowance timeout declared).nanos
  /-- A body whose items are there in time is not given up. -/
  onTime : OnTime timeout declared start body →
    ∀ fault, result = .error (bodyFault fault) → ¬ fault.IsTimeout

section

variable {timeout : Span} {declared start : Nat} {body : Schedule}

/-- A body that is given up: some pieces came, not all that is wanted, and the next item is late. -/
theorem readBody_timedOut {fault : BodyFault} {reading : Reading}
    (h : readBody timeout declared start body = (.error (bodyFault fault), reading))
    (htimeout : fault.IsTimeout) :
    ∃ items r, (Reading.begin timeout declared start body).Came items r ∧ r.remaining ≠ 0 ∧
      r.GivesUp fault reading := by
  cases hs : startBuffering timeout declared start body with
  | error stop =>
    rw [startBuffering] at hs
    split at hs
    · cases hs
    · rename_i hreach
      cases hs
      rw [readBody, startBuffering] at h
      simp [hreach] at h
  | ok b =>
    obtain ⟨rfl, hread⟩ := startBuffering_ok hs
    rw [hread] at h
    exact Buffering.run_timedOut _ (Nat.zero_le _) h htimeout

/-- Which of the two deadlines a wait ran into.  On a tie it is that of the whole body. -/
theorem Reading.GivesUp.cases {r after : Reading} {fault : BodyFault} (h : r.GivesUp fault after) :
    after.elapsed = r.expiry ∧
      (fault = .tooSlow r.received r.declared ∧ r.deadline.nanos ≤ r.waitDeadline.nanos ∧
          r.expiry = r.deadline.ceilMillis ∨
        fault = .noData r.timeout r.received r.declared ∧
          r.waitDeadline.nanos < r.deadline.nanos ∧ r.expiry = r.waitDeadline.ceilMillis) := by
  refine ⟨by rw [h.after_eq]; rfl, ?_⟩
  rw [h.fault_eq, timeoutFault, expiry]
  split
  · rename_i hle
    exact Or.inl ⟨rfl, hle, rfl⟩
  · rename_i hlt
    exact Or.inr ⟨rfl, Nat.lt_of_not_le hlt, rfl⟩

/-- A wait is over before the whole time is only if that is longer than the read timeout, so the
body must be long enough for a second at the minimum rate. -/
theorem le_of_waitDeadline_lt {asked : Nat}
    (h : (Span.ofMillis asked + timeout).nanos < (allowance timeout declared).nanos) :
    minBytesPerSecond ≤ declared := by
  have hsum : Span.nanosPerMilli * asked + timeout.nanos <
      timeout.nanos + Span.nanosPerSecond * (declared / minBytesPerSecond) := h
  refine Nat.le_of_not_lt fun hshort => ?_
  rw [Nat.div_eq_of_lt hshort] at hsum
  omega

/-- Collecting keeps the time.  How it failed tells which deadline it ran into, and the way to the
last wait tells when that was. -/
theorem readBody_keepsTime (h : DeadlinesFit timeout declared start) (body : Schedule) :
    KeepsTime timeout declared start body (readBody timeout declared start body).1
      (readBody timeout declared start body).2.elapsed := by
  obtain ⟨hends, hcontinues⟩ := readBody_timely h body
  have hread : ∀ {result}, (readBody timeout declared start body).1 = result →
      readBody timeout declared start body =
        (result, (readBody timeout declared start body).2) := fun hr => Prod.ext hr rfl
  refine ⟨⟨hends, hcontinues.elapsed⟩, ?_, ?_, ?_⟩
  · intro received n hresult
    obtain ⟨items, r, hcame, -, hgives⟩ := readBody_timedOut (hread hresult) trivial
    obtain ⟨hended, ⟨-, -, hexpiry⟩ | ⟨hfault, -, -⟩⟩ := hgives.cases
    · rw [hended, hexpiry, Reading.deadline, hcame.timeout, hcame.declared]
      rfl
    · cases hfault
  · intro waited received n hresult
    obtain ⟨items, r, hcame, -, hgives⟩ := readBody_timedOut (hread hresult) trivial
    obtain ⟨hended, ⟨hfault, -, -⟩ | ⟨hfault, hlt, hexpiry⟩⟩ := hgives.cases
    · cases hfault
    · cases hfault
      obtain ⟨c, rest, hrest, hlate⟩ := hgives.late
      have hasked : r.elapsed = items.duration := hcame.elapsed.trans (Nat.zero_add _)
      have hwait : r.waitDeadline = Span.ofMillis items.duration + timeout := by
        rw [Reading.waitDeadline, hasked, hcame.timeout]
        rfl
      have hbody : body = items ++ r.rest := hcame.rest
      rw [Reading.deadline, hwait, hcame.timeout, hcame.declared] at hlt
      refine ⟨hcame.timeout, le_of_waitDeadline_lt hlt, items, c, rest, ?_, ?_, ?_, hlt⟩
      · rw [hbody, hrest]
      · rw [hended, ← hasked]
        exact hlate
      · rw [hended, hexpiry, hwait]
  · intro honTime fault hresult htimeout
    by_cases henough : declared ≤ body.supply.length
    · rw [honTime.readBody_enough henough] at hresult
      cases hresult
    · rw [honTime.readBody_short (Nat.lt_of_not_le henough)] at hresult
      cases hresult
      exact htimeout

end

end Body

/-! ## Streaming ends beside collecting -/

namespace Upload

open LiveIngest.Body
open LiveIngest.Storage

/-- How streaming a body ends, beside what collecting it from `r` on comes to: in the same way and
at the same point, or on the way there because of a file. -/
inductive Beside (r : Reading) (read : Except Stop Bytes × Reading) : Except Stop Unit × Reading → Prop
  | ok {bytes : Bytes} (h : read.1 = .ok bytes) : Beside r read (.ok (), read.2)
  | error {stop : Stop} (h : read.1 = .error stop) : Beside r read (.error stop, read.2)
  | file {step : FileStep} {path : String} {e : Errno} {reading : Reading} (h : r.Continues reading) :
      Beside r read (.error (fileFault step path e), reading)

/-- What holds from a later state of the reading holds from an earlier one. -/
theorem Beside.before {r r' : Reading} {read : Except Stop Bytes × Reading}
    {ended : Except Stop Unit × Reading} (hc : r.Continues r') (h : Beside r' read ended) :
    Beside r read ended := by
  cases h with
  | ok hok => exact .ok hok
  | error herror => exact .error herror
  | file hfile => exact .file (hc.trans hfile)

/-- Where streaming ends well, so does collecting. -/
theorem Beside.of_ok {r reading : Reading} {read : Except Stop Bytes × Reading}
    (h : Beside r read (.ok (), reading)) : ∃ bytes, read = (.ok bytes, reading) := by
  cases h with
  | ok hok => exact ⟨_, Prod.ext hok rfl⟩

/-- What a file does not take is the fault of the file. -/
theorem settle_error {handle : Handle} {path : String} {stop : Stop}
    (h : settle handle path = .error stop) : ∃ step e, stop = fileFault step path e := by
  rw [settle] at h
  split at h
  · cases h
    exact ⟨_, _, rfl⟩
  · split at h
    · cases h
      exact ⟨_, _, rfl⟩
    · cases h

namespace Streaming

variable {part : String} {s : Streaming} {b : Buffering} {t t' : Tree}

/-- A turn of streaming that goes on has got a piece and has written it. -/
theorem step_again {s' : Streaming} (h : s.step part t = (.again s', t')) :
    s.reading.remaining ≠ 0 ∧ ∃ bytes after handle, s.reading.await = .piece bytes after ∧
      s.handle.write t (after.accept bytes).1 = (.ok handle, t') ∧
      s' = ⟨(after.accept bytes).2, handle⟩ := by
  rw [step] at h
  split at h
  · simp at h
  · rename_i hremaining
    refine ⟨hremaining, ?_⟩
    split at h
    · simp at h
    · simp at h
    · rename_i bytes after hpiece
      simp only at h
      split at h
      · simp at h
      · rename_i handle t₁ hwrite
        cases h
        exact ⟨bytes, after, handle, hpiece, hwrite, rfl⟩

/-- The last turn of streaming finds nothing left to read and the file in order. -/
theorem step_done_ok {reading : Reading} (h : s.step part t = (.done (.ok ()) reading, t')) :
    s.reading.remaining = 0 ∧ settle s.handle part = .ok () ∧ reading = s.reading ∧ t' = t := by
  rw [step] at h
  split at h
  · rename_i hremaining
    simp only [Prod.mk.injEq, Turn.done.injEq] at h
    exact ⟨hremaining, h.1.1, h.1.2.symm, h.2.symm⟩
  · split at h
    · simp at h
    · simp at h
    · simp only at h
      split at h <;> simp at h

/-- A turn of streaming that goes on is a turn of collecting, on any disk. -/
theorem step_again_beside (hr : s.reading = b.reading) {s' : Streaming}
    (h : s.step part t = (.again s', t')) : ∃ b', b.step = .again b' ∧ s'.reading = b'.reading := by
  obtain ⟨hremaining, bytes, after, handle, hpiece, -, rfl⟩ := step_again h
  rw [hr] at hremaining hpiece
  refine ⟨⟨(after.accept bytes).2, b.buffer ++ (after.accept bytes).1⟩, ?_, rfl⟩
  rw [Buffering.step, if_neg hremaining, hpiece]

/-- A turn of streaming that is the last one ends beside what collecting comes to. -/
theorem step_done_beside (hr : s.reading = b.reading) (ht : b.reading.Timely)
    {result : Except Stop Unit} {reading : Reading}
    (h : s.step part t = (.done result reading, t')) : Beside b.reading b.run (result, reading) := by
  have hself : b.reading.Continues b.reading := ⟨rfl, rfl, rfl, ht.elapsed⟩
  rw [step, hr] at h
  by_cases hrem : b.reading.remaining = 0
  · rw [if_pos hrem] at h
    have hrun := Buffering.run_of_remaining_zero hrem
    cases hs : settle s.handle part with
    | ok u =>
      rw [hs] at h
      cases h
      have hok : Beside b.reading b.run (.ok (), b.run.2) := .ok (congrArg Prod.fst hrun)
      rwa [hrun] at hok ⊢
    | error stop =>
      obtain ⟨step, e, rfl⟩ := settle_error hs
      rw [hs] at h
      cases h
      exact .file hself
  · rw [if_neg hrem] at h
    have hwithin := awaitFrom_within b.reading.rest b.reading ht
    cases ha : b.reading.await with
    | overflow =>
      rw [show awaitFrom b.reading b.reading.rest = _ from ha] at hwithin
      exact hwithin.elim
    | failed fault after =>
      rw [ha] at h
      cases h
      have hrun := Buffering.run_of_failed hrem ha
      have herror : Beside b.reading b.run (.error _, b.run.2) := .error (congrArg Prod.fst hrun)
      rwa [hrun] at herror ⊢
    | piece bytes after =>
      rw [show awaitFrom b.reading b.reading.rest = _ from ha] at hwithin
      simp only [ha] at h
      split at h
      · cases h
        exact .file (Reading.continues_accept hwithin bytes)
      · simp at h

/-- Streaming a body ends beside what collecting it comes to.  As long as the file takes what it is
given the two loops go on together. -/
theorem run_beside (part : String) (s : Streaming) (t : Tree) (b : Buffering)
    (hr : s.reading = b.reading) (ht : b.reading.Timely) :
    Beside b.reading b.run (s.run part t).1 := by
  fun_induction Streaming.run s part t generalizing b with
  | case1 s t result reading t' hstep => exact step_done_beside hr ht hstep
  | case2 s t s' t' hstep ih =>
    obtain ⟨b', hb, hr'⟩ := step_again_beside hr hstep
    rcases Buffering.step_within ht with ⟨b'', hb'', hc⟩ | ⟨_, _, hb'', -⟩
    · rw [hb, Turn.again.injEq] at hb''
      subst hb''
      rw [Buffering.run_of_again hb]
      exact (ih b' hr' (ht.continues hc)).before hc
    · rw [hb] at hb''
      cases hb''

end Streaming

section

variable {timeout : Span} {declared start : Nat}

/-- So it is with the part file, which may fail to be created first. -/
theorem streamToPart_beside (h : DeadlinesFit timeout declared start) (body : Schedule) (part : String)
    (t : Tree) :
    Beside (Reading.begin timeout declared start body) (readBody timeout declared start body)
      (streamToPart timeout declared start body part t).1 := by
  have htimely := h.timely_begin body
  rw [(startBuffering_ok (h.startBuffering_eq body)).2, streamToPart, startStreaming]
  cases hcreate : t.create part with
  | error e => exact .file ⟨rfl, rfl, rfl, htimely.elapsed⟩
  | ok created =>
    obtain ⟨target, t'⟩ := created
    have hreach : (Reading.begin timeout declared start body).reaches
      (Reading.begin timeout declared start body).deadline = true := h.whole
    simp only [if_pos hreach]
    exact Streaming.run_beside part _ t' ⟨Reading.begin timeout declared start body, []⟩ rfl htimely

/-- What holds of the end of collecting holds of the end of streaming.  A failure of a file is no
failure of the body, so nothing is to be shown for it but that it is not late. -/
theorem Beside.keepsTime {body : Schedule} {read : Except Stop Bytes × Reading}
    {ended : Except Stop Unit × Reading}
    (h : Beside (Reading.begin timeout declared start body) read ended)
    (hread : KeepsTime timeout declared start body read.1 read.2.elapsed) :
    KeepsTime timeout declared start body ended.1 ended.2.elapsed := by
  cases h with
  | ok hok => exact ⟨⟨by simp, hread.ends.2⟩, by simp, by simp, by simp⟩
  | error herror =>
    rw [herror] at hread
    refine ⟨⟨?_, hread.ends.2⟩, ?_, ?_, ?_⟩
    · simpa using hread.ends.1
    · simpa using hread.tooSlow
    · simpa using hread.noData
    · simpa using hread.onTime
  | file hc =>
    refine ⟨⟨by simp [fileFault], hc.elapsed⟩, ?_, ?_, ?_⟩ <;> simp [fileFault]

/-- Whichever way a body is read, if its deadlines can be represented then the reading keeps the time:
it is over when the time for the whole body is, it fails for one deadline only when that one is over and
before the other, and it does not fail for either if all that it asks for is there in time. -/
theorem reading_keeps_time (h : DeadlinesFit timeout declared start) (body : Schedule) (part : String)
    (t : Tree) :
    KeepsTime timeout declared start body (readBody timeout declared start body).1
        (readBody timeout declared start body).2.elapsed ∧
      KeepsTime timeout declared start body (streamToPart timeout declared start body part t).1.1
        (streamToPart timeout declared start body part t).1.2.elapsed := by
  have hread := readBody_keepsTime h body
  exact ⟨hread, (streamToPart_beside h body part t).keepsTime hread⟩

/-- With 50.5 milliseconds for each wait, an empty piece and one of two bytes are there in time.  The next
one, 52 milliseconds after it was asked for, is not: both loops give up at the first whole millisecond
after the deadline of that wait, long before the time for the whole body is over. -/
theorem reading_keeps_time_stalled :
    ∃ timeout : Span, ∃ body : Schedule, ∃ fault, DeadlinesFit timeout 65536 7 ∧ fault.IsTimeout ∧
      (readBody timeout 65536 7 body).1 = .error (bodyFault fault) ∧
      (streamToPart timeout 65536 7 body ".a.part" .empty).1.1 = .error (bodyFault fault) ∧
      (streamToPart timeout 65536 7 body ".a.part" .empty).1.2.elapsed = 131 ∧
      131 < (allowance timeout 65536).ceilMillis ∧ ¬OnTime timeout 65536 7 body := by
  let timeout : Span := ⟨50500000⟩
  let body : Schedule := [⟨40, .data []⟩, ⟨40, .data [1, 2]⟩, ⟨52, .data [3]⟩]
  have hfit : DeadlinesFit timeout 65536 7 := .of_last (by decide)
  have hread : (readBody timeout 65536 7 body).1 = .error (bodyFault (.noData timeout 2 65536)) := by
    decide +kernel
  obtain ⟨hcollected, -⟩ := reading_keeps_time hfit body ".a.part" .empty
  exact ⟨timeout, body, .noData timeout 2 65536, hfit, trivial, hread, by decide +kernel,
    by decide +kernel, by decide, fun honTime => hcollected.onTime honTime _ hread trivial⟩

end

end Upload

end LiveIngest
