import LiveIngest.Proofs.Reading

/-!
# Bodies that arrive in time

A sender cuts a body into pieces as it likes and lets some time pass before each.  The pieces are
there in time if no wait is longer than the read timeout and all waits together fit into the time for
the whole body (`InTime`).  A body that starts with such pieces is read, and what is read of it does
not show where the cuts were or how long the waits: `readBody_of_arrives`.

The invariant behind it is `Reading.Fed`: the pieces still to come hold what is still wanted, and
are there before the deadlines.  A wait takes one piece with data off them, and empty ones before it
(`awaitFrom_fed`).
-/

namespace LiveIngest.Body

/-- Pieces of data, each with the milliseconds that pass until it is there. -/
abbrev Pieces := List (Nat × Bytes)

namespace Pieces

/-- The body that these pieces are sent as. -/
def schedule (ps : Pieces) : Schedule := ps.map fun (wait, data) => ⟨wait, .data data⟩

/-- The data of all pieces. -/
def data (ps : Pieces) : Bytes := ps.flatMap Prod.snd

/-- The milliseconds until the last piece is there. -/
def duration : Pieces → Nat
  | [] => 0
  | (wait, _) :: ps => wait + duration ps

end Pieces

/-- The pieces are there before the deadlines of a body of `declared` bytes that is read from `start`
on, and these deadlines can be represented. -/
structure InTime (timeout : Span) (declared start : Nat) (ps : Pieces) : Prop where
  each : ∀ p ∈ ps, p.1 ≤ timeout.ceilMillis
  whole : Pieces.duration ps ≤ (allowance timeout declared).ceilMillis
  deadline : representable (Span.ofMillis start + allowance timeout declared) = true
  lastWait : representable
    (Span.ofMillis start + (Span.ofMillis (Pieces.duration ps) + timeout)) = true

/-- The body starts with pieces that are there in time and that hold the bytes. -/
def Arrives (timeout : Span) (start : Nat) (body : Schedule) (bytes : Bytes) : Prop :=
  ∃ ps rest, body = Pieces.schedule ps ++ rest ∧ bytes <+: Pieces.data ps ∧
    InTime timeout bytes.length start ps

/-- The pieces still to come hold what is still wanted, and none of them is late. -/
structure Reading.Fed (r : Reading) (ps : Pieces) (rest : Schedule) : Prop where
  rest_eq : r.rest = Pieces.schedule ps ++ rest
  enough : r.remaining ≤ (Pieces.data ps).length
  each : ∀ p ∈ ps, p.1 ≤ r.timeout.ceilMillis
  whole : r.elapsed + Pieces.duration ps ≤ r.deadline.ceilMillis
  fits : r.reaches (Span.ofMillis (r.elapsed + Pieces.duration ps) + r.timeout) = true

/-- Whole milliseconds are not rounded. -/
theorem Span.ceilMillis_ofMillis_add (ms : Nat) (t : Span) :
    (Span.ofMillis ms + t).ceilMillis = ms + t.ceilMillis := by
  show (Span.nanosPerMilli * ms + t.nanos + (Span.nanosPerMilli - 1)) / Span.nanosPerMilli =
    ms + (t.nanos + (Span.nanosPerMilli - 1)) / Span.nanosPerMilli
  unfold Span.nanosPerMilli
  omega

namespace Reading

variable {r : Reading} {wait : Nat} {data : Bytes} {ps : Pieces} {rest : Schedule}

/-- The wait for the next piece has a deadline. -/
theorem Fed.reaches_wait (h : r.Fed ps rest) : r.reaches r.waitDeadline = true := by
  refine representable_of_le (Nat.add_le_add_left (Nat.add_le_add_right ?_ _) _) h.fits
  exact Nat.mul_le_mul_left _ (Nat.le_add_right _ _)

/-- The next piece is there before the wait for it is over. -/
theorem Fed.ready_le (h : r.Fed ((wait, data) :: ps) rest) : r.elapsed + wait ≤ r.expiry := by
  have hwhole := h.whole
  have heach := h.each (wait, data) List.mem_cons_self
  rw [Pieces.duration] at hwhole
  rw [expiry]
  split
  · omega
  · rw [waitDeadline, Span.ceilMillis_ofMillis_add]
    omega

/-- What is still to come after one more piece. -/
theorem Fed.took (h : r.Fed ((wait, data) :: ps) rest) {received : Nat}
    (hreceived : r.received + min data.length r.remaining = received) :
    Fed { r.took (r.elapsed + wait) (Pieces.schedule ps ++ rest) with received := received } ps rest := by
  have henough := h.enough
  have hwhole := h.whole
  have hfits := h.fits
  simp only [Pieces.data, List.flatMap_cons, List.length_append] at henough
  rw [Pieces.duration, ← Nat.add_assoc] at hwhole hfits
  refine ⟨rfl, ?_, fun p hp => h.each p (List.mem_cons_of_mem _ hp), hwhole, hfits⟩
  show r.declared - received ≤ (Pieces.data ps).length
  rw [← hreceived]
  unfold remaining at henough ⊢
  simp only [Pieces.data]
  omega

end Reading

/-- A wait ends with a piece of the data that are still to come. -/
theorem awaitFrom_fed {ps : Pieces} {rest : Schedule} {r : Reading} (hr : r.remaining ≠ 0)
    (h : r.Fed ps rest) :
    ∃ bytes after ps', awaitFrom r (Pieces.schedule ps ++ rest) = .piece bytes after ∧
      (after.accept bytes).2.Fed ps' rest := by
  induction ps generalizing r with
  | nil => exact absurd (Nat.le_zero.mp h.enough) hr
  | cons p ps ih =>
    obtain ⟨wait, data⟩ := p
    have hcut : Pieces.schedule ((wait, data) :: ps) ++ rest =
        ⟨wait, .data data⟩ :: (Pieces.schedule ps ++ rest) := rfl
    rw [hcut, awaitFrom, if_neg (by simp [h.reaches_wait])]
    simp only [Chunk.readyAt]
    rw [if_neg (Nat.not_lt.mpr h.ready_le)]
    cases data with
    -- an empty piece only takes time
    | nil => exact ih hr (h.took (by simp))
    | cons b bytes =>
      refine ⟨_, _, ps, rfl, h.took ?_⟩
      simp only [List.length_take, Reading.remaining, Reading.took]
      omega

/-- A reading that is fed goes on to its end. -/
theorem Buffering.run_fed (b : Buffering) {ps : Pieces} {rest : Schedule}
    (h : b.reading.Fed ps rest) : ∃ bytes reading, b.run = (.ok bytes, reading) := by
  fun_induction Buffering.run b generalizing ps with
  | case1 b result reading hstep =>
    unfold step at hstep
    split at hstep
    · cases hstep
      exact ⟨_, _, rfl⟩
    · rename_i hremaining
      obtain ⟨bytes, after, ps', hawait, -⟩ := awaitFrom_fed hremaining h
      rw [Reading.await, h.rest_eq, hawait] at hstep
      cases hstep
  -- the wait of this turn is the one that was described
  | case2 b b' hstep ih =>
    obtain ⟨hremaining, bytes, after, hawait, rfl⟩ := step_again hstep
    obtain ⟨bytes', after', ps', hawait', hfed⟩ := awaitFrom_fed hremaining h
    rw [Reading.await, h.rest_eq, hawait', Arrival.piece.injEq] at hawait
    obtain ⟨rfl, rfl⟩ := hawait
    exact ih hfed

/-- Bytes that arrive in time are read, however they are cut. -/
theorem readBody_of_arrives {timeout : Span} {start : Nat} {body : Schedule} {bytes : Bytes}
    (h : Arrives timeout start body bytes) :
    ∃ reading, readBody timeout bytes.length start body = (.ok bytes, reading) := by
  obtain ⟨ps, rest, rfl, hpre, htime⟩ := h
  have hstart : startBuffering timeout bytes.length start (Pieces.schedule ps ++ rest) =
      .ok ⟨Reading.begin timeout bytes.length start (Pieces.schedule ps ++ rest), []⟩ :=
    if_pos htime.deadline
  have hfed : (Reading.begin timeout bytes.length start (Pieces.schedule ps ++ rest)).Fed ps rest := by
    refine ⟨rfl, ?_, htime.each, ?_, ?_⟩
    · rw [Reading.remaining_begin]
      exact hpre.length_le
    · rw [show Reading.elapsed _ = 0 from rfl, Nat.zero_add]
      exact htime.whole
    · rw [show Reading.elapsed _ = 0 from rfl, Nat.zero_add]
      exact htime.lastWait
  obtain ⟨out, reading, hrun⟩ := Buffering.run_fed ⟨_, []⟩ hfed
  have hread : readBody timeout bytes.length start (Pieces.schedule ps ++ rest) = (.ok out, reading) := by
    rw [readBody, hstart]
    exact hrun
  obtain ⟨after, hafter⟩ := hpre
  have hdata : Schedule.bytes (Pieces.schedule ps ++ rest) = bytes ++ (after ++ Schedule.bytes rest) := by
    rw [Schedule.bytes, List.flatMap_append, ← List.append_assoc, hafter, Pieces.schedule,
      List.flatMap_map]
    rfl
  -- what is read is the beginning of the whole body, and that is the bytes
  have hout := (readBody_bytes hread).1
  rw [hdata, List.take_left] at hout
  exact ⟨_, hout ▸ hread⟩

end LiveIngest.Body
