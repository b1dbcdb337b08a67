import LiveIngest.Proofs.Deadlines
import Mathlib.Data.List.Forall2

/-!
# A faster sender and a longer timeout

Does it ever hurt to be faster?  The deadlines of a reading are no fixed instants: that of a wait is
counted from the item before, so with a faster sender it comes earlier, too.

What has to be compared are two readings whose clocks drift apart.  `Reading.Ahead` sets them side by
side: both have taken the same items and hold the same bytes, and the second one is no later, has at least
the same time, and is still to be sent the same items no slower.  Being ahead is kept by every wait that
ends with a piece (`awaitFrom_ahead`).  The crux is that such a wait ends in time for the second reading
as well (`Ahead.ready_le`), although its deadline may be the earlier one: the item was there within the
read timeout, and before the time for the whole body was over, and neither can fail for an item that is
there sooner.

Both loops go on from piece to piece, so the second comes to the end that the first one comes to
(`Buffering.run_ahead`, `Streaming.run_ahead`); `reading_no_slower` says so of whole bodies.
-/

namespace LiveIngest

namespace Body

/-- The same item, no later. -/
structure Chunk.Quicker (c c' : Chunk) : Prop where
  item : c'.item = c.item
  wait : c'.wait ≤ c.wait

namespace Reading

/-- The second reading has come to the same point no later, with no less time for what is to come. -/
structure Ahead (r r' : Reading) : Prop where
  timeout : r.timeout.nanos ≤ r'.timeout.nanos
  declared : r'.declared = r.declared
  elapsed : r'.elapsed ≤ r.elapsed
  received : r'.received = r.received
  taken : r'.taken = r.taken
  rest : List.Forall₂ Chunk.Quicker r.rest r'.rest

variable {r r' : Reading} {c c' : Chunk} {rest rest' : Schedule}

/-- Both have the same left to read. -/
theorem Ahead.remaining (h : r.Ahead r') : r'.remaining = r.remaining := by
  rw [Reading.remaining, Reading.remaining, h.declared, h.received]

/-- What is there in time for the first reading is there in time for the second. -/
theorem Ahead.ready_le (h : r.Ahead r') (hc : c.Quicker c') (hready : r.elapsed + c.wait ≤ r.expiry) :
    r'.elapsed + c'.wait ≤ r'.expiry := by
  -- both bounds of an expiry grow with the timeout, the read timeout and the time for the whole
  -- body
  have hwhole : (allowance r.timeout r.declared).ceilMillis ≤
      (allowance r'.timeout r'.declared).ceilMillis := by
    rw [h.declared]
    exact Span.ceilMillis_le (Nat.add_le_add_right h.timeout _)
  have heach := Span.ceilMillis_le h.timeout
  have helapsed := h.elapsed
  have hwait := hc.wait
  rw [expiry_eq] at hready ⊢
  omega

/-- Taking the same item keeps one ahead, as the items come no later and what follows them does not,
either. -/
theorem Ahead.took (h : r.Ahead r') (hc : c.Quicker c') (hrest : List.Forall₂ Chunk.Quicker rest rest') :
    (r.took (r.elapsed + c.wait) rest).Ahead (r'.took (r'.elapsed + c'.wait) rest') :=
  ⟨h.timeout, h.declared, Nat.add_le_add h.elapsed hc.wait, h.received, congrArg (· + 1) h.taken, hrest⟩

/-- Of the same piece, the same counts. -/
theorem Ahead.accept (h : r.Ahead r') (bytes : Bytes) :
    (r'.accept bytes).1 = (r.accept bytes).1 ∧ (r.accept bytes).2.Ahead (r'.accept bytes).2 := by
  have hcounted : (r'.accept bytes).1 = (r.accept bytes).1 := congrArg (bytes.take ·) h.remaining
  refine ⟨hcounted, h.timeout, h.declared, h.elapsed, ?_, h.taken, h.rest⟩
  show r'.received + (r'.accept bytes).1.length = r.received + (r.accept bytes).1.length
  rw [h.received, hcounted]

/-- Where a wait ends with a piece, one that is ahead ends with the same piece and stays ahead. -/
theorem awaitFrom_ahead {after : Reading} {bytes : Bytes} (h : r.Ahead r') (ht : r'.Timely)
    (hrest : List.Forall₂ Chunk.Quicker rest rest') (hpiece : awaitFrom r rest = .piece bytes after) :
    ∃ after', awaitFrom r' rest' = .piece bytes after' ∧ after.Ahead after' := by
  -- on the items, as a wait may take any number of empty ones before its piece
  induction hrest generalizing r r' with
  | nil =>
    rw [awaitFrom] at hpiece
    split at hpiece <;> cases hpiece
  | @cons c c' rest rest' hc hrest ih =>
    cases awaitFrom_waited r c rest with
    | overflow heq => cases heq.symm.trans hpiece
    | late hlate heq => cases heq.symm.trans hpiece
    | empty hitem hready heq =>
      have hready' := h.ready_le hc hready
      have hcontinues : r'.Continues (r'.took (r'.elapsed + c'.wait) rest') :=
        ⟨rfl, rfl, rfl, Nat.le_trans hready' r'.expiry_le⟩
      have hawait : awaitFrom r' (c' :: rest') = _ :=
        awaitFrom_cons ht.reaches_wait (by simp [hc.item, hitem]) hready'
      rw [hc.item, hitem] at hawait
      rw [hawait]
      exact ih (h.took hc hrest) (ht.continues hcontinues) (heq.symm.trans hpiece)
    | piece hitem hready heq =>
      have hawait : awaitFrom r' (c' :: rest') = _ :=
        awaitFrom_cons ht.reaches_wait (by simp [hc.item, hitem]) (h.ready_le hc hready)
      rw [hc.item, hitem] at hawait
      cases heq.symm.trans hpiece
      exact ⟨_, hawait, h.took hc hrest⟩
    | truncated heq => cases heq.symm.trans hpiece

/-- Being ahead through a wait and what is kept of its piece. -/
theorem Ahead.await {after : Reading} {bytes : Bytes} (h : r.Ahead r') (ht : r'.Timely)
    (hpiece : r.await = .piece bytes after) :
    ∃ after', r'.await = .piece bytes after' ∧ (after'.accept bytes).1 = (after.accept bytes).1 ∧
      (after.accept bytes).2.Ahead (after'.accept bytes).2 ∧ (after'.accept bytes).2.Timely := by
  obtain ⟨after', hpiece', hahead⟩ := awaitFrom_ahead h ht h.rest hpiece
  have hwithin := awaitFrom_within r'.rest r' ht
  rw [hpiece'] at hwithin
  exact ⟨after', hpiece', (hahead.accept bytes).1, (hahead.accept bytes).2,
    ht.continues (continues_accept hwithin bytes)⟩

end Reading

/-! ## Both loops -/

/-- A loop that is ahead of one that ends well ends well with the same bytes, and stays ahead. -/
theorem Buffering.run_ahead (b b' : Buffering) (h : b.reading.Ahead b'.reading)
    (ht : b'.reading.Timely) (hbuffer : b'.buffer = b.buffer) {bytes : Bytes} {reading : Reading}
    (hrun : b.run = (.ok bytes, reading)) :
    ∃ reading', b'.run = (.ok bytes, reading') ∧ reading.Ahead reading' := by
  -- by the recursion of the first loop; the second is opened turn by turn beside it
  fun_induction Buffering.run b generalizing b' with
  | case1 b result reading' hstep =>
    cases hrun
    obtain ⟨hremaining, rfl, rfl⟩ := step_done_ok hstep
    refine ⟨b'.reading, ?_, h⟩
    rw [run_of_remaining_zero (h.remaining.trans hremaining), hbuffer]
  | case2 b b₁ hstep ih =>
    obtain ⟨hremaining, piece, after, hpiece, rfl⟩ := step_again hstep
    obtain ⟨after', hpiece', hcounted, hahead, htimely⟩ := h.await ht hpiece
    have hstep' : b'.step = .again ⟨(after'.accept piece).2, b'.buffer ++ (after'.accept piece).1⟩ := by
      rw [step, if_neg (h.remaining ▸ hremaining), hpiece']
    obtain ⟨reading', hrun', hahead'⟩ :=
      ih ⟨(after'.accept piece).2, b'.buffer ++ (after'.accept piece).1⟩ hahead htimely
        (by rw [hbuffer, hcounted]) hrun
    exact ⟨reading', (run_of_again hstep').trans hrun', hahead'⟩

end Body

namespace Upload

open LiveIngest.Body
open LiveIngest.Storage

/-- The same of streaming, which leaves the same on the disk as well. -/
theorem Streaming.run_ahead (part : String) (s : Streaming) (t : Tree) (s' : Streaming)
    (h : s.reading.Ahead s'.reading) (ht : s'.reading.Timely) (hhandle : s'.handle = s.handle)
    {reading : Reading} {t₁ : Tree} (hrun : s.run part t = ((.ok (), reading), t₁)) :
    ∃ reading', s'.run part t = ((.ok (), reading'), t₁) ∧ reading.Ahead reading' := by
  fun_induction Streaming.run s part t generalizing s' with
  | case1 s t result reading' t' hstep =>
    cases hrun
    obtain ⟨hremaining, hsettle, rfl, rfl⟩ := step_done_ok hstep
    refine ⟨s'.reading, run_of_done ?_, h⟩
    rw [step, if_pos (h.remaining.trans hremaining), hhandle, hsettle]
  | case2 s t s₁ t' hstep ih =>
    obtain ⟨hremaining, piece, after, handle, hpiece, hwrite, rfl⟩ := step_again hstep
    obtain ⟨after', hpiece', hcounted, hahead, htimely⟩ := h.await ht hpiece
    have hstep' : s'.step part t = (.again ⟨(after'.accept piece).2, handle⟩, t') := by
      rw [step, if_neg (h.remaining ▸ hremaining), hpiece']
      simp only [hhandle, hcounted, hwrite]
    obtain ⟨reading', hrun', hahead'⟩ := ih ⟨(after'.accept piece).2, handle⟩ hahead htimely rfl hrun
    exact ⟨reading', (run_of_again hstep').trans hrun', hahead'⟩

/-! ## Whole bodies -/

/-- Two readings of bodies with the same items took the same ones, and the second is over no later. -/
structure NoLater (body body' : Schedule) (reading reading' : Reading) : Prop where
  taken : reading'.taken = reading.taken
  rest : reading.rest = body.drop reading.taken
  rest' : reading'.rest = body'.drop reading.taken
  elapsed : reading'.elapsed ≤ reading.elapsed

section

variable {timeout timeout' : Span} {declared start start' : Nat} {body body' : Schedule}

/-- At the start both have taken nothing.  The instants they start at are not compared, only what
passes since. -/
theorem ahead_begin (htimeout : timeout.nanos ≤ timeout'.nanos)
    (hbody : List.Forall₂ Chunk.Quicker body body') :
    (Reading.begin timeout declared start body).Ahead (Reading.begin timeout' declared start' body') :=
  ⟨htimeout, rfl, Nat.le_refl 0, rfl, rfl, hbody⟩

/-- A reading that is ended well has taken the beginning of its body. -/
theorem rest_of_readBody {bytes : Bytes} {reading : Reading}
    (h : readBody timeout declared start body = (.ok bytes, reading)) :
    reading.rest = body.drop reading.taken := by
  cases hs : startBuffering timeout declared start body with
  | error stop =>
    rw [readBody, hs] at h
    cases h
  | ok b =>
    obtain ⟨rfl, hread⟩ := startBuffering_ok hs
    rw [hread] at h
    obtain ⟨items, hitems⟩ := Buffering.run_came _ (Nat.zero_le _) h
    have hbody : body = items ++ reading.rest := hitems.rest
    have htaken : reading.taken = items.length := hitems.taken.trans (Nat.zero_add _)
    rw [hbody, htaken, List.drop_left]

/-- What being ahead comes to at the end of both bodies. -/
theorem NoLater.of_ahead {bytes bytes' : Bytes} {reading reading' : Reading} (h : reading.Ahead reading')
    (hread : readBody timeout declared start body = (.ok bytes, reading))
    (hread' : readBody timeout' declared start' body' = (.ok bytes', reading')) :
    NoLater body body' reading reading' :=
  ⟨h.taken, rest_of_readBody hread, h.taken ▸ rest_of_readBody hread', h.elapsed⟩

/-- Collecting a body: only the second reading is known to have deadlines that fit, since the first
one has come to an end and must have had them. -/
theorem readBody_ahead (hbody : List.Forall₂ Chunk.Quicker body body')
    (htimeout : timeout.nanos ≤ timeout'.nanos) (hfit : DeadlinesFit timeout' declared start')
    {bytes : Bytes} {reading : Reading}
    (h : readBody timeout declared start body = (.ok bytes, reading)) :
    ∃ reading', readBody timeout' declared start' body' = (.ok bytes, reading') ∧
      NoLater body body' reading reading' := by
  cases hs : startBuffering timeout declared start body with
  | error stop =>
    rw [readBody, hs] at h
    cases h
  | ok b =>
    obtain ⟨rfl, hread⟩ := startBuffering_ok hs
    have hread' := (startBuffering_ok (hfit.startBuffering_eq body')).2
    obtain ⟨reading', hrun', hahead⟩ :=
      Buffering.run_ahead ⟨Reading.begin timeout declared start body, []⟩
        ⟨Reading.begin timeout' declared start' body', []⟩ (ahead_begin htimeout hbody)
        (hfit.timely_begin body') rfl (hread.symm.trans h)
    exact ⟨reading', hread'.trans hrun', .of_ahead hahead h (hread'.trans hrun')⟩

/-- Streaming a body.  That the items taken are the beginning of it is known of collecting already,
and both loops take the same ones. -/
theorem streamToPart_ahead (hbody : List.Forall₂ Chunk.Quicker body body')
    (htimeout : timeout.nanos ≤ timeout'.nanos) (hfit : DeadlinesFit timeout declared start)
    (hfit' : DeadlinesFit timeout' declared start') {part : String} {t t₁ : Tree} {reading : Reading}
    (h : streamToPart timeout declared start body part t = ((.ok (), reading), t₁)) :
    ∃ reading', streamToPart timeout' declared start' body' part t = ((.ok (), reading'), t₁) ∧
      NoLater body body' reading reading' := by
  have hread := streamToPart_beside hfit body part t
  have hread' := streamToPart_beside hfit' body' part t
  rw [h] at hread
  rw [streamToPart, startStreaming] at h hread' ⊢
  cases hcreate : t.create part with
  | error e => simp [hcreate] at h
  | ok created =>
    obtain ⟨target, t'⟩ := created
    have hreach : (Reading.begin timeout declared start body).reaches
      (Reading.begin timeout declared start body).deadline = true := hfit.whole
    have hreach' : (Reading.begin timeout' declared start' body').reaches
      (Reading.begin timeout' declared start' body').deadline = true := hfit'.whole
    simp only [hcreate, if_pos hreach, if_pos hreach'] at h hread' ⊢
    obtain ⟨reading', hrun', hahead⟩ :=
      Streaming.run_ahead part ⟨Reading.begin timeout declared start body, Handle.fresh target⟩ t'
        ⟨Reading.begin timeout' declared start' body', Handle.fresh target⟩ (ahead_begin htimeout hbody)
        (hfit'.timely_begin body') rfl h
    rw [hrun'] at hread'
    obtain ⟨bytes, hbytes⟩ := hread.of_ok
    obtain ⟨bytes', hbytes'⟩ := hread'.of_ok
    exact ⟨reading', hrun', .of_ahead hahead hbytes hbytes'⟩

/-- A faster sender and a longer timeout never hurt.  If a body is read, then the same items, each of them
no later, are read with a timeout that is no shorter: the same bytes come of the same items, and no later.
Streaming leaves the same on the disk. -/
theorem reading_no_slower (hbody : List.Forall₂ Chunk.Quicker body body')
    (htimeout : timeout.nanos ≤ timeout'.nanos) (hfit : DeadlinesFit timeout declared start)
    (hfit' : DeadlinesFit timeout' declared start') :
    (∀ bytes reading, readBody timeout declared start body = (.ok bytes, reading) →
      ∃ reading', readBody timeout' declared start' body' = (.ok bytes, reading') ∧
        NoLater body body' reading reading') ∧
    ∀ part t t₁ reading, streamToPart timeout declared start body part t = ((.ok (), reading), t₁) →
      ∃ reading', streamToPart timeout' declared start' body' part t = ((.ok (), reading'), t₁) ∧
        NoLater body body' reading reading' :=
  ⟨fun _ _ h => readBody_ahead hbody htimeout hfit' h,
    fun _ _ _ _ h => streamToPart_ahead hbody htimeout hfit hfit' h⟩

/-- The last piece of the first body comes at the very end of its time, that of the second one earlier,
and the connection that hangs behind it is not asked for. -/
theorem reading_no_slower_ninety :
    ∃ body body' : Schedule, List.Forall₂ Chunk.Quicker body body' ∧ body ≠ body' ∧
      (readBody (Span.ofMillis 90) 4 7 body).1 = .ok [1, 2, 3, 4] ∧
      (readBody (Span.ofMillis 90) 4 7 body).2.elapsed = 90 ∧
      (∃ reading', readBody (Span.ofMillis 95) 4 0 body' = (.ok [1, 2, 3, 4], reading') ∧
        NoLater body body' (readBody (Span.ofMillis 90) 4 7 body).2 reading') ∧
      (streamToPart (Span.ofMillis 95) 4 0 body' ".a.part" .empty).1.1 = .ok () := by
  let body : Schedule :=
    [⟨40, .data [1, 2]⟩, ⟨0, .data []⟩, ⟨50, .data [3, 4, 5]⟩, ⟨0, .hang⟩]
  let body' : Schedule :=
    [⟨10, .data [1, 2]⟩, ⟨0, .data []⟩, ⟨50, .data [3, 4, 5]⟩, ⟨0, .hang⟩]
  have hbody : List.Forall₂ Chunk.Quicker body body' :=
    .cons ⟨rfl, by decide⟩ (.cons ⟨rfl, by decide⟩ (.cons ⟨rfl, by decide⟩ (.cons ⟨rfl, by decide⟩ .nil)))
  have hfit : DeadlinesFit (Span.ofMillis 90) 4 7 := .of_last (by decide)
  have hfit' : DeadlinesFit (Span.ofMillis 95) 4 0 := .of_last (by decide)
  have hread : (readBody (Span.ofMillis 90) 4 7 body).1 = .ok [1, 2, 3, 4] := by decide +kernel
  have hstream : (streamToPart (Span.ofMillis 90) 4 7 body ".a.part" .empty).1.1 = .ok () := by
    decide +kernel
  obtain ⟨hcollected, hstreamed⟩ := reading_no_slower hbody (by decide) hfit hfit'
  obtain ⟨reading', hreading', -⟩ := hstreamed ".a.part" .empty _ _ (Prod.ext (Prod.ext hstream rfl) rfl)
  refine ⟨body, body', hbody, by decide, hread, by decide +kernel,
    hcollected _ _ (Prod.ext hread rfl), ?_⟩
  rw [hreading']

end

end Upload

end LiveIngest
