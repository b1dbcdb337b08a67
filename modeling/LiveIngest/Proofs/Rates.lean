import LiveIngest.Proofs.Deadlines

/-!
# Bodies that keep the slowest rate

The time for a whole body is one read timeout and one second for every `minBytesPerSecond` bytes.  The
seconds are whole ones, so up to one second of what a body takes at that rate is rounded away, and the
read timeout has to make up for it.  Does a sender that keeps the rate ever run out of time?

1. **Specification.**  `Sustained` says that a body has enough data and keeps the rate: each item that is
   asked for is there when the bytes up to and with it are due.

2. **What has to be made up for.**  The last byte of `declared` is due `1000 * declared / 65536`
   milliseconds after the start, and the allowance has `1000 * (declared / 65536)` of them.  The read
   timeout `Absorbs` a length if it lasts for the difference.

3. **Both directions.**  A wait that is in vain at the end of the allowance is a wait for an item that is
   due (`KeepsRate.item`), so nothing goes wrong if the read timeout absorbs the length.  Otherwise
   `lastMoment` does: all bytes but one at once, an empty piece in every millisecond, so that no wait is
   too long, and the last byte just when it is due.

`sustained_not_tooSlow_iff` puts the two together.  A read timeout of a second absorbs every length; one of
a millisecond does not absorb 132 bytes (`sustained_tooSlow`).
-/

namespace LiveIngest

namespace Body

/-! ## Keeping the rate -/

/-- Asked for one after another, each item is there when the bytes up to and with it are due: `received`
bytes came in `elapsed` milliseconds, and no more than `declared` count. -/
def KeepsRate (declared : Nat) : Nat → Nat → Schedule → Prop
  | _, _, [] => True
  | elapsed, received, c :: rest =>
    minBytesPerSecond * (elapsed + c.wait) ≤ 1000 * min declared (received + c.bytes.length) ∧
      KeepsRate declared (elapsed + c.wait) (received + c.bytes.length) rest

instance decidableKeepsRate (declared : Nat) :
    ∀ elapsed received items, Decidable (KeepsRate declared elapsed received items)
  | _, _, [] => isTrue trivial
  | elapsed, received, c :: rest =>
    have := decidableKeepsRate declared (elapsed + c.wait) (received + c.bytes.length) rest
    inferInstanceAs (Decidable (_ ∧ _))

/-- A body that has enough data and keeps the slowest rate until they came. -/
structure Sustained (declared : Nat) (body : Schedule) : Prop where
  enough : declared ≤ body.supply.length
  rate : KeepsRate declared 0 0 (body.asked declared)

/-- A read timeout that lasts for what the allowance of a length rounds away. -/
def Absorbs (timeout : Span) (declared : Nat) : Prop :=
  1000 * (declared % minBytesPerSecond) / minBytesPerSecond ≤ timeout.ceilMillis

instance decidableAbsorbs (timeout : Span) (declared : Nat) : Decidable (Absorbs timeout declared) :=
  inferInstanceAs (Decidable (_ ≤ _))

/-- A reading that ended because the whole body was too slow. -/
def TooSlow {α : Type} (result : Except Stop α) : Prop :=
  ∃ received declared, result = .error (bodyFault (.tooSlow received declared))

section

variable {timeout : Span} {declared start elapsed received n : Nat} {items rest body : Schedule}
  {c : Chunk}

/-- The beginning of a body keeps the rate if the whole does. -/
theorem KeepsRate.of_append (h : KeepsRate declared elapsed received (items ++ rest)) :
    KeepsRate declared elapsed received items := by
  induction items generalizing elapsed received with
  | nil => trivial
  | cons c items ih => exact ⟨h.1, ih h.2⟩

/-- It is enough that all items of a body keep the rate. -/
theorem Sustained.of_all (henough : declared ≤ body.supply.length) (h : KeepsRate declared 0 0 body) :
    Sustained declared body := by
  obtain ⟨behind, hbody⟩ := (Schedule.asked_shortest henough).1
  rw [← hbody] at h
  exact ⟨henough, h.of_append⟩

/-- Where pieces of data begin a body, it supplies their bytes first. -/
theorem Schedule.supply_append (hdata : ∀ c ∈ items, ∃ bytes, c.item = .data bytes) (rest : Schedule) :
    supply (items ++ rest) = items.bytes ++ supply rest := by
  induction items with
  | nil => rfl
  | cons c items ih =>
    obtain ⟨bytes, hc⟩ := hdata c List.mem_cons_self
    rw [List.cons_append, supply_data hc, ih fun d hd => hdata d (List.mem_cons_of_mem c hd),
      bytes_data hc, List.append_assoc]

/-- The item behind some pieces that are too few is asked for, too, and so it keeps the rate. -/
theorem KeepsRate.item (hdata : ∀ c ∈ items, ∃ bytes, c.item = .data bytes)
    (hmore : (Schedule.bytes items).length < n)
    (h : KeepsRate declared elapsed received (Schedule.asked n (items ++ c :: rest))) :
    minBytesPerSecond * (elapsed + items.duration + c.wait) ≤ 1000 * declared := by
  induction items generalizing n elapsed received with
  | nil =>
    obtain ⟨behind, hasked⟩ : ∃ behind, Schedule.asked n (c :: rest) = c :: behind := by
      by_cases hc : ∃ bytes, c.item = .data bytes
      · obtain ⟨bytes, hc⟩ := hc
        exact ⟨_, Schedule.asked_data (Nat.ne_of_gt hmore) hc⟩
      · exact ⟨[], Schedule.asked_other (Nat.ne_of_gt hmore) fun bytes hb => hc ⟨bytes, hb⟩⟩
    rw [List.nil_append, hasked] at h
    exact Nat.le_trans h.1 (Nat.mul_le_mul_left _ (Nat.min_le_left ..))
  | cons d items ih =>
    obtain ⟨bytes, hd⟩ := hdata d List.mem_cons_self
    rw [Schedule.bytes_data hd, List.length_append] at hmore
    rw [List.cons_append, Schedule.asked_data (by omega) hd] at h
    have hlater := ih (fun e he => hdata e (List.mem_cons_of_mem d he)) (by omega) h.2
    rw [Nat.add_assoc elapsed d.wait] at hlater
    exact hlater

/-! ## What is made up for -/

/-- The seconds of the allowance are whole ones, so rounding up to milliseconds is about the read
timeout only. -/
theorem ceilMillis_allowance (timeout : Span) (declared : Nat) :
    (allowance timeout declared).ceilMillis =
      1000 * (declared / minBytesPerSecond) + timeout.ceilMillis := by
  rw [← Span.ceilMillis_ofMillis_add]
  show (timeout.nanos + Span.nanosPerSecond * _ + _) / _ =
    (Span.nanosPerMilli * (1000 * _) + timeout.nanos + _) / _
  rw [← Nat.mul_assoc, Nat.add_comm timeout.nanos]
  rfl

/-- What an item that keeps the rate needs, a read timeout that absorbs the length gives. -/
theorem Absorbs.le_allowance {ready : Nat} (h : Absorbs timeout declared)
    (hready : minBytesPerSecond * ready ≤ 1000 * declared) :
    ready ≤ (allowance timeout declared).ceilMillis := by
  rw [ceilMillis_allowance]
  unfold Absorbs minBytesPerSecond at *
  omega

/-- A second is enough for all lengths. -/
theorem absorbs_of_second (h : Span.nanosPerSecond ≤ timeout.nanos) (declared : Nat) :
    Absorbs timeout declared := by
  have hceil : (Span.ofSeconds 1).ceilMillis ≤ timeout.ceilMillis := Span.ceilMillis_le h
  refine Nat.le_trans (Nat.le_trans ?_ (by decide : 1000 ≤ (Span.ofSeconds 1).ceilMillis)) hceil
  unfold minBytesPerSecond
  omega

/-- An item is waited for in vain at the end of the allowance only if it is not there when it is due. -/
theorem Sustained.readBody_not_tooSlow (h : Sustained declared body) (habsorbs : Absorbs timeout declared)
    (start : Nat) : ¬TooSlow (readBody timeout declared start body).1 := by
  rintro ⟨received, n, hresult⟩
  obtain ⟨items, r, hcame, hremaining, hgives⟩ :=
    readBody_timedOut (Prod.ext hresult rfl : readBody timeout declared start body = (_, _)) trivial
  obtain ⟨-, ⟨-, -, hexpiry⟩ | ⟨hfault, -, -⟩⟩ := hgives.cases
  · obtain ⟨c, rest, hrest, hlate⟩ := hgives.late
    have hbody : body = items ++ c :: rest := hrest ▸ hcame.rest
    have hmore : (Schedule.bytes items).length < declared := by
      have hreceived : r.received = min declared (0 + (Schedule.bytes items).length) := hcame.received
      have hdeclared : r.declared = declared := hcame.declared
      rw [Reading.remaining, hreceived, hdeclared] at hremaining
      omega
    -- the item is one of data, since those in front of it are too few
    obtain ⟨bytes, hc⟩ : ∃ bytes, c.item = .data bytes := by
      have henough := h.enough
      rw [hbody, Schedule.supply_append hcame.data, List.length_append] at henough
      have hleft : 0 < (Schedule.supply (c :: rest)).length := by omega
      exact Schedule.data_of_supply hleft
    have hdue := KeepsRate.item hcame.data hmore (hbody ▸ h.rate)
    have hasked : r.elapsed = 0 + items.duration := hcame.elapsed
    have hready : c.readyAt r.elapsed = some (0 + items.duration + c.wait) := by
      rw [Chunk.readyAt, hc, hasked]
    have hlater := hlate _ hready
    rw [hexpiry, Reading.deadline, hcame.timeout, hcame.declared] at hlater
    exact absurd (habsorbs.le_allowance hdue) (Nat.not_le_of_lt hlater)
  · cases hfault

/-! ## What is not -/

/-- Empty pieces, one in a millisecond, and then a byte. -/
def fillers (count : Nat) : Schedule :=
  List.replicate count ⟨1, .data []⟩ ++ [⟨1, .data [0]⟩]

/-- All bytes but one at once, and the last one in the millisecond after `ending`. -/
def lastMoment (declared ending : Nat) : Schedule :=
  ⟨0, .data (List.replicate (declared - 1) 0)⟩ :: fillers ending

/-- All but the last of them are empty. -/
theorem supply_fillers (count : Nat) : Schedule.supply (fillers count) = [0] := by
  induction count with
  | zero => rfl
  | succ count ih => exact ih

/-- They keep the rate, if the last one does: an empty piece that comes earlier has as many bytes in
front of it as that. -/
theorem keepsRate_fillers (count : Nat) (hreceived : received + 1 = declared)
    (h : minBytesPerSecond * (elapsed + count + 1) ≤ 1000 * declared) :
    KeepsRate declared elapsed received (fillers count) := by
  induction count generalizing elapsed with
  | zero =>
    refine ⟨?_, trivial⟩
    show minBytesPerSecond * (elapsed + 1) ≤ 1000 * min declared (received + 1)
    rwa [hreceived, Nat.min_self]
  | succ count ih =>
    have hlater : minBytesPerSecond * (elapsed + 1 + count + 1) ≤ 1000 * declared := by
      rwa [Nat.add_right_comm elapsed 1 count]
    refine ⟨?_, ih hlater⟩
    show minBytesPerSecond * (elapsed + 1) ≤ 1000 * min declared (received + 0)
    unfold minBytesPerSecond at *
    omega

/-- Such a body keeps the rate as long as its last byte is not overdue. -/
theorem sustained_lastMoment {ending : Nat} (hpos : 0 < declared)
    (h : minBytesPerSecond * (ending + 1) ≤ 1000 * declared) :
    Sustained declared (lastMoment declared ending) := by
  have hone : declared - 1 + 1 = declared := Nat.succ_pred_eq_of_pos hpos
  apply Sustained.of_all
  · rw [lastMoment, Schedule.supply_data rfl, supply_fillers, List.length_append, List.length_replicate]
    exact Nat.le_of_eq hone.symm
  · have hlater : KeepsRate declared 0 (declared - 1) (fillers ending) :=
      keepsRate_fillers ending hone (by rwa [Nat.zero_add])
    refine ⟨Nat.zero_le _, ?_⟩
    show KeepsRate declared 0 (0 + (List.replicate (declared - 1) _).length) _
    rwa [List.length_replicate, Nat.zero_add]

/-- Fillers up to the end of the time for the whole body keep a wait alive until then. -/
theorem awaitFrom_fillers (count : Nat) {r : Reading} (ht : r.Timely) (hpos : 0 < r.timeout.nanos)
    (hending : r.elapsed + count = r.deadline.ceilMillis) :
    ∃ after, awaitFrom r (fillers count) = .failed (.tooSlow r.received r.declared) after := by
  induction count generalizing r with
  | zero =>
    -- the time for the whole body ends before the next wait would
    have hdeadline : r.deadline.nanos ≤ r.waitDeadline.nanos := by
      have hle := Span.le_ofMillis_ceilMillis r.deadline
      rw [← hending] at hle
      exact Nat.le_trans hle (Nat.le_add_right _ _)
    have hexpiry : r.expiry < r.elapsed + 1 := by
      rw [Reading.expiry, if_pos hdeadline, ← hending]
      exact Nat.lt_succ_self _
    refine ⟨r.gaveUp, ?_⟩
    show awaitFrom r [⟨1, .data [0]⟩] = _
    rw [awaitFrom, if_neg (by simp [ht.reaches_wait])]
    show (if r.expiry < r.elapsed + 1 then _ else _) = _
    rw [if_pos hexpiry, Reading.timeoutFault, if_pos hdeadline]
  | succ count ih =>
    have hwait : 1 ≤ r.timeout.ceilMillis := by
      unfold Span.ceilMillis Span.nanosPerMilli
      omega
    have hready : r.elapsed + 1 ≤ r.expiry := by
      rw [Reading.expiry_eq]
      rw [Reading.deadline] at hending
      omega
    have hnext : awaitFrom r (fillers (count + 1)) =
        awaitFrom (r.took (r.elapsed + 1) (fillers count)) (fillers count) :=
      Reading.awaitFrom_cons (c := ⟨1, .data []⟩) ht.reaches_wait (by simp) hready
    rw [hnext]
    refine ih (ht.continues ⟨rfl, rfl, rfl, Nat.le_trans hready r.expiry_le⟩) hpos ?_
    rw [← Nat.add_assoc, Nat.add_right_comm] at hending
    exact hending

/-- The last byte comes one millisecond too late. -/
theorem readBody_lastMoment (hfit : DeadlinesFit timeout declared start) (hpos : 0 < timeout.nanos)
    (hdeclared : 0 < declared) :
    TooSlow (readBody timeout declared start
      (lastMoment declared (allowance timeout declared).ceilMillis)).1 := by
  let ending := (allowance timeout declared).ceilMillis
  let first : Chunk := ⟨0, .data (List.replicate (declared - 1) 0)⟩
  let b : Buffering := ⟨Reading.begin timeout declared start (lastMoment declared ending), []⟩
  let b' := b.next first (List.replicate (declared - 1) 0) (fillers ending)
  have hbegin : b.reading.remaining = declared := Reading.remaining_begin ..
  have hremaining : b.reading.remaining ≠ 0 := hbegin ▸ Nat.ne_of_gt hdeclared
  have hremaining' : b'.reading.remaining ≠ 0 := by
    rw [Buffering.remaining_next, hbegin, List.length_replicate]
    omega
  -- the clock still stands at the start
  obtain ⟨after, hfailed⟩ : ∃ after, b'.reading.await =
      .failed (.tooSlow b'.reading.received b'.reading.declared) after :=
    awaitFrom_fillers ending ⟨hfit, Nat.zero_le _⟩ hpos (Nat.zero_add _)
  have hend : b'.run = (.error (bodyFault (.tooSlow b'.reading.received b'.reading.declared)), after) :=
    Buffering.run_of_failed hremaining' hfailed
  have hrun : b.run = b'.run :=
    Buffering.run_next hremaining rfl rfl (hfit.timely_begin _).reaches_wait (Nat.zero_le _)
      (show b'.run.1 ≠ _ by simp [hend])
  rw [(startBuffering_ok (hfit.startBuffering_eq _)).2]
  exact ⟨_, _, congrArg Prod.fst (hrun.trans hend)⟩

/-- Where the read timeout does not absorb a length, a body that keeps the rate can be too slow. -/
theorem exists_sustained_tooSlow (hfit : DeadlinesFit timeout declared start) (hpos : 0 < timeout.nanos)
    (h : ¬Absorbs timeout declared) :
    ∃ body, Sustained declared body ∧ TooSlow (readBody timeout declared start body).1 := by
  -- just behind the allowance the last byte is not overdue yet
  have hdue : minBytesPerSecond * ((allowance timeout declared).ceilMillis + 1) ≤ 1000 * declared := by
    rw [ceilMillis_allowance]
    unfold Absorbs minBytesPerSecond at *
    omega
  have hdeclared : 0 < declared := by
    unfold minBytesPerSecond at hdue
    omega
  exact ⟨_, sustained_lastMoment hdeclared hdue, readBody_lastMoment hfit hpos hdeclared⟩

end

end Body

/-! ## Both loops -/

namespace Upload

open LiveIngest.Body
open LiveIngest.Storage

/-- Streaming a body is too slow only where collecting it is. -/
theorem Beside.tooSlow {r : Reading} {read : Except Stop Bytes × Reading}
    {ended : Except Stop Unit × Reading} (h : Beside r read ended) (hslow : TooSlow ended.1) :
    TooSlow read.1 := by
  obtain ⟨received, declared, hslow⟩ := hslow
  cases h with
  | ok hok => cases hslow
  | error herror =>
    cases hslow
    exact ⟨received, declared, herror⟩
  | file hfile => cases hslow

section

variable {timeout : Span} {declared start : Nat}

/-- Bodies of a length that keep the slowest rate are never too slow, whichever way they are read, if
and only if the read timeout absorbs what the allowance rounds away.  A read timeout of a second does so
for every length. -/
theorem sustained_not_tooSlow_iff (hfit : DeadlinesFit timeout declared start) (hpos : 0 < timeout.nanos) :
    ((∀ body, Sustained declared body →
        ¬TooSlow (readBody timeout declared start body).1 ∧
        ∀ part t, ¬TooSlow (streamToPart timeout declared start body part t).1.1) ↔
      Absorbs timeout declared) ∧
    (Span.nanosPerSecond ≤ timeout.nanos → Absorbs timeout declared) := by
  refine ⟨⟨?_, ?_⟩, fun hsecond => absorbs_of_second hsecond declared⟩
  · intro hnever
    refine Nat.le_of_not_lt fun hlt => ?_
    obtain ⟨body, hbody, hslow⟩ := exists_sustained_tooSlow hfit hpos (Nat.not_le_of_lt hlt)
    exact (hnever body hbody).1 hslow
  · intro habsorbs body hbody
    have hread := hbody.readBody_not_tooSlow habsorbs start
    exact ⟨hread, fun part t hslow => hread ((streamToPart_beside hfit body part t).tooSlow hslow)⟩

/-- At the slowest rate 132 bytes take two milliseconds and a bit, and all of that is rounded away.  A
read timeout of one millisecond and a nanosecond makes up for it. -/
theorem sustained_not_tooSlow_nanosecond :
    ∃ timeout : Span, ∃ body : Schedule, timeout.nanos = 1000001 ∧ Sustained 132 body ∧
      body.duration = 2 ∧ ¬TooSlow (readBody timeout 132 0 body).1 ∧
      ¬TooSlow (streamToPart timeout 132 0 body ".a.part" .empty).1.1 := by
  have hbody : Sustained 132 (lastMoment 132 1) := ⟨by decide +kernel, by decide +kernel⟩
  have hfit : DeadlinesFit ⟨1000001⟩ 132 0 := .of_last (by decide)
  obtain ⟨hread, hstream⟩ :=
    (sustained_not_tooSlow_iff hfit (by decide)).1.mpr (by decide) (lastMoment 132 1) hbody
  exact ⟨⟨1000001⟩, lastMoment 132 1, rfl, hbody, rfl, hread, hstream ".a.part" .empty⟩

/-- A read timeout of one millisecond does not, though no item takes longer than that: both loops call a
body too slow that keeps the rate. -/
theorem sustained_tooSlow :
    ∃ timeout : Span, ∃ body : Schedule, timeout = Span.ofMillis 1 ∧ DeadlinesFit timeout 132 0 ∧
      Sustained 132 body ∧ KeepsRate 132 0 0 body ∧ (∀ c ∈ body, c.wait ≤ 1) ∧
      (readBody timeout 132 0 body).1 = .error (bodyFault (.tooSlow 131 132)) ∧
      (streamToPart timeout 132 0 body ".a.part" .empty).1.1 = .error (bodyFault (.tooSlow 131 132)) :=
  ⟨Span.ofMillis 1, lastMoment 132 1, rfl, .of_last (by decide), ⟨by decide +kernel, by decide +kernel⟩,
    by decide +kernel, by decide +kernel, by decide +kernel, by decide +kernel⟩

end

end Upload

end LiveIngest
