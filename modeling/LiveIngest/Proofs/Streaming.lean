import LiveIngest.Proofs.Storing

/-!
# Streaming and collecting agree

An upload is read by one of two loops: one collects the body in memory, the other writes it to a part
file as it comes.  `Storing` follows the second loop and asks what it may leave on any disk.  Here the
question is the other way round: if the disk does its part, does the second loop ever end differently
from the first?

1. **The program.**  `streamToPart` is streaming without the renaming behind it (`stream_eq`).

2. **What the disk has to do.**  The part file can be created, and there is room for what the body
   turns out to have (`Reading.received` at the end of the reading).  That number only grows
   (`received_le_run`), so in each turn there is room for what the turn takes.

3. **The crux.**  `InStep` sets the two loops side by side: the same reading, and the file holds what
   the buffer holds.  Each turn of the first loop is a turn of the second and keeps this
   (`InStep.step_again`, `step_ok`, `step_error`), and so the ends are the same (`InStep.run`).

`streamToPart_agrees` is the main result.
-/

namespace LiveIngest.Upload

open LiveIngest.Body
open LiveIngest.Storage

/-! ## The two loops side by side -/

/-- The two loops stand at the same point: the file holds what the buffer holds, and takes what is
still to come. -/
structure InStep (s : Streaming) (b : Buffering) (t : Tree) (l : Location) : Prop where
  reading : s.reading = b.reading
  file : s.handle.At t l b.buffer
  pending : s.handle.pending = none
  room : t.HasRoom (b.run.2.received - b.reading.received)

namespace InStep

variable {s : Streaming} {b : Buffering} {t : Tree} {l : Location} (part : String)

/-- A piece that is collected is also written. -/
theorem step_again (hl : l ≠ []) (h : InStep s b t l) {b' : Buffering} (hb : b.step = .again b') :
    ∃ s' t', s.step part t = (.again s', t') ∧ InStep s' b' t' l := by
  obtain ⟨hrem, bytes, after, ha, rfl⟩ := Buffering.step_again hb
  obtain ⟨-, hreceived, -, -, -⟩ := Reading.await_piece ha
  have hgrown : (after.accept bytes).2.received =
      b.reading.received + (after.accept bytes).1.length := by
    rw [← hreceived]
    rfl
  have hmore : (after.accept bytes).2.received ≤ b.run.2.received := by
    rw [Buffering.run_of_again hb]
    exact Buffering.received_le_run ⟨(after.accept bytes).2, b.buffer ++ (after.accept bytes).1⟩
  have hroom : t.HasRoom ((after.accept bytes).1.length + (b.run.2.received -
      (after.accept bytes).2.received)) := by
    intro room hr
    have := h.room room hr
    omega
  obtain ⟨handle, hwrite, hpending⟩ :=
    Handle.write_fits h.file hl (fun room hr => Nat.le_trans (Nat.le_add_right _ _) (hroom room hr))
      h.pending
  obtain ⟨kept, -, -, -, hleft, hat⟩ := Handle.write_at h.file hl (after.accept bytes).1
  obtain ⟨hfile, hkept⟩ := hat handle hwrite
  obtain rfl := hkept hpending
  refine ⟨⟨(after.accept bytes).2, handle⟩, (s.handle.write t (after.accept bytes).1).2, ?_, rfl,
    hfile, hpending, ?_⟩
  · rw [Streaming.step, h.reading, if_neg hrem, ha]
    simp only
    rw [← Prod.eta (s.handle.write t (after.accept bytes).1), hwrite]
  · intro room hr
    rw [hleft] at hr
    rw [← Buffering.run_of_again hb]
    exact hroom.using room hr

/-- Where collecting is finished, the file is finished, too. -/
theorem step_ok (h : InStep s b t l) {bytes : Bytes} {reading : Reading}
    (hb : b.step = .done (.ok bytes) reading) :
    s.step part t = (.done (.ok ()) reading, t) ∧ t.get? l = some (.file bytes) := by
  obtain ⟨hrem, rfl, rfl⟩ := Buffering.step_done_ok hb
  refine ⟨?_, h.file.get?⟩
  rw [Streaming.step, h.reading, if_pos hrem, settle_file h.pending h.file.target]

/-- Where collecting fails, streaming fails for the same reason. -/
theorem step_error (h : InStep s b t l) {stop : Stop} {reading : Reading}
    (hb : b.step = .done (.error stop) reading) :
    s.step part t = (.done (.error stop) reading, t) := by
  obtain ⟨hrem, ⟨ha, rfl, rfl⟩ | ⟨fault, ha, rfl⟩⟩ := Buffering.step_done_error hb
  · rw [Streaming.step, h.reading, if_neg hrem, ha]
  · rw [Streaming.step, h.reading, if_neg hrem, ha]

/-- The two loops end alike. -/
theorem run (hl : l ≠ []) (h : InStep s b t l) :
    (∀ bytes reading, b.run = (.ok bytes, reading) →
      ∃ t', s.run part t = ((.ok (), reading), t') ∧ t'.get? l = some (.file bytes)) ∧
    ∀ stop reading, b.run = (.error stop, reading) →
      ∃ t', s.run part t = ((.error stop, reading), t') := by
  fun_induction Buffering.run b generalizing s t with
  | case1 b result reading hstep =>
    cases result with
    | ok bytes =>
      obtain ⟨hs, hget⟩ := h.step_ok part hstep
      refine ⟨?_, by simp⟩
      rintro _ _ ⟨⟩
      exact ⟨t, Streaming.run_of_done hs, hget⟩
    | error stop =>
      have hs := h.step_error part hstep
      refine ⟨by simp, ?_⟩
      rintro _ _ ⟨⟩
      exact ⟨t, Streaming.run_of_done hs⟩
  | case2 b b' hstep ih =>
    obtain ⟨s', t', hs, h'⟩ := h.step_again part hl hstep
    rw [Streaming.run_of_again hs]
    exact ih h'

end InStep

/-! ## Streaming to a part file -/

/-- Streams a body into a part file that is created for it, and leaves it there. -/
def streamToPart (timeout : Span) (declared start : Nat) (body : Schedule) (part : String)
    (t : Tree) : (Except Stop Unit × Reading) × Tree :=
  match startStreaming timeout declared start body part t with
  | (.error stop, t') => ((.error stop, Reading.begin timeout declared start body), t')
  | (.ok s, t') => s.run part t'

section

variable {timeout : Span} {declared start : Nat} {body : Schedule}

/-- Publishing is all that comes behind. -/
theorem stream_eq (destination : String) (t : Tree) :
    stream timeout declared start body destination t =
      match streamToPart timeout declared start body (partPath destination) t with
      | ((.error stop, reading), t') => ((.error stop, reading), t')
      | ((.ok (), reading), t') =>
        (((publish t' (partPath destination) destination).1, reading),
          (publish t' (partPath destination) destination).2) := by
  dsimp only [stream, streamToPart]
  obtain ⟨stop | s, t'⟩ := startStreaming timeout declared start body (partPath destination) t
  · rfl
  · rfl

variable {part : String} {t t₁ : Tree} {l : Location}

/-- If the part file can be created and the disk has room for what the body has, both loops take the
same from the body and end at the same time.  Streaming leaves exactly those bytes in the file that
collecting returns, and fails exactly if collecting fails, for the same reason. -/
theorem streamToPart_agrees (hcreate : t.create part = .ok (.file l, t₁))
    (hroom : t₁.HasRoom (readBody timeout declared start body).2.received) :
    (streamToPart timeout declared start body part t).1.2 =
      (readBody timeout declared start body).2 ∧
    (∀ bytes, (readBody timeout declared start body).1 = .ok bytes ↔
      (streamToPart timeout declared start body part t).1.1 = .ok () ∧
        (streamToPart timeout declared start body part t).2.get? l = some (.file bytes)) ∧
    ∀ stop, (readBody timeout declared start body).1 = .error stop ↔
      (streamToPart timeout declared start body part t).1.1 = .error stop := by
  obtain ⟨hl, hempty⟩ := Tree.create_file hcreate
  rw [streamToPart, startStreaming, hcreate]
  cases hs : startBuffering timeout declared start body with
  | error stop =>
    have hread : readBody timeout declared start body =
        (.error stop, Reading.begin timeout declared start body) := by rw [readBody, hs]
    rw [startBuffering] at hs
    split at hs
    · simp at hs
    · rename_i hreach
      cases hs
      simp [hread, if_neg hreach]
  | ok b =>
    obtain ⟨rfl, hread⟩ := startBuffering_ok hs
    rw [startBuffering] at hs
    split at hs
    · rename_i hreach
      rw [hread] at hroom ⊢
      have hinstep : InStep ⟨Reading.begin timeout declared start body, Handle.fresh (.file l)⟩
          ⟨Reading.begin timeout declared start body, []⟩ t₁ l :=
        ⟨rfl, ⟨rfl, hempty, Or.inr rfl⟩, rfl, hroom⟩
      obtain ⟨hok, herror⟩ := hinstep.run part hl
      simp only [if_pos hreach]
      cases hrun : Buffering.run ⟨Reading.begin timeout declared start body, []⟩ with
      | mk result reading =>
        cases result with
        | ok bytes =>
          obtain ⟨t', ht', hget⟩ := hok bytes reading hrun
          simp [ht', hget, eq_comm]
        | error stop =>
          obtain ⟨t', ht'⟩ := herror stop reading hrun
          simp [ht']
    · simp at hs

/-- Room for three bytes is enough for a body of five of which three are wanted, also where the wait
for the last piece ends with its deadline. -/
theorem streamToPart_agrees_full :
    ∃ t t₁ : Tree, ∃ body : Schedule, t.create ".a.part" = .ok (.file ["home", ".a.part"], t₁) ∧
      t₁.room = some 3 ∧ (Schedule.bytes body).length = 5 ∧
      (streamToPart (Span.ofMillis 50) 3 0 body ".a.part" t).1.1 = .ok () ∧
      (streamToPart (Span.ofMillis 50) 3 0 body ".a.part" t).2.get? ["home", ".a.part"] =
        some (.file [1, 2, 3]) := by
  let t : Tree := { Tree.empty with room := some 3 }
  let body : Schedule := [⟨0, .data [1, 2]⟩, ⟨50, .data [3, 4, 5]⟩]
  let t₁ : Tree := (t.put ["home", ".a.part"] (.file [])).put ["home", ".a.part"] (.file [])
  have hcreate : t.create ".a.part" = .ok (.file ["home", ".a.part"], t₁) := by decide +kernel
  have hread : (readBody (Span.ofMillis 50) 3 0 body).1 = .ok [1, 2, 3] := by decide +kernel
  have hreceived : (readBody (Span.ofMillis 50) 3 0 body).2.received = 3 := by decide +kernel
  have hroom : t₁.HasRoom (readBody (Span.ofMillis 50) 3 0 body).2.received := by
    rintro r ⟨⟩
    exact Nat.le_of_eq hreceived
  obtain ⟨-, hok, -⟩ := streamToPart_agrees hcreate hroom
  exact ⟨t, t₁, body, hcreate, rfl, rfl, (hok [1, 2, 3]).mp hread⟩

end

end LiveIngest.Upload
