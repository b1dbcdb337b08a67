import LiveIngest.Proofs.Dispatching

/-!
# The disk without files in flight

Beside an endpoint that many uploads use at the same time we set one that they use one at a time.
Its disk is the same, except that nothing stands under the names reserved for files in flight
(`Mirrors`).  Storing a payload comes to the same on both: `Mirrors.append` for appends,
`Mirrors.placement_eq` and `Mirrors.publish` for overwrites.

What an upload comes to on its own does not depend on when it is dispatched either, as long as its
deadlines can be computed (`Echoes`).
-/

namespace LiveIngest.Upload

open LiveIngest.Body
open LiveIngest.Storage
open LiveIngest.Storage.Path

-- what the ways of storing do is told by their lemmas
attribute [local irreducible] overwrite appendRead overwriteResult readBody

/-- Here `a` is the disk `t` without the files in flight; neither of the two ever fills up.  Under
the names reserved for files in flight `t` has files at most, so removing them is always possible.
-/
structure Mirrors (t a : Tree) (dir : String) : Prop where
  same : ∀ k, ¬Reserved t dir k → a.get? k = t.get? k
  free : ∀ k, Reserved t dir k → a.get? k = none
  ordinary : ∀ k, Reserved t dir k → Tree.Ordinary (t.get? k)
  room : t.room = none
  room' : a.room = none

namespace Mirrors

variable {t t' a a' : Tree} {dir name : String}

/-- Seen as a change of the disk, leaving out the files in flight touches plain nodes under reserved
names. -/
theorem touches (h : Mirrors t a dir) : t.Touches a (Reserved t dir) := by
  refine ⟨h.same, fun k hk => ?_, by rw [h.room, h.room']⟩
  -- what differs is reserved
  have hres : Reserved t dir k := Classical.byContradiction fun hn => hk (h.same k hn)
  rw [h.free k hres]
  exact ⟨(h.ordinary k hres).plain, Tree.plain_none⟩

/-- Files in flight are no directories and no links, so names lead to the same places on both disks.
-/
theorem samePlaces (h : Mirrors t a dir) : SamePlaces t a dir :=
  SamePlaces.of_touches h.touches fun _ ⟨d, _, hd, _⟩ => ⟨d, hd⟩

/-- Nothing is in flight on the mirror. -/
theorem part_none (h : Mirrors t a dir) {k : Location} (hk : partPlace a dir name = .ok k) :
    a.get? k = none := by
  rw [h.samePlaces.partPlace_eq] at hk
  exact h.free k (reserved_partPlace hk)

/-- What is not reserved stands on the mirror too, in particular at every destination. -/
theorem get?_place (h : Mirrors t a dir) (hn : isPartName name = false) {l : Location}
    (hl : t.place dir name = .ok l) : a.get? l = t.get? l :=
  h.same l (not_reserved_place hl hn)

/-- Both disks go on to be mirrors when they change in the same way outside the reserved names.  The
mirror may change by other operations, and at another time, as long as it comes to the same. -/
theorem step (h : Mirrors t a dir) (hplaces : SamePlaces t t' dir)
    (hord : ∀ k, Reserved t dir k → Tree.Ordinary (t'.get? k)) (hroom : t'.room = none ↔ t.room = none)
    (hroom' : a'.room = none ↔ a.room = none)
    (hsame : ∀ k, ¬Reserved t dir k → a'.get? k = t'.get? k)
    (hfree : ∀ k, Reserved t dir k → a'.get? k = none) : Mirrors t' a' dir :=
  ⟨fun k hk => hsame k fun hk' => hk (hplaces.reserved_iff.mpr hk'),
    fun k hk => hfree k (hplaces.reserved_iff.mp hk),
    fun k hk => hord k (hplaces.reserved_iff.mp hk), hroom.mpr h.room, hroom'.mpr h.room'⟩

/-- The mirror shows nothing of what happens under reserved names: a disk on which only files in
flight have changed has the same mirror. -/
theorem hidden (h : Mirrors t a dir) (hplaces : SamePlaces t t' dir)
    (hord : ∀ k, Reserved t dir k → Tree.Ordinary (t'.get? k)) (hroom : t'.room = none ↔ t.room = none)
    (hsame : ∀ k, ¬Reserved t dir k → t'.get? k = t.get? k) : Mirrors t' a dir :=
  h.step hplaces hord hroom Iff.rfl (fun k hk => (h.same k hk).trans (hsame k hk).symm) h.free

/-- Appending comes to the same on both disks: the same file is found under the destination, and as
neither disk fills up the payload is appended in full, or cannot be appended to on both. -/
theorem append (h : Mirrors t a dir) (hn : IsComponent name) (hres : isPartName name = false)
    (hlinks : NoLinks t dir) (payload : Bytes) :
    (appendPayload a (join dir name) payload).1 = (appendPayload t (join dir name) payload).1 ∧
      Mirrors (appendPayload t (join dir name) payload).2
        (appendPayload a (join dir name) payload).2 dir := by
  have hplace : a.place dir name = t.place dir name := h.samePlaces.place_eq name
  have hlink := hlinks.at name
  have hget : ∀ l, t.place dir name = .ok l → a.get? l = t.get? l :=
    fun l hl => h.get?_place hres hl
  have hlink' : NoLinkAt a (a.place dir name) := by
    intro l target hl
    rw [hplace] at hl
    rw [hget l hl]
    exact hlink l target hl
  rcases exists_content_or t dir name with ⟨l, old, hl, hold⟩ | hnone
  · have hold' : contentAt a l = some old := by
      rw [contentAt, hget l hl]
      exact hold
    -- neither disk has a limit, so both appends succeed
    have hfits : ∀ b : Tree, b.room = none → b.HasRoom payload.length := fun b hb r hr => by
      rw [hb] at hr
      exact absurd hr (by simp)
    obtain ⟨kept, -, hoff, hfile, hroom, hall, hok⟩ := appendPayload_file hn hlink hl hold payload
    obtain ⟨kept', -, hoff', hfile', hroom', hall', hok'⟩ :=
      appendPayload_file hn hlink' (hplace.trans hl) hold' payload
    have hres₁ := hok (hfits t h.room)
    have hres₂ := hok' (hfits a h.room')
    rw [hall hres₁] at hfile
    rw [hall' hres₂] at hfile'
    have hplaces : SamePlaces t (appendPayload t (join dir name) payload).2 dir :=
      SamePlaces.of_touches (appendPayload_touches hn hlink payload) fun _ hk => dirAt_of_place hk
    have hne : ∀ k, Reserved t dir k → k ≠ l := by
      rintro k hk rfl
      exact not_reserved_place hl hres hk
    refine ⟨hres₂.trans hres₁.symm, h.step hplaces (fun k hk => ?_) hroom hroom' (fun k hk => ?_)
      fun k hk => ?_⟩
    · rw [hoff k (hne k hk)]
      exact h.ordinary k hk
    · by_cases hkl : k = l
      · rw [hkl, hfile, hfile']
      · rw [hoff k hkl, hoff' k hkl]
        exact h.same k hk
    · rw [hoff' k (hne k hk)]
      exact h.free k hk
  -- how appending fails depends on the place only, and that is the same
  · obtain ⟨cause, hcause⟩ := appendPayload_fault hn hlink hnone payload
    rw [hcause t rfl fun _ _ => rfl, hcause a hplace hget]
    exact ⟨rfl, h⟩

/-- A destination takes a file on both disks or on neither: only a directory there could refuse it.
-/
theorem placement_eq (h : Mirrors t a dir) (name : String) : placement a dir name = placement t dir name :=
  placement_congr (h.samePlaces.place_eq name) fun l _ => (h.touches.sameFrame.dir l).symm

/-- A part file that is renamed over its destination, where the mirror has the file at once.
Nothing was in flight on the mirror, so there only the destination changes, while here the part file
is gone as well. -/
theorem publish (h : Mirrors t a dir) (hlinks : NoLinks t dir) (hres : isPartName name = false)
    {k l : Location} {bytes : Bytes} (hk : partPlace t dir name = .ok k)
    (hget : t.get? k = some (.file bytes)) (hl : placement t dir name = .ok l)
    (hroom' : a'.room = none ↔ a.room = none) (hget' : a'.get? l = some (.file bytes))
    (hsame' : ∀ j, j ≠ l → a'.get? j = a.get? j) :
    Mirrors ((t.remove k).put l (.file bytes)) a' dir := by
  obtain ⟨hfile, hgone, hsame⟩ := publish_get? bytes hk (placement_ok hl).1
  have htouch := touches_publish hlinks hk hget hl
  have hplaces := SamePlaces.of_touches htouch fun _ _ => dirAt_of_partPlace hk
  -- destinations are not reserved
  have hne : ∀ j, Reserved t dir j → j ≠ l := by
    rintro j hj rfl
    exact not_reserved_place (placement_ok hl).1 hres hj
  refine h.step hplaces (fun j hj => ?_) htouch.room hroom' (fun j hj => ?_) fun j hj => ?_
  · by_cases hjk : j = k
    · rw [hjk, hgone]
      exact Or.inl rfl
    · rw [hsame j (hne j hj) hjk]
      exact h.ordinary j hj
  · by_cases hjl : j = l
    · rw [hjl, hfile, hget']
    · have hjk : j ≠ k := by
        rintro rfl
        exact hj (reserved_partPlace hk)
      rw [hsame j hjl hjk, hsame' j hjl]
      exact h.same j hj
  · rw [hsame' j (hne j hj)]
    exact h.free j hj

/-- An overwrite comes to the same on both disks, since all it depends on are the two places and
what the body is. -/
theorem overwriteResult_eq (h : Mirrors t a dir) (name : String) (declared : Nat)
    (read : Except Stop Bytes) :
    overwriteResult a dir name declared read = overwriteResult t dir name declared read := by
  unfold overwriteResult
  rw [h.samePlaces.partPlace_eq, h.placement_eq]

end Mirrors

end LiveIngest.Upload

namespace LiveIngest

/-- The milliseconds that the longest body may take.  No upload holds up those behind it for longer
than that. -/
def Config.patience (c : Config) : Nat :=
  (Body.allowance c.readTimeout c.maxUploadBytes).ceilMillis

end LiveIngest

namespace LiveIngest.Upload

open LiveIngest.Body
open LiveIngest.Storage
open LiveIngest.Storage.Path
open LiveIngest.Traffic.Machine (payloadOf)

/-! ## Echoes -/

/-- An upload that is dispatched on `a` comes to the given result, and the disk afterwards is a
mirror of `t`. -/
structure Echoes (a : Ingest) (plan : Plan) (body : Schedule) (result : Except Stop Outcome)
    (t : Tree) : Prop where
  came : (a.execute plan body).result = result
  mirrors : Mirrors t (a.execute plan body).tree a.config.outputDir
  counter : (a.execute plan body).counter =
    if plan.mode.isSequenced ∧ result.isOk then a.counter + 1 else a.counter
  now : (a.execute plan body).reading.now ≤ a.clock + a.config.patience

namespace Echoes

section

variable {a : Ingest} {plan : Plan} {body : Schedule} {start : Nat} {t : Tree}

/-- A body that is read within its time is read within the patience of the endpoint: the time for a
body grows with its length, and no length above the limit is accepted. -/
theorem now_le {r : Reading} (hlen : plan.length ≤ a.config.maxUploadBytes)
    (hc : (a.beginReading plan.length body).Continues r) :
    r.now ≤ a.clock + a.config.patience := by
  have hstart : r.start = a.clock := hc.start
  have helapsed : r.elapsed ≤ a.config.patience := 
    Nat.le_trans hc.elapsed (Span.ceilMillis_le (allowance_le hlen))
  rw [Reading.now, hstart]
  exact Nat.add_le_add_left helapsed _

/-- An upload whose body is not read at all takes no time. -/
theorem begin_now_le : (a.beginReading plan.length body).now ≤ a.clock + a.config.patience :=
  Nat.add_le_add_left (Nat.zero_le _) _

/-- Nothing is appended: an empty raw upload is answered without being stored, so the disk stays a
mirror of what it was. -/
theorem empty (hmir : Mirrors t a.tree a.config.outputDir) (hmode : plan.mode = .rawAppend)
    (hlen : plan.length = 0) : Echoes a plan body (.ok ⟨a.config.rawOutputPath, 0⟩) t := by
  have hexec := Ingest.execute_rawEmpty (g := a) hmode hlen body
  refine ⟨by rw [hexec], by rw [hexec]; exact hmir, ?_, by rw [hexec]; exact begin_now_le⟩
  rw [hexec, hmode]
  rfl

/-- A segment is refused, for the hint that it carries.  The endpoint refuses it for the same
reason, because it is about to give the same index. -/
theorem refused {hint : Option Segment.Kind} {fault : SequenceFault}
    (hmir : Mirrors t a.tree a.config.outputDir) (hmode : plan.mode = .sequenced hint)
    (hissue : (Segment.Session.begin a.counter).issue a.config.streamName hint = .error fault) :
    Echoes a plan body (.error (.failed (.sequence fault))) t := by
  rcases issue_begin a.counter a.config.streamName hint with ⟨kind, rfl, hne, hwhy⟩ | ⟨-, hwhy⟩
  · rw [hissue, Except.error.injEq] at hwhy
    subst hwhy
    -- the endpoint compares the hint with the same index
    rcases Ingest.execute_sequenced hmode body with ⟨kind', hkind, -, hexec⟩ | ⟨hagree, -⟩
    · cases hkind
      refine ⟨by rw [hexec], by rw [hexec]; exact hmir, ?_, by rw [hexec]; exact begin_now_le⟩
      rw [hexec, if_neg (by simp [Except.isOk, Except.toBool])]
    · exact absurd (hagree kind rfl) hne
  · rw [hissue] at hwhy
    exact absurd hwhy (by simp)

section

variable (hlen : plan.length ≤ a.config.maxUploadBytes)
  (hfit : DeadlinesFit a.config.readTimeout plan.length a.clock)
  (hfit' : DeadlinesFit a.config.readTimeout plan.length start)
include hlen hfit hfit'

/-- An upload that is collected and comes to nothing.  Its body was read here from `start` on and
would be read there now; the two readings end in the same way by `readBody_restart`. -/
theorem uncollected {stop : Stop} {reading : Reading} (hmir : Mirrors t a.tree a.config.outputDir)
    (hmode : plan.mode.isChunked = false) (h0 : plan.length ≠ 0)
    (hread : readBody a.config.readTimeout plan.length start body = (.error stop, reading)) :
    Echoes a plan body (.error stop) t := by
  have hread' := readBody_restart hfit' hfit body
  have hcontinues := (readBody_timely hfit body).2
  have hexec := Ingest.execute_collected (g := a) hmode h0 body
  rw [hread] at hread'
  unfold Ingest.collected at hexec
  simp only [hread'] at hexec hcontinues
  refine ⟨by rw [hexec], by rw [hexec]; exact hmir, ?_, by rw [hexec]; exact now_le hlen hcontinues⟩
  rw [hexec, if_neg (by simp [Except.isOk, Except.toBool])]

/-- An upload whose body is no form, or not the form that was expected.  What the body holds decides
that, and it is the same body. -/
theorem unfit {bytes : Bytes} {reading : Reading} {rejection : Rejection}
    (hmir : Mirrors t a.tree a.config.outputDir) (hmode : plan.mode.isChunked = false)
    (h0 : plan.length ≠ 0)
    (hread : readBody a.config.readTimeout plan.length start body = (.ok bytes, reading))
    (hpay : payloadOf plan.mode bytes = .error rejection) :
    Echoes a plan body (.error (.failed (.classification rejection))) t := by
  have hread' := readBody_restart hfit' hfit body
  have hcontinues := (readBody_timely hfit body).2
  have hexec := Ingest.execute_collected (g := a) hmode h0 body
  rw [hread] at hread'
  unfold Ingest.collected at hexec
  simp only [hread', hpay] at hexec hcontinues
  refine ⟨by rw [hexec], by rw [hexec]; exact hmir, ?_, by rw [hexec]; exact now_le hlen hcontinues⟩
  rw [hexec, if_neg (by simp [Except.isOk, Except.toBool])]

/-- An upload that is appended, or cannot be: the same bytes are appended to the same file on both
disks, by `Mirrors.append`. -/
theorem appended {bytes payload : Bytes} {reading : Reading} (hc : a.config.Valid)
    (hraw : isPartName a.config.rawOutputFile = false) (hlinks : NoLinks t a.config.outputDir)
    (hmir : Mirrors t a.tree a.config.outputDir) (hmode : plan.mode.isChunked = false)
    (h0 : plan.length ≠ 0)
    (hread : readBody a.config.readTimeout plan.length start body = (.ok bytes, reading))
    (hpay : payloadOf plan.mode bytes = .ok payload) :
    Echoes a plan body (appendRead payload a.config.rawOutputPath reading t).result
      (appendRead payload a.config.rawOutputPath reading t).tree := by
  have hread' := readBody_restart hfit' hfit body
  have hcontinues := (readBody_timely hfit body).2
  have hexec := Ingest.execute_collected (g := a) hmode h0 body
  -- raw uploads do not count as segments
  have hseq : plan.mode.isSequenced = false := by
    cases hm : plan.mode <;> simp_all [Mode.isChunked, Mode.isSequenced]
  rw [hread] at hread'
  unfold Ingest.collected at hexec
  simp only [hread', hpay] at hexec hcontinues
  obtain ⟨happ, hmir'⟩ := hmir.append hc.raw hraw hlinks payload
  obtain ⟨hres, htree, -⟩ := appendRead_result payload a.config.rawOutputPath reading t
  obtain ⟨hres', htree', hreading'⟩ := appendRead_result payload a.config.rawOutputPath
    (reading.restart a.clock) a.tree
  refine ⟨?_, ?_, ?_, ?_⟩
  · rw [hexec, hres', hres]
    exact congrArg _ happ
  · rw [hexec, htree', htree]
    exact hmir'
  · rw [hexec, if_neg (by simp [hseq])]
  · rw [hexec, hreading']
    exact now_le hlen hcontinues

/-! ### Overwrites -/

variable {path : String} {headers : Http.Headers} (hc : a.config.Valid)
  (hplan : classify a.config path headers = .ok plan) (hmode : plan.mode.isChunked = true)
  (hagree : ∀ kind, plan.mode = .sequenced (some kind) → kind = Segment.Kind.ofIndex a.counter)
  (hmir : Mirrors t a.tree a.config.outputDir)
include hc hplan hmode hagree hmir

/-- What a chunked upload comes to can be told from the disk with the files in flight:
`overwriteResult` is the same on both, and that is its result on the mirror, where nothing is in
flight. -/
theorem execute_result (body : Schedule) :
    (a.execute plan body).result =
        overwriteResult t a.config.outputDir (plan.mode.target a.config a.counter) plan.length
          (readBody a.config.readTimeout plan.length start body).1 ∧
      (a.execute plan body).reading.now ≤ a.clock + a.config.patience := by
  obtain ⟨hresult', hreading', htree', hcounter'⟩ :=
    Ingest.execute_chunked (g := a) hmode hagree body
  have hover : Overwritten a.tree _ _ _ plan.length _ body _ :=
    Ingest.overwritten (isComponent_target hc hplan a.counter) fun k hk => hmir.part_none hk
  constructor
  · rw [hresult', hover.result_eq hmir.room', readBody_restart hfit' hfit, hmir.overwriteResult_eq]
  · rw [hreading']
    rcases hover.reading_eq hmir.room' with hreading | hreading
    · rw [hreading]
      exact begin_now_le
    · rw [hreading]
      exact now_le hlen (readBody_timely hfit body).2

/-- An overwrite that fails.  It has left nothing on the mirror, and what it may have left here is a
file in flight. -/
theorem unstored {stop : Stop}
    (hres : overwriteResult t a.config.outputDir (plan.mode.target a.config a.counter) plan.length
      (readBody a.config.readTimeout plan.length start body).1 = .error stop) :
    Echoes a plan body (.error stop) t := by
  obtain ⟨hresult, hnow⟩ := execute_result hlen hfit hfit' hc hplan hmode hagree hmir body
  obtain ⟨hresult', hreading', htree', hcounter'⟩ :=
    Ingest.execute_chunked (g := a) hmode hagree body
  have hover : Overwritten a.tree _ _ _ plan.length _ body _ :=
    Ingest.overwritten (isComponent_target hc hplan a.counter) fun k hk => hmir.part_none hk
  rw [hres] at hresult
  refine ⟨hresult, ?_, by rw [hcounter', ← hresult', hresult], hnow⟩
  rw [hresult'] at hresult
  rw [htree']
  cases hover with
  | stored k l bytes hk hl hok hread hget hsame hroom =>
    exact absurd (hok.symm.trans hresult) (by simp)
  | failed stop' hstop why hsame hroom =>
    exact hmir.step (SamePlaces.refl _ _) hmir.ordinary Iff.rfl hroom
      (fun k hk => (hsame k).trans (hmir.same k hk)) fun k hk => (hsame k).trans (hmir.free k hk)

/-- An overwrite that is stored: the part file is complete, and the destination takes it.  The
mirror has the same bytes under the same destination, without the detour over a part file. -/
theorem stored {k l : Location} {bytes : Bytes} (hlinks : NoLinks t a.config.outputDir)
    (hk : partPlace t a.config.outputDir (plan.mode.target a.config a.counter) = .ok k)
    (hget : t.get? k = some (.file bytes))
    (hread : (readBody a.config.readTimeout plan.length start body).1 = .ok bytes)
    (hl : placement t a.config.outputDir (plan.mode.target a.config a.counter) = .ok l) :
    Echoes a plan body
      (.ok ⟨a.config.destination (plan.mode.target a.config a.counter), plan.length⟩)
      ((t.remove k).put l (.file bytes)) := by
  obtain ⟨hresult, hnow⟩ := execute_result hlen hfit hfit' hc hplan hmode hagree hmir body
  obtain ⟨hresult', hreading', htree', hcounter'⟩ :=
    Ingest.execute_chunked (g := a) hmode hagree body
  have hover : Overwritten a.tree _ _ _ plan.length _ body _ :=
    Ingest.overwritten (isComponent_target hc hplan a.counter) fun k hk => hmir.part_none hk
  have hres := (overwrites_target hplan hmode a.counter).isPartName_eq
  rw [hread, overwriteResult_of_read hk, hl, Except.map] at hresult
  refine ⟨hresult, ?_, by rw [hcounter', ← hresult', hresult]; rfl, hnow⟩
  rw [hresult'] at hresult
  rw [htree']
  cases hover with
  | stored k' l' bytes' hk' hl' hok hread' hget' hsame' hroom' =>
    rw [hmir.placement_eq, hl, Except.ok.injEq] at hl'
    subst hl'
    rw [readBody_restart hfit' hfit, Prod.mk.injEq, hread, Except.ok.injEq] at hread'
    rw [← hread'.1] at hget'
    exact hmir.publish hlinks hres hk hget hl hroom' hget' hsame'
  | failed stop hstop why hsame hroom => exact absurd (hresult.symm.trans hstop) (by simp)

end

end

end Echoes

end LiveIngest.Upload
