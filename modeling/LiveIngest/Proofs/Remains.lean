import LiveIngest.Proofs.Output

/-!
# What a failed append leaves behind

An append opens a file, hands over its payload in pieces, flushes and syncs.  Each step can fail, and none is
taken back.  So what is on disk afterwards, and what does the client find there when it tries again?

1. **Opening.**  A path leads to a device, or to a file that keeps its content and is made if there is none
   (`Tree.openAppend_cases`).  Opening the same path later leads to the same file, because files do not stand in
   the way of a walk (`Tree.openAppend_again`).

2. **Writing.**  If the disk has room for `r` bytes and more are handed over, the first `r` of them are stored
   and the failure is reported, at the next piece or at the flush (`Handle.write_short`).

3. **Appending.**  An append that does not get to a file leaves the disk alone.  One that does and fails has
   put the first `r` bytes behind what was there (`appendPayload_short`).

`failed_append_remains` is the statement, and what a retry makes of it: the payload behind its own beginning.
-/

namespace LiveIngest.Upload

open LiveIngest.Body
open LiveIngest.Storage

/-! ## Appending -/

section

variable {t t₁ : Tree} {destination : String} {payload old : Bytes} {l : Location}

/-- An append that opened a file: what was in it, and how the disk was left so far. -/
theorem openAppend_file (hopen : t.openAppend destination = .ok (.file l, t₁)) :
    l ≠ [] ∧ ∃ old, contentAt t l = some old ∧ t.AgreeOff t₁ l ∧ t₁.get? l = some (.file old) ∧
      t₁.room = t.room := by
  cases Tree.openAppend_cases hopen with
  | there hl hget => exact ⟨hl, _, by rw [contentAt, hget], Tree.AgreeOff.refl t l, hget, rfl⟩
  | made hl hget =>
    exact ⟨hl, [], by rw [contentAt, hget], Tree.agreeOff_put t l _, Tree.get?_put_self hl, rfl⟩

/-- An append that does not get to a file fails and leaves the disk alone. -/
theorem appendPayload_unopened (hnone : ∀ l t₁, t.openAppend destination ≠ .ok (.file l, t₁)) :
    ∃ cause, appendPayload t destination payload = (.error (.failed cause), t) := by
  cases hopen : t.openAppend destination with
  | error e =>
    refine ⟨.write (.file .opening destination e), ?_⟩
    rw [appendPayload, hopen]
    rfl
  | ok opened =>
    obtain ⟨target, t₁⟩ := opened
    cases Tree.openAppend_cases hopen with
    | device d =>
      obtain ⟨cause, hcause⟩ := appendPayload_device destination d payload
      exact ⟨cause, hcause t hopen⟩
    | there => exact absurd hopen (hnone _ _)
    | made => exact absurd hopen (hnone _ _)

/-- An append that opened a file and finds too little room stores what fits and fails. -/
theorem appendPayload_short (hopen : t.openAppend destination = .ok (.file l, t₁)) (hl : l ≠ [])
    (hget : t₁.get? l = some (.file old)) {r : Nat} (hr : t₁.room = some r) (hlt : r < payload.length) :
    (appendPayload t destination payload).2.get? l = some (.file (old ++ payload.take r)) ∧
      ∃ step, (appendPayload t destination payload).1 = .error (fileFault step destination .noSpace) := by
  have hat : (Handle.atEnd (.file l)).At t₁ l old := ⟨rfl, hget, Or.inl rfl⟩
  obtain ⟨hkept, hfails⟩ := Handle.write_short hl hat rfl hr hlt
  rw [appendPayload, hopen]
  simp only
  cases hw : (Handle.atEnd (.file l)).write t₁ payload with
  | mk result t₂ =>
    rw [hw] at hkept hfails
    rcases hfails with rfl | ⟨h', rfl, hpending⟩
    · exact ⟨hkept, .appending, rfl⟩
    · refine ⟨hkept, .flushing, ?_⟩
      simp only [settle, Handle.flush, hpending]

/-! ## What is left -/

/-- The disk after an append that was cut short: the first `r` bytes of the payload stand behind what was
in the file, which is there now if it was not, and nothing else has changed. -/
structure CutShort (t t' : Tree) (payload : Bytes) (l : Location) (old : Bytes) (r : Nat) : Prop where
  content : contentAt t l = some old
  room : t.room = some r
  short : r < payload.length
  rest : t.AgreeOff t' l
  file : t'.get? l = some (.file (old ++ payload.take r))

/-- Nothing is to be seen of it only if the file was there and nothing fitted. -/
theorem CutShort.same_iff {t' : Tree} {r : Nat} (h : CutShort t t' payload l old r) :
    (∀ k, t'.get? k = t.get? k) ↔ t.get? l = some (.file old) ∧ r = 0 := by
  constructor
  · intro hsame
    have hfile := h.file
    rw [hsame l] at hfile
    have hcontent : old ++ payload.take r = old := by
      have hold := h.content
      rw [contentAt, hfile] at hold
      exact Option.some.inj hold
    have htake : payload.take r = [] := List.append_right_eq_self.mp hcontent
    rw [hcontent] at hfile
    refine ⟨hfile, ?_⟩
    have hlen := congrArg List.length htake
    rw [List.length_take, List.length_nil, Nat.min_eq_left (Nat.le_of_lt h.short)] at hlen
    exact hlen
  · rintro ⟨hold, rfl⟩ k
    by_cases hk : k = l
    · rw [hk, h.file, hold, List.take_zero, List.append_nil]
    · exact h.rest k hk

/-- An append that opened a file and failed was cut short at it, and no directory or link has changed. -/
theorem cutShort_of_error {stop : Stop} (hopen : t.openAppend destination = .ok (.file l, t₁))
    (hfail : (appendPayload t destination payload).1 = .error stop) :
    ∃ old r, CutShort t (appendPayload t destination payload).2 payload l old r ∧
      Tree.SameFrame t (appendPayload t destination payload).2 := by
  obtain ⟨hl, old, hcontent, hoff, hget, hroom⟩ := openAppend_file hopen
  obtain ⟨kept, -, hrest, hfile, hisroom, -, hfits⟩ := appendPayload_opened hl hopen hoff hget hroom payload
  have hshort : ∃ r, t.room = some r ∧ r < payload.length := by
    refine Classical.byContradiction fun hno => ?_
    have hfit : t.HasRoom payload.length := fun r hr => Nat.le_of_not_lt fun hlt => hno ⟨r, hr, hlt⟩
    rw [hfits hfit] at hfail
    cases hfail
  obtain ⟨r, hr, hlt⟩ := hshort
  have hkept := (appendPayload_short hopen hl hget (hroom.trans hr) hlt).1
  exact ⟨old, r, ⟨hcontent, hr, hlt, hrest, hkept⟩,
    (touches_of_agreeOff hcontent hrest hkept hisroom).sameFrame⟩

/-- What a failed append leaves behind.  If it did not get to a file, the disk is as it was.  If it did, the
disk was short of room, and what fitted of the payload is in the file: the disk is as it was only if the
file was there already and nothing fitted.  Once there is room, the same append succeeds, and leaves the
payload behind its own beginning. -/
theorem failed_append_remains {stop : Stop}
    (hfail : (appendPayload t destination payload).1 = .error stop) :
    ((∀ l t₁, t.openAppend destination ≠ .ok (.file l, t₁)) ∧
      (appendPayload t destination payload).2 = t) ∨
    ∃ l old r, CutShort t (appendPayload t destination payload).2 payload l old r ∧
      (AppendsWhole t destination payload ↔ t.get? l = some (.file old) ∧ r = 0) ∧
      ∀ again : Tree, (∀ k, again.get? k = (appendPayload t destination payload).2.get? k) →
        again.HasRoom payload.length →
        (appendPayload again destination payload).1 = .ok () ∧
        t.AgreeOff (appendPayload again destination payload).2 l ∧
        (appendPayload again destination payload).2.get? l =
          some (.file (old ++ payload.take r ++ payload)) := by
  by_cases hopen : ∃ l t₁, t.openAppend destination = .ok (.file l, t₁)
  · obtain ⟨l, t₁, hopen⟩ := hopen
    obtain ⟨old, r, hcut, hframe⟩ := cutShort_of_error hopen hfail
    have hl := (openAppend_file hopen).1
    refine Or.inr ⟨l, old, r, hcut, ?_, fun again hagain hroom => ?_⟩
    · rw [← hcut.same_iff]
      exact ⟨fun hwhole => hwhole stop hfail, fun hsame _ _ => hsame⟩
    · have hframe' : Tree.SameFrame t again :=
        ⟨fun k => by rw [hagain k]; exact hframe.dir k, fun k s => by rw [hagain k]; exact hframe.link k s⟩
      have hfile := (hagain l).trans hcut.file
      have hopen' := Tree.openAppend_again hframe' hopen hfile
      obtain ⟨kept, -, hrest, hget, -, hall, hfits⟩ :=
        appendPayload_opened hl hopen' (Tree.AgreeOff.refl again l) hfile rfl payload
      refine ⟨hfits hroom, fun k hk => ?_, ?_⟩
      · exact (hrest k hk).trans ((hagain k).trans (hcut.rest k hk))
      · rw [hget, hall (hfits hroom)]
  · have hnone : ∀ l t₁, t.openAppend destination ≠ .ok (.file l, t₁) :=
      fun l t₁ h => hopen ⟨l, t₁, h⟩
    refine Or.inl ⟨hnone, ?_⟩
    obtain ⟨cause, hcause⟩ := appendPayload_unopened hnone
    rw [hcause]

/-- Through a link to a file that is there, on a disk with room for two bytes. -/
theorem failed_append_remains_behind_link :
    ∃ (t : Tree) (stop : Stop) (l : Location) (old : Bytes) (r : Nat),
      (appendPayload t "live.webm" (Bytes.ofString "hello")).1 = .error stop ∧
      CutShort t (appendPayload t "live.webm" (Bytes.ofString "hello")).2 (Bytes.ofString "hello") l old r ∧
      ∀ again : Tree,
        (∀ k, again.get? k = (appendPayload t "live.webm" (Bytes.ofString "hello")).2.get? k) →
        again.HasRoom 5 →
        (appendPayload again "live.webm" (Bytes.ofString "hello")).2.get? l =
          some (.file (old ++ (Bytes.ofString "hello").take r ++ Bytes.ofString "hello")) := by
  let t : Tree := (({ Tree.empty with room := some 2 }).put (Tree.home ++ ["test.webm"])
    (.file (Bytes.ofString "old"))).put (Tree.home ++ ["live.webm"]) (.link "test.webm")
  have hfail : (appendPayload t "live.webm" (Bytes.ofString "hello")).1 =
      .error (fileFault .flushing "live.webm" .noSpace) := by decide +kernel
  have hopen : t.openAppend "live.webm" = .ok (.file (Tree.home ++ ["test.webm"]), t) := by decide +kernel
  obtain ⟨l, old, r, hcut, -, hagain⟩ :=
    (failed_append_remains hfail).resolve_left fun h => h.1 _ _ hopen
  exact ⟨t, _, l, old, r, hfail, hcut, fun again hsame hroom => (hagain again hsame hroom).2.2⟩

/-- A failed append of five bytes to a file that is not there, on a disk with room for three: they stay,
and when there is room again the retry comes behind them. -/
theorem failed_append_not_undone :
    ∃ (t : Tree) (stop : Stop),
      t.get? (Tree.home ++ ["test.webm"]) = none ∧
      (appendPayload t "test.webm" (Bytes.ofString "hello")).1 = .error stop ∧
      (appendPayload t "test.webm" (Bytes.ofString "hello")).2.content? "test.webm" =
        some (Bytes.ofString "hel") ∧
      (appendPayload { (appendPayload t "test.webm" (Bytes.ofString "hello")).2 with room := none }
        "test.webm" (Bytes.ofString "hello")).2.content? "test.webm" = some (Bytes.ofString "helhello") :=
  ⟨{ Tree.empty with room := some 3 }, fileFault .flushing "test.webm" .noSpace, by decide +kernel,
    by decide +kernel, by decide +kernel, by decide +kernel⟩

end

end LiveIngest.Upload
