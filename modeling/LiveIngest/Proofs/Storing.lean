import LiveIngest.Proofs.Handles
import LiveIngest.Proofs.Names
import LiveIngest.Proofs.Reading

/-!
# Storing a payload

What the two ways of storing do to the disk, seen from the names in the output directory.  Appending
touches the place of its destination and no other; streaming touches the place of the part file;
publishing moves what the part file holds to the destination.

Streaming is set beside collecting in memory: as long as the file operations succeed, one turn of
`Streaming` is one turn of `Buffering`, and the file holds what the buffer would
(`Streaming.step_again_sim`, `Streaming.step_ok_sim`).  Whole uploads follow from the turns:
`Streaming.run_sim` says what the loop comes to, and `overwritten` what the sequence of create, write,
sync and rename comes to, whatever the disk has room for.

All statements are about names in the output directory, and about disks on which no link stands at
the names that are opened.  What a failure leaves is always said of the whole disk: at most the place
of the destination, for appends, or that of the part file, for overwrites, is not what it was.
-/

namespace LiveIngest.Upload

open LiveIngest.Body
open LiveIngest.Storage
open LiveIngest.Storage.Path

/-- What a settled handle tells: nothing is pending, or the flush had reported it, and it leads to a
file, or the sync had failed, since no device can be synced. -/
theorem settle_eq_ok {h : Handle} {path : String} (hs : settle h path = .ok ()) :
    h.pending = none ∧ ∃ l, h.target = .file l := by
  unfold settle Handle.flush Handle.sync at hs
  cases hp : h.pending with
  | some e => simp [hp] at hs
  | none =>
    cases ht : h.target with
    | file l => exact ⟨rfl, l, rfl⟩
    | device d => simp [hp, ht] at hs

/-- The converse: these are the only two things that settling asks for. -/
theorem settle_file {h : Handle} {l : Location} (hp : h.pending = none) (ht : h.target = .file l)
    (path : String) : settle h path = .ok () := by
  rw [settle, Handle.flush, hp]
  simp only [Handle.sync, ht]

/-- Only reading breaks down; file operations fail.  Every error of the two steps is a fault of a
file. -/
theorem settle_ne_overflow (h : Handle) (path : String) : settle h path ≠ .error .overflow := by
  unfold settle
  split
  · simp [fileFault]
  · split <;> simp [fileFault]

/-! ## Appending -/

/-- The bytes that are appended to at a location, if that is possible: none behind a name that is
free, the content of a file, and nothing at all for directories, links and devices. -/
def contentAt (t : Tree) (l : Location) : Option Bytes :=
  match t.get? l with
  | none => some []
  | some (.file data) => some data
  | _ => none

/-- No link stands where a name would be followed.  Opening and creating follow links, so without
this the place of a name is not where its bytes go. -/
def NoLinkAt (t : Tree) (place : Except Errno Location) : Prop :=
  ∀ l target, place = .ok l → t.get? l ≠ some (.link target)

/-- Where something was appended a plain node has changed, and nothing else.  The location took
bytes (`hold`), so there was a file or nothing, and now there is a file: both are plain. -/
theorem touches_of_agreeOff {t t' : Tree} {l : Location} {old data : Bytes}
    (hold : contentAt t l = some old) (hoff : t.AgreeOff t' l) (hget : t'.get? l = some (.file data))
    (hroom : t'.room = none ↔ t.room = none) : t.Touches t' (· = l) := by
  refine ⟨hoff, fun k hk => ?_, hroom⟩
  obtain rfl : k = l := Classical.byContradiction fun hne => hk (hoff k hne)
  rw [hget]
  -- that the old node was plain as well is read off what could be appended to
  refine ⟨?_, Tree.plain_file _⟩
  unfold contentAt at hold
  split at hold
  · rename_i hnone
    rw [hnone]
    exact Tree.plain_none
  · rename_i old' hfile
    rw [hfile]
    exact Tree.plain_file old'
  · cases hold

/-- An append does not break down either: it opens, writes and settles, and each of these can only
fail. -/
theorem appendPayload_ne_overflow (t : Tree) (destination : String) (payload : Bytes) :
    (appendPayload t destination payload).1 ≠ .error .overflow := by
  unfold appendPayload
  split
  · simp [fileFault]
  · split
    · simp [fileFault]
    · exact settle_ne_overflow _ _

section

variable {t : Tree} {dir name : String}

/-- Opening a name that can be appended to.  The file is there afterwards and holds what was there
before; a name that was free gets an empty file, and that is all that opening changes. -/
theorem openAppend_contentAt (hn : IsComponent name) (hlink : NoLinkAt t (t.place dir name))
    {l : Location} (hl : t.place dir name = .ok l) {old : Bytes} (hold : contentAt t l = some old) :
    ∃ t', t.openAppend (join dir name) = .ok (.file l, t') ∧ t.AgreeOff t' l ∧
      t'.get? l = some (.file old) ∧ t'.room = t.room := by
  have hne : l ≠ [] := Tree.place_ne_nil hl
  rw [Tree.openAppend_join hn hlink, hl]
  simp only
  unfold contentAt at hold
  cases hg : t.get? l with
  | none =>
    simp only [hg, Option.some.injEq] at hold
    subst hold
    exact ⟨_, rfl, Tree.agreeOff_put t l _, Tree.get?_put_self hne, rfl⟩
  | some n =>
    cases n with
    | file data =>
      simp only [hg, Option.some.injEq] at hold
      subst hold
      exact ⟨t, rfl, Tree.AgreeOff.refl t l, hg, rfl⟩
    | dir => simp [hg] at hold
    | link target => simp [hg] at hold
    | device d => simp [hg] at hold

/-- What appending to a file that was opened leaves there: its old content and some prefix `kept` of
the payload, whether it succeeds or not.  Success means that the prefix is all of it, and a disk
with room for the payload is enough for success. -/
theorem appendPayload_opened {t₁ : Tree} {path : String} {l : Location} (hne : l ≠ []) {old : Bytes}
    (hopen : t.openAppend path = .ok (.file l, t₁)) (hoff : t.AgreeOff t₁ l)
    (hget : t₁.get? l = some (.file old)) (hroom : t₁.room = t.room) (payload : Bytes) :
    ∃ kept, kept <+: payload ∧ t.AgreeOff (appendPayload t path payload).2 l ∧
      (appendPayload t path payload).2.get? l = some (.file (old ++ kept)) ∧
      ((appendPayload t path payload).2.room = none ↔ t.room = none) ∧
      ((appendPayload t path payload).1 = .ok () → kept = payload) ∧
      (t.HasRoom payload.length → (appendPayload t path payload).1 = .ok ()) := by
  -- the handle stands at the end of the old content, so what it writes comes behind it
  have hat : (Handle.atEnd (.file l)).At t₁ l old := ⟨rfl, hget, Or.inl rfl⟩
  obtain ⟨kept, hpre, hoff', hget', hroom', hok⟩ := Handle.write_at hat hne payload
  have hisroom : ((Handle.atEnd (.file l)).write t₁ payload).2.room = none ↔ t.room = none := by
    rw [hroom', hroom, Option.map_eq_none_iff]
  refine ⟨kept, hpre, ?_⟩
  rw [appendPayload, hopen]
  simp only
  cases hw : (Handle.atEnd (.file l)).write t₁ payload with
  | mk res t₂ =>
    rw [hw] at hoff' hget' hok hisroom
    cases res with
    -- a write that failed was short of room
    | error e =>
      refine ⟨hoff.trans hoff', hget', hisroom, fun h => by simp at h, fun hfit => ?_⟩
      rw [Tree.HasRoom, ← hroom] at hfit
      obtain ⟨h', hh', -⟩ := Handle.write_fits hat hne hfit rfl
      rw [hw] at hh'
      simp at hh'
    | ok h' =>
      obtain ⟨hat', hall⟩ := hok h' rfl
      refine ⟨hoff.trans hoff', hget', hisroom, fun h => hall (settle_eq_ok h).1, fun hfit => ?_⟩
      rw [Tree.HasRoom, ← hroom] at hfit
      obtain ⟨h'', hh', hp⟩ := Handle.write_fits hat hne hfit rfl
      rw [hw] at hh'
      cases hh'
      exact settle_file hp hat'.target _

/-- What appending to a file leaves there: opening and appending put together, in terms of the disk
before both. -/
theorem appendPayload_file (hn : IsComponent name) (hlink : NoLinkAt t (t.place dir name))
    {l : Location} (hl : t.place dir name = .ok l) {old : Bytes} (hold : contentAt t l = some old)
    (payload : Bytes) :
    ∃ kept, kept <+: payload ∧ t.AgreeOff (appendPayload t (join dir name) payload).2 l ∧
      (appendPayload t (join dir name) payload).2.get? l = some (.file (old ++ kept)) ∧
      ((appendPayload t (join dir name) payload).2.room = none ↔ t.room = none) ∧
      ((appendPayload t (join dir name) payload).1 = .ok () → kept = payload) ∧
      (t.HasRoom payload.length → (appendPayload t (join dir name) payload).1 = .ok ()) := by
  obtain ⟨t₁, hopen, hoff, hget, hroom⟩ := openAppend_contentAt hn hlink hl hold
  exact appendPayload_opened (Tree.place_ne_nil hl) hopen hoff hget hroom payload

/-- Appending to a device fails at the latest when it is synced.  The device decides alone: neither
the way it fails nor the disk afterwards depends on what else is on the disk, which is why the cause
comes before the tree in the statement. -/
theorem appendPayload_device (path : String) (d : Device) (payload : Bytes) :
    ∃ cause, ∀ t' : Tree, t'.openAppend path = .ok (.device d, t') →
      appendPayload t' path payload = (.error (.failed cause), t') := by
  have hw := fun t' => Handle.writePieces_device t' (pieces payload)
    (Handle.atEnd (.device d)) rfl
  have hrun : ∀ t' res, ((Handle.atEnd (.device d)).write Tree.empty payload).1 = res →
      (Handle.atEnd (.device d)).write t' payload = (res, t') :=
    fun t' res hres => Prod.ext (((hw Tree.empty).2.1 t').trans hres) (hw t').1
  cases hres : ((Handle.atEnd (.device d)).write Tree.empty payload).1 with
  | error e =>
    refine ⟨.write (.file .appending path e), fun t' hopen' => ?_⟩
    rw [appendPayload, hopen']
    simp only [hrun t' _ hres]
    rfl
  -- all pieces were swallowed, but the sync behind them fails
  | ok h' =>
    have htarget : h'.target = .device d := (hw Tree.empty).2.2 h' hres
    cases hs : settle h' path with
    | ok u => exact absurd (settle_eq_ok hs).2 (by simp [htarget])
    | error stop =>
      cases stop with
      | overflow => exact absurd hs (settle_ne_overflow _ _)
      | failed cause =>
        refine ⟨cause, fun t' hopen' => ?_⟩
        rw [appendPayload, hopen']
        simp only [hrun t' _ hres, hs]

/-- Appending where there is nothing to append to fails, and how it fails depends on nothing but
what stands at the place.  This is what lets two disks be compared that differ elsewhere. -/
theorem appendPayload_fault (hn : IsComponent name) (hlink : NoLinkAt t (t.place dir name))
    (hold : ∀ l, t.place dir name = .ok l → contentAt t l = none) (payload : Bytes) :
    ∃ cause, ∀ t' : Tree, t'.place dir name = t.place dir name →
      (∀ l, t.place dir name = .ok l → t'.get? l = t.get? l) →
      appendPayload t' (join dir name) payload = (.error (.failed cause), t') := by
  -- such a tree has no link at the place either, so it can be opened by the same lemma
  have hlink' : ∀ t' : Tree, t'.place dir name = t.place dir name →
      (∀ l, t.place dir name = .ok l → t'.get? l = t.get? l) →
      NoLinkAt t' (t'.place dir name) := by
    intro t' hplace hsame l target hl
    rw [hplace] at hl
    rw [hsame l hl]
    exact hlink l target hl
  cases hl : t.place dir name with
  | error e =>
    rw [hl] at hlink'
    refine ⟨.write (.file .opening (join dir name) e), fun t' hplace hsame => ?_⟩
    rw [appendPayload, Tree.openAppend_join hn (hlink' t' hplace (by simp)), hplace]
    rfl
  | ok l =>
    have hnone : contentAt t l = none := hold l hl
    have hkept : ∀ t' : Tree, t'.place dir name = .ok l → t'.get? l = t.get? l →
        NoLinkAt t' (t'.place dir name) := by
      intro t' hplace hsame
      refine hlink' t' (hplace.trans hl.symm) fun k hk => ?_
      rw [hl, Except.ok.injEq] at hk
      exact hk ▸ hsame
    unfold contentAt at hnone
    cases hg : t.get? l with
    | none => simp [hg] at hnone
    | some n =>
      cases n with
      | file data => simp [hg] at hnone
      | link target => exact absurd hg (hlink l target hl)
      | dir =>
        refine ⟨.write (.file .opening (join dir name) .isDirectory), fun t' hplace hsame => ?_⟩
        have hopen : t'.openAppend (join dir name) = .error .isDirectory := by
          rw [Tree.openAppend_join hn (hkept t' hplace (hsame l rfl)), hplace]
          simp only [(hsame l rfl).trans hg]
        rw [appendPayload, hopen]
        rfl
      | device d =>
        obtain ⟨cause, hcause⟩ := appendPayload_device (join dir name) d payload
        refine ⟨cause, fun t' hplace hsame => hcause t' ?_⟩
        rw [Tree.openAppend_join hn (hkept t' hplace (hsame l rfl)), hplace]
        simp only [(hsame l rfl).trans hg]

/-- A name can be appended to or it cannot; the two cases are those of `appendPayload_file` and
`appendPayload_fault`, so every append is covered. -/
theorem exists_content_or (t : Tree) (dir name : String) :
    (∃ l old, t.place dir name = .ok l ∧ contentAt t l = some old) ∨
      ∀ l, t.place dir name = .ok l → contentAt t l = none := by
  by_cases hold : ∃ l old, t.place dir name = .ok l ∧ contentAt t l = some old
  · exact Or.inl hold
  · refine Or.inr fun l hl => ?_
    cases hc : contentAt t l with
    | none => rfl
    | some old => exact absurd ⟨l, old, hl, hc⟩ hold

/-- Appending touches the place of its destination only.  Where nothing can be appended to it
touches nothing, and where a failure strikes midway what it has written is still in that one file.
-/
theorem appendPayload_touches (hn : IsComponent name) (hlink : NoLinkAt t (t.place dir name))
    (payload : Bytes) :
    t.Touches (appendPayload t (join dir name) payload).2 fun l => t.place dir name = .ok l := by
  rcases exists_content_or t dir name with ⟨l, old, hl, hold⟩ | hnone
  · obtain ⟨kept, -, hoff, hget, hroom, -⟩ := appendPayload_file hn hlink hl hold payload
    exact (touches_of_agreeOff hold hoff hget hroom).mono fun k hk => hk ▸ hl
  · obtain ⟨cause, hcause⟩ := appendPayload_fault hn hlink hnone payload
    rw [hcause t rfl fun _ _ => rfl]
    exact Tree.Touches.refl t _

/-- An append that is logged: the outcome names the destination and the bytes, the disk and the
reading are those of the append itself. -/
theorem appendRead_result (payload : Bytes) (destination : String) (reading : Reading) (t : Tree) :
    (appendRead payload destination reading t).result =
        (appendPayload t destination payload).1.map (fun _ => ⟨destination, payload.length⟩) ∧
      (appendRead payload destination reading t).tree = (appendPayload t destination payload).2 ∧
      (appendRead payload destination reading t).reading = reading := by
  unfold appendRead
  cases h : appendPayload t destination payload with
  | mk res t' => cases res <;> exact ⟨rfl, rfl, rfl⟩

/-- A logged append does not break down: its result is that of the append under another outcome. -/
theorem appendRead_ne_overflow (payload : Bytes) (destination : String) (reading : Reading)
    (t : Tree) : (appendRead payload destination reading t).result ≠ .error .overflow := by
  rw [(appendRead_result payload destination reading t).1]
  cases h : (appendPayload t destination payload).1 with
  | ok u => simp [Except.map]
  | error stop =>
    have hne := appendPayload_ne_overflow t destination payload
    rw [h] at hne
    simpa [Except.map] using hne

/-! ## The part file -/

/-- The place of the part file of a name: the file has a name of its own and stands beside the
destination. -/
def partPlace (t : Tree) (dir name : String) : Except Errno Location :=
  t.place (dirOf dir) (partName name)

/-- Without a place there is no part file: the error is that of looking for the directory. -/
theorem create_part_error (hn : IsComponent name) {e : Errno}
    (hk : partPlace t dir name = .error e) :
    t.create (partPath (join dir name)) = .error e := by
  have hk' : t.place (dirOf dir) (partName name) = .error e := hk
  rw [partPath_join hn, Tree.create_join (isComponent_partName hn) (by simp [hk']), hk']

/-- What creating a part file makes of its place: an empty file, unless a device stands there.  A
file that stood there is emptied; where a directory stands, or there is no place, creating fails. -/
theorem create_part (hn : IsComponent name) (hlink : NoLinkAt t (partPlace t dir name))
    {target : Target} {t' : Tree}
    (h : t.create (partPath (join dir name)) = .ok (target, t')) :
    ∃ k, partPlace t dir name = .ok k ∧
      ((∃ d, target = .device d ∧ t.get? k = some (.device d) ∧ t' = t) ∨
        (target = .file k ∧ t'.get? k = some (.file []) ∧
          t.Touches t' (· = k) ∧ t'.room = t.room)) := by
  rw [partPath_join hn, Tree.create_join (isComponent_partName hn) hlink] at h
  cases hk : t.place (dirOf dir) (partName name) with
  | error e => simp [hk] at h
  | ok k =>
    have hne : k ≠ [] := Tree.place_ne_nil hk
    refine ⟨k, hk, ?_⟩
    simp only [hk] at h
    cases hg : t.get? k with
    | none =>
      simp only [hg, Except.ok.injEq, Prod.mk.injEq] at h
      obtain ⟨rfl, rfl⟩ := h
      have hget : ((t.put k (.file [])).put k (.file [])).get? k = some (.file []) :=
        Tree.get?_put_self hne
      -- the file is made and then emptied, both at the same place
      refine Or.inr ⟨rfl, hget, ⟨fun j hj => ?_, fun j hj => ?_, Iff.rfl⟩, rfl⟩
      · rw [Tree.get?_put_of_ne hj, Tree.get?_put_of_ne hj]
      · have hjk : j = k := Classical.byContradiction fun he => hj <| by
          rw [Tree.get?_put_of_ne he, Tree.get?_put_of_ne he]
        rw [hjk, hg, hget]
        exact ⟨Tree.plain_none, Tree.plain_file _⟩
    | some n =>
      cases n with
      | file data =>
        simp only [hg, Except.ok.injEq, Prod.mk.injEq] at h
        obtain ⟨rfl, rfl⟩ := h
        refine Or.inr ⟨rfl, Tree.get?_put_self hne, ⟨fun j hj => Tree.get?_put_of_ne hj,
          fun j hj => ?_, Iff.rfl⟩, rfl⟩
        have hjk : j = k := Classical.byContradiction fun he => hj (Tree.get?_put_of_ne he)
        rw [hjk, hg, Tree.get?_put_self hne]
        exact ⟨Tree.plain_file _, Tree.plain_file _⟩
      | device d =>
        simp only [hg, Except.ok.injEq, Prod.mk.injEq] at h
        obtain ⟨rfl, rfl⟩ := h
        exact Or.inl ⟨d, rfl, rfl, rfl⟩
      | dir => simp [hg] at h
      | link target => simp [hg] at h

/-- Where there is a file or nothing a part file can be created: there is no link to be followed,
and a file is emptied. -/
theorem create_part_of_ordinary (hn : IsComponent name) {k : Location}
    (hk : partPlace t dir name = .ok k) (hg : Tree.Ordinary (t.get? k)) :
    ∃ t', t.create (partPath (join dir name)) = .ok (.file k, t') := by
  have hk' : t.place (dirOf dir) (partName name) = .ok k := hk
  have hlink : NoLinkAt t (t.place (dirOf dir) (partName name)) := by
    intro l target hl
    rw [hk', Except.ok.injEq] at hl
    rw [← hl]
    exact hg.plain.2 target
  rw [partPath_join hn, Tree.create_join (isComponent_partName hn) hlink, hk']
  rcases hg with hg | ⟨data, hg⟩
  · simp only [hg]
    exact ⟨_, rfl⟩
  · simp only [hg]
    exact ⟨_, rfl⟩

/-- If a part file cannot be created where there is a file or nothing, it has no place: that is the
only obstacle left. -/
theorem partPlace_of_create_error (hn : IsComponent name)
    (hord : ∀ k, partPlace t dir name = .ok k → Tree.Ordinary (t.get? k)) {e : Errno}
    (h : t.create (partPath (join dir name)) = .error e) : partPlace t dir name = .error e := by
  cases hk : partPlace t dir name with
  | error e' =>
    rw [create_part_error hn hk, Except.error.injEq] at h
    rw [h]
  | ok k =>
    obtain ⟨t', ht'⟩ := create_part_of_ordinary hn hk (hord k hk)
    rw [h] at ht'
    exact absurd ht' (by simp)

/-- Removing a part file leaves nothing at its place, unless a directory stands there, which is not
removed.  Failing to remove is not an error, so this is the whole story. -/
theorem dropPart_get? (hn : IsComponent name) (l : Location) :
    (dropPart t (partPath (join dir name))).1.get? l =
      if partPlace t dir name = .ok l ∧ t.get? l ≠ some .dir then none else t.get? l := by
  rw [dropPart, partPath_join hn, Tree.unlink_join (isComponent_partName hn)]
  cases hk : t.place (dirOf dir) (partName name) with
  | error e =>
    have hno : ¬(partPlace t dir name = .ok l ∧ t.get? l ≠ some .dir) := by
      rintro ⟨h, -⟩
      exact absurd (hk.symm.trans h) (by simp)
    rw [if_neg hno]
    cases e <;> rfl
  | ok k =>
    have hne : k ≠ [] := Tree.place_ne_nil hk
    -- all that matters is whether the location is that of the part file
    have hiff : partPlace t dir name = .ok l ↔ k = l := by
      rw [partPlace, hk, Except.ok.injEq]
    simp only [hiff]
    by_cases hkl : k = l
    · subst hkl
      cases hg : t.get? k with
      | none => simp [hg]
      | some n => cases n <;> simp [hg, Tree.get?_remove_self hne]
    · have hlk : l ≠ k := fun h => hkl h.symm
      rw [if_neg fun h => hkl h.1]
      cases hg : t.get? k with
      | none => rfl
      | some n => cases n <;> simp [Tree.get?_remove_of_ne hlk]

/-- Removing a part file gives no room back: `room` counts what can still be written, not what is
free. -/
theorem room_dropPart (hn : IsComponent name) :
    (dropPart t (partPath (join dir name))).1.room = t.room := by
  rw [dropPart, partPath_join hn, Tree.unlink_join (isComponent_partName hn)]
  cases t.place (dirOf dir) (partName name) with
  | error e => cases e <;> rfl
  | ok k =>
    cases hg : t.get? k with
    | none => simp only [hg]
    | some n => cases n <;> simp [hg]

/-- Removing a part file touches its place only, and that is plain before and after: what was there
was no directory, or it had stayed, and no link. -/
theorem dropPart_touches (hn : IsComponent name) (hlink : NoLinkAt t (partPlace t dir name)) :
    t.Touches (dropPart t (partPath (join dir name))).1 fun l => partPlace t dir name = .ok l := by
  refine ⟨fun l hl => ?_, fun l hl => ?_, by rw [room_dropPart hn]⟩
  · rw [dropPart_get? hn, if_neg fun h => hl h.1]
  · rw [dropPart_get? hn] at hl ⊢
    -- a location that has changed is one where something was removed
    split at hl
    · rename_i h
      rw [if_pos h]
      exact ⟨⟨h.2, fun s => hlink l s h.1⟩, Tree.plain_none⟩
    · exact absurd rfl hl

/-- Where a complete part file is renamed to: the place of the destination, which replaces whatever
stands there except a directory. -/
def placement (t : Tree) (dir name : String) : Except Stop Location :=
  match t.place dir name with
  | .error e => .error (fileFault .renaming (join dir name) e)
  | .ok l =>
    if t.get? l = some .dir then .error (fileFault .renaming (join dir name) .isDirectory)
    else .ok l

/-- A destination that takes a file has a place, and no directory stands there. -/
theorem placement_ok {l : Location} (h : placement t dir name = .ok l) :
    t.place dir name = .ok l ∧ t.get? l ≠ some .dir := by
  unfold placement at h
  split at h
  · simp at h
  · rename_i l' hl'
    split at h
    · simp at h
    · rename_i hdir
      cases h
      exact ⟨hl', hdir⟩

/-- Where an upload goes depends only on its place and on whether a directory stands there. -/
theorem placement_congr {t' : Tree} (hplace : t'.place dir name = t.place dir name)
    (hdir : ∀ l, t.place dir name = .ok l → (t'.get? l = some .dir ↔ t.get? l = some .dir)) :
    placement t' dir name = placement t dir name := by
  unfold placement
  rw [hplace]
  cases hl : t.place dir name with
  | error e => rfl
  | ok l => simp only [hdir l hl]

/-- Renaming a part file that is there.  Source and destination are names in the same directory, so
only the destination can be in the way. -/
theorem publish_part (hn : IsComponent name) {k : Location} {node : Node}
    (hk : partPlace t dir name = .ok k) (hnode : t.get? k = some node) :
    publish t (partPath (join dir name)) (join dir name) =
      match placement t dir name with
      | .error stop => (.error stop, t)
      | .ok l => (.ok (), (t.remove k).put l node) := by
  rw [publish, partPath_join hn, Tree.rename_join (isComponent_partName hn) hn hk hnode]
  unfold placement
  cases t.place dir name with
  | error e => rfl
  | ok l => by_cases hd : t.get? l = some .dir <;> simp [hd]

/-- Publishing that fails leaves the disk as it is: a rename is one operation and does all or
nothing. -/
theorem publish_error {part destination : String} {stop : Stop} {t' : Tree}
    (h : publish t part destination = (.error stop, t')) :
    t' = t ∧ ∃ cause, stop = .failed cause := by
  unfold publish at h
  split at h
  · cases h
    exact ⟨rfl, _, rfl⟩
  · simp at h

/-- What publishing moves.  The two places are different, since no name is its own part-file name,
so the file is at the one, nothing at the other, and the rest as before. -/
theorem publish_get? {k l : Location} (data : Bytes) (hk : partPlace t dir name = .ok k)
    (hl : t.place dir name = .ok l) :
    ((t.remove k).put l (.file data)).get? l = some (.file data) ∧
      ((t.remove k).put l (.file data)).get? k = none ∧
      ∀ j, j ≠ l → j ≠ k → ((t.remove k).put l (.file data)).get? j = t.get? j := by
  have hne : k ≠ l := fun he => Tree.place_ne (partName_ne_self name) hl hk he.symm
  refine ⟨Tree.get?_put_self (Tree.place_ne_nil hl), ?_, fun j hjl hjk => ?_⟩
  · rw [Tree.get?_put_of_ne hne, Tree.get?_remove_self (Tree.place_ne_nil hk)]
  · rw [Tree.get?_put_of_ne hjl, Tree.get?_remove_of_ne hjk]

end

/-! ## Streaming -/

/-- A handle that has written `buffer` to a location: all of it, or a failure is pending.  A device
that stands there has swallowed or refused it.  On a disk that never fills up nothing is pending
(`hfits`). -/
inductive Carries (h : Handle) (t : Tree) (k : Location) (buffer : Bytes) : Prop
  | file {content : Bytes} (hat : h.At t k content) (hall : h.pending = none → content = buffer)
      (hfits : t.room = none → h.pending = none)
  | device {d : Device} (ht : h.target = .device d) (hnode : t.get? k = some (.device d))

/-- Only the one location matters, and whether the disk has a limit at all; so what other uploads do
elsewhere does not disturb a handle. -/
theorem Carries.of_eq {h : Handle} {t t' : Tree} {k : Location} {buffer : Bytes}
    (hc : Carries h t k buffer) (hk : t'.get? k = t.get? k) (hroom : t'.room = none ↔ t.room = none) :
    Carries h t' k buffer := by
  cases hc with
  | file hat hall hfits =>
    exact .file ⟨hat.target, hk.trans hat.get?, hat.offset⟩ hall fun h => hfits (hroom.mp h)
  | device ht hnode => exact .device ht (hk.trans hnode)

/-- What a handle writes to is a file, unless a device stood there before. -/
theorem Carries.ordinary {h : Handle} {t t' : Tree} {k : Location} {buffer : Bytes}
    (hc : Carries h t' k buffer)
    (hback : ∀ d, t'.get? k = some (.device d) → t.get? k = some (.device d))
    (hord : Tree.Ordinary (t.get? k)) : Tree.Ordinary (t'.get? k) := by
  cases hc with
  | file hat _ _ => exact Or.inr ⟨_, hat.get?⟩
  | device _ hnode => exact absurd (hback _ hnode) (hord.ne_device _)

/-- A failure that is pending is not forgotten: the next write reports it instead of succeeding, so
if nothing is pending after a write nothing was before. -/
theorem Handle.pending_of_write {h h' : Handle} {t t' : Tree} {bytes : Bytes}
    (hw : h.write t bytes = (.ok h', t')) (hp : h'.pending = none) : h.pending = none := by
  rw [Handle.write] at hw
  cases hps : Storage.pieces bytes with
  -- without bytes there is no piece, and the handle is what it was
  | nil =>
    rw [hps, Handle.writePieces, Prod.mk.injEq, Except.ok.injEq] at hw
    rw [hw.1]
    exact hp
  | cons piece rest =>
    rw [hps, Handle.writePieces] at hw
    split at hw
    · simp at hw
    · assumption

/-- Writing more carries more: the buffer grows by what was written, and nothing but the location is
touched. -/
theorem Carries.write {h h' : Handle} {t t' : Tree} {k : Location} {buffer bytes : Bytes}
    (hc : Carries h t k buffer) (hk : k ≠ []) (hw : h.write t bytes = (.ok h', t')) :
    Carries h' t' k (buffer ++ bytes) ∧ t.Touches t' (· = k) ∧
      ∀ d, t'.get? k = some (.device d) → t.get? k = some (.device d) := by
  cases hc with
  | file hat hall hfits =>
    obtain ⟨kept, -, hoff, hget, hroom, hok⟩ := Handle.write_at hat hk bytes
    rw [hw] at hoff hget hroom hok
    obtain ⟨hat', hall'⟩ := hok h' rfl
    have hisroom : t'.room = none ↔ t.room = none := by rw [hroom, Option.map_eq_none_iff]
    refine ⟨.file hat' (fun hp => ?_) (fun hr => ?_), ⟨hoff, fun j hj => ?_, hisroom⟩,
      fun d hd => absurd (hget.symm.trans hd) (by simp)⟩
    · rw [hall' hp, hall (Handle.pending_of_write hw hp)]
    -- a disk without limit has room for these bytes too, so nothing gets pending
    · have hr' : t.room = none := hisroom.mp hr
      have hfit : t.HasRoom bytes.length := fun r h => by rw [hr'] at h; exact absurd h (by simp)
      obtain ⟨h'', hh'', hp⟩ := Handle.write_fits hat hk hfit (hfits hr')
      rw [hw] at hh''
      cases hh''
      exact hp
    · have hjk : j = k := Classical.byContradiction fun he => hj (hoff j he)
      rw [hjk, hget, hat.get?]
      exact ⟨Tree.plain_file _, Tree.plain_file _⟩
  -- a device swallows the bytes and leaves the tree as it is
  | device ht hnode =>
    obtain ⟨htree, -, hok⟩ := Handle.writePieces_device t (Storage.pieces bytes) h ht
    have hw' : h.writePieces t (Storage.pieces bytes) = (.ok h', t') := hw
    rw [hw'] at htree hok
    have htree' : t' = t := htree
    subst htree'
    exact ⟨.device (hok h' rfl) hnode, Tree.Touches.refl _ _, fun _ hd => hd⟩

/-- A write that fails touches no other location, and only a full disk or a device makes it fail. -/
theorem Carries.write_fails {h : Handle} {t t' : Tree} {k : Location} {buffer bytes : Bytes}
    {e : Errno} (hc : Carries h t k buffer) (hk : k ≠ []) (hw : h.write t bytes = (.error e, t')) :
    t.Touches t' (· = k) ∧ (Tree.Ordinary (t.get? k) → Tree.Ordinary (t'.get? k)) ∧
      (t.room = none → ∃ d, t.get? k = some (.device d)) := by
  cases hc with
  | file hat hall hfits =>
    obtain ⟨kept, -, hoff, hget, hroom, -⟩ := Handle.write_at hat hk bytes
    rw [hw] at hoff hget hroom
    refine ⟨⟨hoff, fun j hj => ?_, by rw [hroom, Option.map_eq_none_iff]⟩,
      fun _ => Or.inr ⟨_, hget⟩, fun hr => ?_⟩
    · have hjk : j = k := Classical.byContradiction fun he => hj (hoff j he)
      rw [hjk, hget, hat.get?]
      exact ⟨Tree.plain_file _, Tree.plain_file _⟩
    · have hfit : t.HasRoom bytes.length := fun r h => by rw [hr] at h; exact absurd h (by simp)
      obtain ⟨h'', hh'', -⟩ := Handle.write_fits hat hk hfit (hfits hr)
      rw [hw] at hh''
      simp at hh''
  | device ht hnode =>
    obtain ⟨htree, -, -⟩ := Handle.writePieces_device t (Storage.pieces bytes) h ht
    have hw' : h.writePieces t (Storage.pieces bytes) = (.error e, t') := hw
    rw [hw'] at htree
    have htree' : t' = t := htree
    subst htree'
    exact ⟨Tree.Touches.refl _ _, id, fun _ => ⟨_, hnode⟩⟩

/-- A handle can be settled when nothing is pending and no device stands at its location, and then
the file holds everything that was handed over, not only what had been stored by then. -/
theorem Carries.settle_ok {h : Handle} {t : Tree} {k : Location} {buffer : Bytes} {path : String}
    (hc : Carries h t k buffer) (hs : settle h path = .ok ()) : t.get? k = some (.file buffer) := by
  obtain ⟨hp, l, hl⟩ := settle_eq_ok hs
  cases hc with
  | file hat hall _ => rw [hat.get?, hall hp]
  | device ht _ => exact absurd (hl.symm.trans ht) (by simp)

/-- On a disk that never fills up only a device keeps a handle from being settled: nothing is
pending and a file can be synced. -/
theorem Carries.settle_fails {h : Handle} {t : Tree} {k : Location} {buffer : Bytes} {path : String}
    {stop : Stop} (hc : Carries h t k buffer) (hs : settle h path = .error stop)
    (hroom : t.room = none) : ∃ d, t.get? k = some (.device d) := by
  cases hc with
  | file hat _ hfits =>
    rw [settle_file (hfits hroom) hat.target] at hs
    exact absurd hs (by simp)
  | device _ hnode => exact ⟨_, hnode⟩

namespace Streaming

section

variable {s : Streaming} {b : Buffering} {part : String} {t t' : Tree} {k : Location}

/-- A turn that goes on is a turn of collecting in memory: the same chunk is read, and what
collecting would add to its buffer is what the file carries more. -/
theorem step_again_sim (hk : k ≠ []) (hr : s.reading = b.reading)
    (hc : Carries s.handle t k b.buffer) {s' : Streaming} (h : s.step part t = (.again s', t')) :
    ∃ b', b.step = .again b' ∧ s'.reading = b'.reading ∧ Carries s'.handle t' k b'.buffer ∧
      t.Touches t' (· = k) ∧ ∀ d, t'.get? k = some (.device d) → t.get? k = some (.device d) := by
  rw [step, hr] at h
  rw [Buffering.step]
  by_cases hrem : b.reading.remaining = 0
  · simp [hrem] at h
  · simp only [if_neg hrem] at h ⊢
    cases ha : b.reading.await with
    | overflow => simp [ha] at h
    | failed fault after => simp [ha] at h
    | piece bytes after =>
      simp only [ha] at h
      split at h
      · simp at h
      · rename_i handle t₁ hw
        cases h
        exact ⟨_, rfl, rfl, hc.write hk hw⟩

/-- A turn that ends well ends the collecting, and the file holds all that was collected.  Only the
turn that finds nothing left to be read ends well, by settling the file. -/
theorem step_ok_sim (hr : s.reading = b.reading) (hc : Carries s.handle t k b.buffer)
    {reading : Reading} (h : s.step part t = (.done (.ok ()) reading, t')) :
    b.step = .done (.ok b.buffer) reading ∧ t' = t ∧ t.get? k = some (.file b.buffer) := by
  rw [step, hr] at h
  rw [Buffering.step]
  by_cases hrem : b.reading.remaining = 0
  · simp only [if_pos hrem, Prod.mk.injEq, Turn.done.injEq] at h
    obtain ⟨⟨hs, hreading⟩, ht⟩ := h
    rw [if_pos hrem, hreading]
    exact ⟨rfl, ht.symm, hc.settle_ok hs⟩
  -- bytes are missing: whatever comes, this turn goes on or fails
  · simp only [if_neg hrem] at h
    cases ha : b.reading.await with
    | overflow => simp [ha] at h
    | failed fault after => simp [ha] at h
    | piece bytes after =>
      simp only [ha] at h
      split at h <;> simp at h

/-- A turn that fails does so because collecting fails, or the disk is full, or there is no file.
Only the first can be a breakdown; and whatever the reason, the part file is all that is touched. -/
theorem step_error_sim (hk : k ≠ []) (hr : s.reading = b.reading)
    (hc : Carries s.handle t k b.buffer) {stop : Stop} {reading : Reading}
    (h : s.step part t = (.done (.error stop) reading, t')) :
    t.Touches t' (· = k) ∧ (Tree.Ordinary (t.get? k) → Tree.Ordinary (t'.get? k)) ∧
      (b.step = .done (.error stop) reading ∨
      stop ≠ .overflow ∧ (t.room = none → ∃ d, t.get? k = some (.device d))) := by
  rw [step, hr] at h
  rw [Buffering.step]
  by_cases hrem : b.reading.remaining = 0
  · simp only [if_pos hrem, Prod.mk.injEq, Turn.done.injEq] at h ⊢
    obtain ⟨⟨hs, -⟩, rfl⟩ := h
    -- everything was read, so it was the settling
    refine ⟨Tree.Touches.refl _ _, id, Or.inr ⟨?_, hc.settle_fails hs⟩⟩
    rintro rfl
    exact settle_ne_overflow _ _ hs
  · simp only [if_neg hrem] at h ⊢
    cases ha : b.reading.await with
    -- the body fails, in memory as on disk
    | overflow =>
      simp only [ha, Prod.mk.injEq, Turn.done.injEq] at h ⊢
      obtain ⟨⟨hs, hreading⟩, rfl⟩ := h
      cases hs
      exact ⟨Tree.Touches.refl _ _, id, Or.inl ⟨rfl, hreading⟩⟩
    | failed fault after =>
      simp only [ha, Prod.mk.injEq, Turn.done.injEq] at h ⊢
      obtain ⟨⟨hs, hreading⟩, rfl⟩ := h
      cases hs
      exact ⟨Tree.Touches.refl _ _, id, Or.inl ⟨rfl, hreading⟩⟩
    -- the chunk was read, so it was the write
    | piece bytes after =>
      simp only [ha] at h
      split at h
      · rename_i e t₁ hw
        cases h
        obtain ⟨htouch, hord, hdev⟩ := hc.write_fails hk hw
        exact ⟨htouch, hord, Or.inr ⟨by simp [fileFault], hdev⟩⟩
      · simp at h

/-- One turn of the loop, when it goes on. -/
theorem run_of_again {s' : Streaming} (h : s.step part t = (.again s', t')) :
    s.run part t = s'.run part t' := by
  rw [run]
  split
  · rename_i heq
    rw [h] at heq
    simp at heq
  · rename_i heq
    rw [h, Prod.mk.injEq, Turn.again.injEq] at heq
    rw [heq.1, heq.2]

/-- The last turn of the loop. -/
theorem run_of_done {result : Except Stop Unit} {reading : Reading}
    (h : s.step part t = (.done result reading, t')) :
    s.run part t = ((result, reading), t') := by
  rw [run]
  split
  · rename_i heq
    rw [h, Prod.mk.injEq, Turn.done.injEq] at heq
    rw [heq.1.1, heq.1.2, heq.2]
  · rename_i heq
    rw [h] at heq
    simp at heq

end

/-- What the whole loop leaves: the collected bytes in the file, or a failure that is that of
collecting, unless the disk is full or a device stands at the location. -/
structure Ran (b : Buffering) (t : Tree) (k : Location) (result : Except Stop Unit)
    (reading : Reading) (t' : Tree) : Prop where
  touches : t.Touches t' (· = k)
  ok : result = .ok () →
    ∃ bytes, b.run = (.ok bytes, reading) ∧ t'.get? k = some (.file bytes)
  error : ∀ stop, result = .error stop → b.run = (.error stop, reading) ∨
    stop ≠ .overflow ∧ (t.room = none → ∃ d, t.get? k = some (.device d))

/-- Streaming to the end comes to what collecting in memory comes to.  Induction on the loop: the
turns correspond to each other, and `Carries` is what they keep. -/
theorem run_sim (part : String) {k : Location} (hk : k ≠ []) (s : Streaming) (t : Tree)
    (b : Buffering) (hr : s.reading = b.reading) (hc : Carries s.handle t k b.buffer) :
    Ran b t k (s.run part t).1.1 (s.run part t).1.2 (s.run part t).2 := by
  fun_induction Streaming.run s part t generalizing b with
  | case1 s t result reading t' hstep =>
    cases result with
    | ok u =>
      obtain ⟨hb, rfl, hget⟩ := step_ok_sim hr hc hstep
      exact ⟨Tree.Touches.refl _ _, fun _ => ⟨b.buffer, Buffering.run_of_done hb, hget⟩, by simp⟩
    | error stop =>
      obtain ⟨htouch, -, hwhy⟩ := step_error_sim hk hr hc hstep
      refine ⟨htouch, by simp, fun stop' hstop => ?_⟩
      cases hstop
      rcases hwhy with hb | ⟨hne, hdev⟩
      · exact Or.inl (Buffering.run_of_done hb)
      · exact Or.inr ⟨hne, hdev⟩
  | case2 s t s' t' hstep ih =>
    obtain ⟨b', hb, hr', hc', htouch, hback⟩ := step_again_sim hk hr hc hstep
    obtain ⟨htouch', hok, herr⟩ := ih b' hr' hc'
    refine ⟨htouch.trans htouch', fun h => ?_, fun stop h => ?_⟩
    · obtain ⟨bytes, hrun, hget⟩ := hok h
      exact ⟨bytes, (Buffering.run_of_again hb).trans hrun, hget⟩
    · rcases herr stop h with hrun | ⟨hne, hdev⟩
      · exact Or.inl ((Buffering.run_of_again hb).trans hrun)
      · refine Or.inr ⟨hne, fun hroom => ?_⟩
        -- a device that is met now stood there from the start
        obtain ⟨d, hd⟩ := hdev (htouch.room.mpr hroom)
        exact ⟨d, hback d hd⟩

end Streaming

/-! ## Whole overwrites -/

section

variable {t : Tree} {dir name : String} {timeout : Span} {declared start : Nat} {body : Schedule}

/-- What streaming is started with: the deadlines that collecting would start with, and an open part
file that has nothing in it. -/
theorem startStreaming_ok {s : Streaming} {t' : Tree} (hn : IsComponent name)
    (hlink : NoLinkAt t (partPlace t dir name))
    (h : startStreaming timeout declared start body (partPath (join dir name)) t = (.ok s, t')) :
    startBuffering timeout declared start body = .ok ⟨s.reading, []⟩ ∧
      ∃ k, partPlace t dir name = .ok k ∧ Carries s.handle t' k [] ∧ t.Touches t' (· = k) ∧
        ∀ d, t'.get? k = some (.device d) → t.get? k = some (.device d) := by
  unfold startStreaming at h
  split at h
  · simp at h
  · rename_i target t₁ hcreate
    simp only at h
    split at h
    · rename_i hreach
      rw [Prod.mk.injEq, Except.ok.injEq] at h
      obtain ⟨rfl, rfl⟩ := h
      obtain ⟨k, hk, hwhat⟩ := create_part hn hlink hcreate
      refine ⟨by rw [startBuffering]; exact if_pos hreach, k, hk, ?_⟩
      rcases hwhat with ⟨d, rfl, hnode, rfl⟩ | ⟨rfl, hget, htouch, -⟩
      · exact ⟨.device rfl hnode, Tree.Touches.refl _ _, fun _ hd => hd⟩
      · exact ⟨.file ⟨rfl, hget, Or.inr rfl⟩ (fun _ => rfl) (fun _ => rfl), htouch,
          fun d hd => absurd (hget.symm.trans hd) (by simp)⟩
    · simp at h

/-- What not even starting leaves.  Either the part file could not be created, and nothing has
happened; or the deadline could not be computed, which comes behind the creation, so the part file
is there. -/
theorem startStreaming_error {stop : Stop} {t' : Tree} (hn : IsComponent name)
    (hlink : NoLinkAt t (partPlace t dir name))
    (h : startStreaming timeout declared start body (partPath (join dir name)) t =
      (.error stop, t')) :
    (stop ≠ .overflow ∧ t' = t ∧ ∃ e, t.create (partPath (join dir name)) = .error e ∧
        stop = fileFault .creating (partPath (join dir name)) e) ∨
      (stop = .overflow ∧ startBuffering timeout declared start body = .error .overflow ∧
        ∃ k, partPlace t dir name = .ok k ∧ t.Touches t' (· = k)) := by
  unfold startStreaming at h
  split at h
  · rename_i e hcreate
    cases h
    exact Or.inl ⟨by simp [fileFault], rfl, e, hcreate, rfl⟩
  · rename_i target t₁ hcreate
    simp only at h
    split at h
    · simp at h
    · rename_i hreach
      cases h
      obtain ⟨k, hk, hwhat⟩ := create_part hn hlink hcreate
      refine Or.inr ⟨rfl, by rw [startBuffering]; exact if_neg hreach, k, hk, ?_⟩
      rcases hwhat with ⟨d, -, -, rfl⟩ | ⟨-, -, htouch, -⟩
      · exact Tree.Touches.refl _ _
      · exact htouch

variable (t dir name timeout declared start body) in
/-- Why streaming failed: the part file could not be created, the body was not read in full, the
destination takes no file, or the disk is full.  In the first three cases it is known what is
reported. -/
inductive StreamFails (stop : Stop) (reading : Reading) : Prop
  | create (e : Errno) (hk : partPlace t dir name = .error e)
      (hstop : stop = fileFault .creating (partPath (join dir name)) e)
      (hreading : reading = Reading.begin timeout declared start body)
  | read (k : Location) (hk : partPlace t dir name = .ok k)
      (hread : readBody timeout declared start body = (.error stop, reading))
  | place (k : Location) (hk : partPlace t dir name = .ok k) (bytes : Bytes)
      (hread : readBody timeout declared start body = (.ok bytes, reading))
      (hplace : placement t dir name = .error stop)
  | full (hroom : t.room ≠ none) (hstop : stop ≠ .overflow)

variable (t dir name timeout declared start body) in
/-- What streaming comes to.  If it succeeds the body stands under the destination and the part file
is gone; a failure touches nothing but the part file, which is still there. -/
inductive Streamed (r : (Except Stop Unit × Reading) × Tree) : Prop
  | stored (k l : Location) (bytes : Bytes) (hk : partPlace t dir name = .ok k)
      (hl : placement t dir name = .ok l) (hres : r.1.1 = .ok ())
      (hread : readBody timeout declared start body = (.ok bytes, r.1.2))
      (hget : r.2.get? l = some (.file bytes)) (hgone : r.2.get? k = none)
      (hsame : ∀ j, j ≠ l → j ≠ k → r.2.get? j = t.get? j) (hroom : r.2.room = none ↔ t.room = none)
  | failed (stop : Stop) (hres : r.1.1 = .error stop)
      (why : StreamFails t dir name timeout declared start body stop r.1.2)
      (htouch : t.Touches r.2 fun l => partPlace t dir name = .ok l)

/-- Where no part file is there is no link either. -/
theorem partPlace_noLink (hnone : ∀ k, partPlace t dir name = .ok k → t.get? k = none) :
    NoLinkAt t (partPlace t dir name) := by
  intro k target hk
  rw [hnone k hk]
  simp

/-- A change of the part file keeps the places of its destination and of itself: places depend on
directories and links, and a part file is neither. -/
theorem places_of_touches {t' : Tree} {k : Location} (h : t.Touches t' (· = k))
    (hk : partPlace t dir name = .ok k) :
    t'.place dir name = t.place dir name ∧ partPlace t' dir name = partPlace t dir name ∧
      placement t' dir name = placement t dir name := by
  obtain ⟨d, hd, -⟩ := Tree.dirAt_of_place hk
  have hdir : t.dirAt dir = .ok d := Tree.dirAt_dirOf.mp hd
  have hplace : t'.place dir name = t.place dir name :=
    Tree.place_congr (h.dirAt_eq (fun _ _ => ⟨d, hdir⟩) fun d' hd' => ⟨d', hd'⟩) name
  refine ⟨hplace, Tree.place_congr ?_ _, ?_⟩
  · exact h.dirAt_eq (fun _ _ => ⟨d, hdir⟩) fun d' hd' => ⟨d', Tree.dirAt_dirOf.mpr hd'⟩
  · exact placement_congr hplace fun l _ => (h.sameFrame.dir l).symm

/-- The same where the part file may have no place: then nothing was touched. -/
theorem partPlace_of_touches {t' : Tree}
    (h : t.Touches t' fun l => partPlace t dir name = .ok l) :
    partPlace t' dir name = partPlace t dir name := by
  refine Tree.place_congr (h.dirAt_eq (fun l hl => ?_) fun d hd => ⟨d, hd⟩) _
  obtain ⟨d, hd, -⟩ := Tree.dirAt_of_place hl
  exact ⟨d, hd⟩

/-- The loop after a part file was created, and the renaming behind it.  `run_sim` says what the
loop comes to and `publish_part` what the renaming does; what is left is to say both in terms of the
disk before. -/
theorem streamed_of_run {s : Streaming} {t₁ : Tree} {k : Location} (hn : IsComponent name)
    (hs : startStreaming timeout declared start body (partPath (join dir name)) t = (.ok s, t₁))
    (hk : partPlace t dir name = .ok k) (hc : Carries s.handle t₁ k [])
    (htouch : t.Touches t₁ (· = k)) (hdevice : ∀ d, t₁.get? k ≠ some (.device d))
    (hread : readBody timeout declared start body = Buffering.run ⟨s.reading, []⟩) :
    Streamed t dir name timeout declared start body
      (stream timeout declared start body (join dir name) t) := by
  have hran := Streaming.run_sim (partPath (join dir name)) (Tree.place_ne_nil hk) s t₁
    ⟨s.reading, []⟩ rfl hc
  cases hr : s.run (partPath (join dir name)) t₁ with
  | mk p t₂ =>
    obtain ⟨result, reading⟩ := p
    rw [hr] at hran
    unfold stream
    simp only [hs, hr]
    obtain ⟨htouch', hok, herr⟩ := hran
    rw [← hread] at hok herr
    have hall : t.Touches t₂ (· = k) := htouch.trans htouch'
    cases result with
    -- the loop failed; devices are ruled out, so it was the body or a full disk
    | error stop =>
      refine .failed stop rfl ?_ (hall.mono fun l hl => hl ▸ hk)
      rcases herr stop rfl with hread' | ⟨hne, hdev⟩
      · exact .read k hk hread'
      · refine .full (fun hroom => ?_) hne
        obtain ⟨d, hd⟩ := hdev (htouch.room.mpr hroom)
        exact hdevice d hd
    -- the loop went through, and the file is where the renaming expects it
    | ok u =>
      obtain ⟨bytes, hbytes, hget⟩ := hok rfl
      obtain ⟨hplace, hpart, hplacement⟩ := places_of_touches hall hk
      simp only
      rw [publish_part hn (hpart.trans hk) hget, hplacement]
      cases hpl : placement t dir name with
      | error stop =>
        exact .failed stop rfl (.place k hk bytes hbytes hpl) (hall.mono fun l hl => hl ▸ hk)
      | ok l =>
        have hl : t₂.place dir name = .ok l := hplace.trans (placement_ok hpl).1
        obtain ⟨hl', hk', hj⟩ := publish_get? bytes (hpart.trans hk) hl
        exact .stored k l bytes hk hpl rfl hbytes hl' hk'
          (fun j hjl hjk => (hj j hjl hjk).trans (hall.same j hjk)) hall.room

variable (timeout declared start body) in
/-- Streaming into a part file that is not there yet.  Since there is none, no device and no link is
in the way. -/
theorem streamed (hn : IsComponent name)
    (hnone : ∀ k, partPlace t dir name = .ok k → t.get? k = none) :
    Streamed t dir name timeout declared start body
      (stream timeout declared start body (join dir name) t) := by
  have hlink : NoLinkAt t (partPlace t dir name) := partPlace_noLink hnone
  cases hs : startStreaming timeout declared start body (partPath (join dir name)) t with
  | mk res t₁ =>
    cases res with
    | error stop =>
      unfold stream
      simp only [hs]
      rcases startStreaming_error hn hlink hs with
        ⟨hne, rfl, e, hcreate, hstop⟩ | ⟨rfl, hstart, k, hk, htouch⟩
      · have hk := partPlace_of_create_error hn (fun k hk => Or.inl (hnone k hk)) hcreate
        exact .failed stop rfl (.create e hk hstop rfl) (Tree.Touches.refl _ _)
      · refine .failed .overflow rfl (.read k hk ?_) (htouch.mono fun l hl => hl ▸ hk)
        rw [readBody, hstart]
    | ok s =>
      obtain ⟨hstart, k, hk, hc, htouch, hback⟩ := startStreaming_ok hn hlink hs
      have hdevice : ∀ d, t₁.get? k ≠ some (.device d) := fun d hd => by
        have := hback d hd
        rw [hnone k hk] at this
        simp at this
      exact streamed_of_run hn hs hk hc htouch hdevice (startBuffering_ok hstart).2

variable (t dir name timeout declared start body) in
/-- What an overwrite comes to: the body in full under the destination, or no change at all.
Nothing in between can be seen, since the part file is removed on every failure. -/
inductive Overwritten (w : Writing Outcome) : Prop
  | stored (k l : Location) (bytes : Bytes) (hk : partPlace t dir name = .ok k)
      (hl : placement t dir name = .ok l) (hres : w.result = .ok ⟨join dir name, declared⟩)
      (hread : readBody timeout declared start body = (.ok bytes, w.reading))
      (hget : w.tree.get? l = some (.file bytes))
      (hsame : ∀ j, j ≠ l → w.tree.get? j = t.get? j) (hroom : w.tree.room = none ↔ t.room = none)
  | failed (stop : Stop) (hres : w.result = .error stop)
      (why : StreamFails t dir name timeout declared start body stop w.reading)
      (hsame : ∀ j, w.tree.get? j = t.get? j) (hroom : w.tree.room = none ↔ t.room = none)

variable (timeout declared start body) in
/-- Overwriting, when there is no part file yet.  After a failure the part file is dropped, and as
there was none before, the disk is the old one. -/
theorem overwritten (hn : IsComponent name)
    (hnone : ∀ k, partPlace t dir name = .ok k → t.get? k = none) :
    Overwritten t dir name timeout declared start body
      (overwrite timeout declared start body (join dir name) t) := by
  have hstream := streamed timeout declared start body hn hnone
  cases hs : stream timeout declared start body (join dir name) t with
  | mk p t' =>
    obtain ⟨result, reading⟩ := p
    rw [hs] at hstream
    unfold overwrite
    simp only [hs]
    cases hstream with
    | stored k l bytes hk hl hres hread hget hgone hsame hroom =>
      cases hres
      refine .stored k l bytes hk hl rfl hread hget (fun j hj => ?_) hroom
      by_cases hjk : j = k
      · rw [hjk, hnone k hk]
        exact hgone
      · exact hsame j hj hjk
    | failed stop hres why htouch =>
      cases hres
      simp only at htouch why ⊢
      -- what was dropped is at the place of the part file, where nothing was before; the rest was
      -- not touched
      refine .failed stop rfl why (fun j => ?_) ?_
      · simp only [dropPart_get? hn, partPlace_of_touches htouch]
        by_cases hj : partPlace t dir name = .ok j
        · have hdir : t'.get? j ≠ some .dir := by
            rw [ne_eq, ← htouch.sameFrame.dir j, hnone j hj]
            simp
          rw [if_pos ⟨hj, hdir⟩, hnone j hj]
        · rw [if_neg fun h => hj h.1, htouch.same j hj]
      · simp only [room_dropPart hn]
        exact htouch.room

/-- What an overwrite of a name comes to on a disk that never fills up, when the body is read with
the given result.  The order of the cases is that of the steps: create, read, rename. -/
def overwriteResult (t : Tree) (dir name : String) (declared : Nat) (read : Except Stop Bytes) :
    Except Stop Outcome :=
  match partPlace t dir name with
  | .error e => .error (fileFault .creating (partPath (join dir name)) e)
  | .ok _ =>
    match read with
    | .error stop => .error stop
    | .ok _ => (placement t dir name).map fun _ => ⟨join dir name, declared⟩

/-- Without a place for the part file the body is not looked at. -/
theorem overwriteResult_of_part_error {read : Except Stop Bytes} {e : Errno}
    (hk : partPlace t dir name = .error e) :
    overwriteResult t dir name declared read =
      .error (fileFault .creating (partPath (join dir name)) e) := by
  unfold overwriteResult
  rw [hk]

/-- A body that fails decides before the destination is looked at. -/
theorem overwriteResult_of_read_error {k : Location} {stop : Stop}
    (hk : partPlace t dir name = .ok k) :
    overwriteResult t dir name declared (.error stop) = .error stop := by
  unfold overwriteResult
  rw [hk]

/-- A body that was read in full leaves the destination to decide. -/
theorem overwriteResult_of_read {k : Location} {bytes : Bytes}
    (hk : partPlace t dir name = .ok k) :
    overwriteResult t dir name declared (.ok bytes) =
      (placement t dir name).map fun _ => ⟨join dir name, declared⟩ := by
  unfold overwriteResult
  rw [hk]

/-- On a disk that never fills up the result of an overwrite depends on three things only: whether
there is a place for the part file, what the body is, and whether the destination takes a file. -/
theorem Overwritten.result_eq {w : Writing Outcome}
    (h : Overwritten t dir name timeout declared start body w) (hroom : t.room = none) :
    w.result = overwriteResult t dir name declared (readBody timeout declared start body).1 := by
  unfold overwriteResult
  cases h with
  | stored k l bytes hk hl hres hread hget hsame hroom' =>
    rw [hres, hk, hread, hl]
    rfl
  | failed stop hres why hsame hroom' =>
    rw [hres]
    cases why with
    | create e hk hstop hreading => rw [hk, hstop]
    | read k hk hread => rw [hk, hread]
    | place k hk bytes hread hplace => rw [hk, hread, hplace]; rfl
    | full hfull hstop => exact absurd hroom hfull

/-- How far the body is read by an overwrite: not at all if the part file could not be created, and
else as far as reading goes on its own. -/
theorem Overwritten.reading_eq {w : Writing Outcome}
    (h : Overwritten t dir name timeout declared start body w) (hroom : t.room = none) :
    w.reading = Reading.begin timeout declared start body ∨
      w.reading = (readBody timeout declared start body).2 := by
  cases h with
  | stored k l bytes hk hl hres hread hget hsame hroom' => exact Or.inr (by rw [hread])
  | failed stop hres why hsame hroom' =>
    cases why with
    | create e hk hstop hreading => exact Or.inl hreading
    | read k hk hread => exact Or.inr (by rw [hread])
    | place k hk bytes hread hplace => exact Or.inr (by rw [hread])
    | full hfull hstop => exact absurd hroom hfull

end

end LiveIngest.Upload
