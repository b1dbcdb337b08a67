import LiveIngest.Proofs.Directory
import LiveIngest.Storage.Handle

/-!
# What writing to an open file leaves behind

A handle that stands at the end of a file adds to the file and touches nothing else on disk.  How
much of the bytes arrives depends on the room that the disk has; what arrives is always their
beginning, and if no failure is pending afterwards it is all of them (`write_at`).  On a disk with
enough room nothing fails (`write_fits`).  On one with less, what fits is stored, and the failure is
reported at the next piece or stays pending (`write_short`).
-/

namespace LiveIngest.Storage

/-- Two trees that differ at most at one location: what a write may do to the disk, whatever becomes
of it. -/
def Tree.AgreeOff (t t' : Tree) (l : Location) : Prop := ∀ k, k ≠ l → t'.get? k = t.get? k

/-- A tree differs from itself nowhere, so writes that fail at once are covered. -/
theorem Tree.AgreeOff.refl (t : Tree) (l : Location) : t.AgreeOff t l := fun _ _ => rfl

/-- Pieces written one after the other to the same location add up to one change at it. -/
theorem Tree.AgreeOff.trans {t t' t'' : Tree} {l : Location} (h : t.AgreeOff t' l)
    (h' : t'.AgreeOff t'' l) : t.AgreeOff t'' l := fun k hk => (h' k hk).trans (h k hk)

/-- Replacing one node is a change at one location. -/
theorem Tree.agreeOff_put (t : Tree) (l : Location) (n : Node) : t.AgreeOff (t.put l n) l :=
  fun _ hk => get?_put_of_ne hk

/-- Whether a disk takes `n` more bytes: it has no limit, or the limit is not below `n`. -/
def Tree.HasRoom (t : Tree) (n : Nat) : Prop := ∀ r, t.room = some r → n ≤ r

/-- With room for `n` bytes a piece of at most so many is not cut short. -/
theorem Tree.HasRoom.fitting_eq {t : Tree} {n m : Nat} (h : t.HasRoom n) (hm : m ≤ n) :
    t.fitting m = m := by
  unfold fitting
  split
  · rfl
  · rename_i r hr
    have := h r hr
    omega

/-- Using up room is not seen at any location. -/
@[simp] theorem Tree.get?_using (t : Tree) (n : Nat) (l : Location) :
    (t.using n).get? l = t.get? l := rfl

/-- Replacing a node uses no room: what a write uses is counted by `using`. -/
@[simp] theorem Tree.room_put (t : Tree) (l : Location) (n : Node) : (t.put l n).room = t.room := rfl

/-- Nor is any given back by removing one. -/
@[simp] theorem Tree.room_remove (t : Tree) (l : Location) : (t.remove l).room = t.room := rfl

/-- What is used is gone for good; a disk without limit keeps having none. -/
@[simp] theorem Tree.room_using (t : Tree) (n : Nat) :
    (t.using n).room = t.room.map (· - n) := rfl

/-- Room for two pieces leaves room for the second when the first was written. -/
theorem Tree.HasRoom.using {t : Tree} {n m : Nat} (h : t.HasRoom (n + m)) :
    (t.using n).HasRoom m := by
  intro r hr
  rw [room_using] at hr
  obtain ⟨r', hr', he⟩ := Option.map_eq_some_iff.mp hr
  have := h r' hr'
  omega

namespace Handle

/-- The next byte written to a handle goes to the end of the file that holds `data`.  A handle that
appends has no offset of its own and always writes there; one that was opened to overwrite has got
as far as the file is long. -/
structure At (h : Handle) (t : Tree) (l : Location) (data : Bytes) : Prop where
  target : h.target = .file l
  get? : t.get? l = some (.file data)
  offset : h.offset = none ∨ h.offset = some data.length

/-- In either case the offset that counts is the length of the file. -/
theorem At.getD_offset {h : Handle} {t : Tree} {l : Location} {data : Bytes}
    (hat : h.At t l data) : h.offset.getD data.length = data.length := by
  rcases hat.offset with ho | ho <;> rw [ho] <;> rfl

/-- Writing one piece stores the beginning of it; the rest, if there is any, is a failure to be
reported.  The handle stands at the end again afterwards, so the same can be said of the next piece.
-/
theorem store_at {h : Handle} {t : Tree} {l : Location} {data : Bytes} (hat : h.At t l data)
    (hl : l ≠ []) (piece : Bytes) :
    ∃ kept, kept = piece.take (t.fitting piece.length) ∧
      t.AgreeOff (h.store t piece).2 l ∧ (h.store t piece).1.At (h.store t piece).2 l (data ++ kept) ∧
      (h.store t piece).2.room = t.room.map (· - kept.length) ∧
      (h.store t piece).1.pending = if kept.length < piece.length then some .noSpace else none := by
  refine ⟨_, rfl, ?_⟩
  have hstore : h.store t piece =
      ({ h with
          offset := h.offset.map (· + (piece.take (t.fitting piece.length)).length)
          pending := if (piece.take (t.fitting piece.length)).length < piece.length then
            some Errno.noSpace else none },
        (t.using (piece.take (t.fitting piece.length)).length).put l
          (.file (data ++ piece.take (t.fitting piece.length)))) := by
    rw [store, hat.target]
    simp only [hat.get?, hat.getD_offset, overlay_length]
  -- written out, the piece is laid over the file from its end on, which is to append it
  rw [hstore]
  refine ⟨?_, ⟨hat.target, Tree.get?_put_self hl, ?_⟩, rfl, rfl⟩
  · exact fun k hk => (Tree.get?_put_of_ne hk).trans (Tree.get?_using t _ k)
  · rcases hat.offset with ho | ho
    · exact Or.inl (by simp [ho])
    · exact Or.inr (by simp [ho])

/-- Writing pieces stores the beginning of them, and all of them if nothing failed.  By induction on
the pieces: the first one is stored, and then either it was cut short and the failure stops the
rest, or it is there in full and the rest comes behind it. -/
theorem writePieces_at {l : Location} (hl : l ≠ []) :
    ∀ (ps : List Bytes) (h : Handle) (t : Tree) (data : Bytes), h.At t l data →
      ∃ kept, kept <+: ps.flatten ∧ t.AgreeOff (h.writePieces t ps).2 l ∧
        (h.writePieces t ps).2.get? l = some (.file (data ++ kept)) ∧
        (h.writePieces t ps).2.room = t.room.map (· - kept.length) ∧
        ∀ h', (h.writePieces t ps).1 = .ok h' →
          h'.At (h.writePieces t ps).2 l (data ++ kept) ∧
            (h'.pending = none → kept = ps.flatten)
  | [], h, t, data, hat => by
    refine ⟨[], List.prefix_rfl, Tree.AgreeOff.refl t l, ?_, ?_, ?_⟩
    · rw [List.append_nil]; exact hat.get?
    · simp [writePieces]
    · intro h' hh'
      cases hh'
      rw [List.append_nil]
      exact ⟨hat, fun _ => rfl⟩
  | piece :: rest, h, t, data, hat => by
    cases hp : h.pending with
    | some e =>
      -- a failure was pending: it is reported instead of writing anything
      refine ⟨[], List.nil_prefix, ?_, ?_, ?_, ?_⟩
      · simp only [writePieces, hp]; exact Tree.AgreeOff.refl t l
      · simp only [writePieces, hp, List.append_nil]; exact hat.get?
      · simp [writePieces, hp]
      · simp [writePieces, hp]
    | none =>
      obtain ⟨kept, hkept, hoff, hat', hroom, hpend⟩ := store_at hat hl piece
      obtain ⟨more, hmore, hoff', hget, hroom', hok⟩ :=
        writePieces_at hl rest (h.store t piece).1 (h.store t piece).2 (data ++ kept) hat'
      have hw : h.writePieces t (piece :: rest) =
          (h.store t piece).1.writePieces (h.store t piece).2 rest := by
        simp only [writePieces, hp]
      have hle : kept.length ≤ piece.length := by rw [hkept]; exact List.length_take_le' _ _
      rw [hw]
      by_cases hfull : kept.length < piece.length
      · -- the piece was cut short: nothing is written any more
        have hstuck : (h.store t piece).1.pending = some .noSpace := by rw [hpend, if_pos hfull]
        have hpre : kept <+: piece := by rw [hkept]; exact List.take_prefix _ _
        cases rest with
        | nil =>
          refine ⟨kept, by simpa using hpre, hoff, hat'.get?, hroom, fun h' hh' => ?_⟩
          cases hh'
          exact ⟨hat', fun hn => absurd (hstuck.symm.trans hn) (by simp)⟩
        | cons q qs =>
          have hstop : (h.store t piece).1.writePieces (h.store t piece).2 (q :: qs) =
              (.error .noSpace, (h.store t piece).2) := by
            simp only [writePieces, hstuck]
          rw [hstop]
          refine ⟨kept, ?_, hoff, hat'.get?, hroom, fun h' hh' => by simp at hh'⟩
          exact hpre.trans (by rw [List.flatten_cons]; exact List.prefix_append _ _)
      -- the piece is there in full, and the induction hypothesis speaks of the others
      · have hall : kept = piece := by
          rw [hkept]
          refine List.take_of_length_le ?_
          have hlen := List.length_take (i := t.fitting piece.length) (l := piece)
          rw [← hkept] at hlen
          omega
        subst hall
        refine ⟨kept ++ more, ?_, hoff.trans hoff', ?_, ?_, ?_⟩
        · rw [List.flatten_cons]
          exact (List.prefix_append_right_inj kept).mpr hmore
        · rw [hget, List.append_assoc]
        · rw [hroom', hroom, Option.map_map, List.length_append]
          congr 1
          funext r
          simp only [Function.comp_apply]
          omega
        · intro h' hh'
          obtain ⟨hat'', hnone⟩ := hok h' hh'
          rw [List.append_assoc] at hat''
          exact ⟨hat'', fun hn => by rw [List.flatten_cons, hnone hn]⟩

/-- On a disk with enough room pieces are written without a failure: each is stored in full and
leaves room for the others. -/
theorem writePieces_fits {l : Location} (hl : l ≠ []) :
    ∀ (ps : List Bytes) (h : Handle) (t : Tree) (data : Bytes), h.At t l data →
      t.HasRoom ps.flatten.length → h.pending = none →
      ∃ h', (h.writePieces t ps).1 = .ok h' ∧ h'.pending = none
  | [], h, t, data, _, _, hp => ⟨h, rfl, hp⟩
  | piece :: rest, h, t, data, hat, hroom, hp => by
    obtain ⟨kept, hkept, -, hat', hroom', hpend⟩ := store_at hat hl piece
    rw [List.flatten_cons, List.length_append] at hroom
    have hall : kept = piece := by
      rw [hkept, hroom.fitting_eq (Nat.le_add_right ..), List.take_length]
    subst hall
    rw [if_neg (Nat.lt_irrefl _)] at hpend
    have hw : h.writePieces t (kept :: rest) =
        (h.store t kept).1.writePieces (h.store t kept).2 rest := by
      simp only [writePieces, hp]
    rw [hw]
    refine writePieces_fits hl rest _ _ _ hat' ?_ hpend
    intro r hr
    rw [hroom'] at hr
    exact hroom.using r hr

/-- If there is room for `r` bytes and there are more, the first `r` are stored and the failure is
reported, or is still to be.  Which of the two depends on whether another piece follows the one that
did not fit. -/
theorem writePieces_short {l : Location} (hl : l ≠ []) {ps : List Bytes} {h : Handle} {t : Tree}
    {data : Bytes} {r : Nat} (hat : h.At t l data) (hp : h.pending = none) (hr : t.room = some r)
    (hlt : r < ps.flatten.length) :
    (h.writePieces t ps).2.get? l = some (.file (data ++ ps.flatten.take r)) ∧
      ((h.writePieces t ps).1 = .error .noSpace ∨
        ∃ h', (h.writePieces t ps).1 = .ok h' ∧ h'.pending = some .noSpace) := by
  induction ps generalizing h t data r with
  | nil => exact absurd hlt (Nat.not_lt_zero r)
  | cons piece rest ih =>
    obtain ⟨kept, hkept, -, hat', hroom, hpend⟩ := store_at hat hl piece
    have hw : h.writePieces t (piece :: rest) =
        (h.store t piece).1.writePieces (h.store t piece).2 rest := by
      simp only [writePieces, hp]
    have hfitting : t.fitting piece.length = min r piece.length := by rw [Tree.fitting, hr]
    rw [hw]
    rw [hfitting] at hkept
    rw [List.flatten_cons, List.length_append] at hlt
    rcases Nat.lt_or_ge r piece.length with hcut | hwhole
    · -- this piece is cut short, and nothing is written any more
      rw [Nat.min_eq_left (Nat.le_of_lt hcut)] at hkept
      have hlen : kept.length < piece.length := by
        rw [hkept, List.length_take]
        omega
      rw [if_pos hlen] at hpend
      have hfirst : (piece :: rest).flatten.take r = kept := by
        rw [List.flatten_cons, List.take_append_of_le_length (Nat.le_of_lt hcut), hkept]
      rw [hfirst]
      cases rest with
      -- it was the last one, so the failure stays pending
      | nil => exact ⟨hat'.get?, Or.inr ⟨_, rfl, hpend⟩⟩
      | cons next rest =>
        have hstop : (h.store t piece).1.writePieces (h.store t piece).2 (next :: rest) =
            (.error .noSpace, (h.store t piece).2) := by
          simp only [writePieces, hpend]
        rw [hstop]
        exact ⟨hat'.get?, Or.inl rfl⟩
    · rw [Nat.min_eq_right hwhole, List.take_length] at hkept
      subst hkept
      rw [if_neg (Nat.lt_irrefl _)] at hpend
      rw [hr, Option.map_some] at hroom
      obtain ⟨hget, hfails⟩ := ih hat' hpend hroom (by omega)
      refine ⟨?_, hfails⟩
      rw [hget, List.flatten_cons, List.take_append, List.take_of_length_le hwhole, List.append_assoc]

/-- What a write leaves in a file: the beginning of the bytes, and all of them if nothing is
pending.  This is `writePieces_at` for the pieces that the bytes are cut into, which together are
the bytes. -/
theorem write_at {h : Handle} {t : Tree} {l : Location} {data : Bytes} (hat : h.At t l data)
    (hl : l ≠ []) (bytes : Bytes) :
    ∃ kept, kept <+: bytes ∧ t.AgreeOff (h.write t bytes).2 l ∧
      (h.write t bytes).2.get? l = some (.file (data ++ kept)) ∧
      (h.write t bytes).2.room = t.room.map (· - kept.length) ∧
      ∀ h', (h.write t bytes).1 = .ok h' →
        h'.At (h.write t bytes).2 l (data ++ kept) ∧ (h'.pending = none → kept = bytes) := by
  have := writePieces_at hl (pieces bytes) h t data hat
  rwa [flatten_pieces] at this

/-- A write for which there is room succeeds, and leaves nothing to be reported later. -/
theorem write_fits {h : Handle} {t : Tree} {l : Location} {data : Bytes} (hat : h.At t l data)
    (hl : l ≠ []) {bytes : Bytes} (hroom : t.HasRoom bytes.length) (hp : h.pending = none) :
    ∃ h', (h.write t bytes).1 = .ok h' ∧ h'.pending = none := by
  refine writePieces_fits hl (pieces bytes) h t data hat ?_ hp
  rwa [flatten_pieces]

/-- A write for which there is not enough room uses up all that there is. -/
theorem write_short {l : Location} (hl : l ≠ []) {h : Handle} {t : Tree} {data bytes : Bytes} {r : Nat}
    (hat : h.At t l data) (hp : h.pending = none) (hr : t.room = some r) (hlt : r < bytes.length) :
    (h.write t bytes).2.get? l = some (.file (data ++ bytes.take r)) ∧
      ((h.write t bytes).1 = .error .noSpace ∨
        ∃ h', (h.write t bytes).1 = .ok h' ∧ h'.pending = some .noSpace) := by
  rw [← flatten_pieces bytes] at hlt
  have hshort := writePieces_short hl hat hp hr hlt
  rwa [flatten_pieces] at hshort

/-- Writing to a device leaves the disk alone, and the disk does not matter for it: the null device
takes every piece, the full one refuses every piece at the next opportunity. -/
theorem writePieces_device {d : Device} (t : Tree) :
    ∀ (ps : List Bytes) (h : Handle), h.target = .device d →
      (h.writePieces t ps).2 = t ∧
      (∀ t', (h.writePieces t' ps).1 = (h.writePieces t ps).1) ∧
      ∀ h', (h.writePieces t ps).1 = .ok h' → h'.target = .device d
  | [], h, ht => ⟨rfl, fun _ => rfl, fun h' hh' => by cases hh'; exact ht⟩
  | piece :: rest, h, ht => by
    cases hp : h.pending with
    | some e =>
      refine ⟨?_, fun t' => ?_, fun h' hh' => ?_⟩
      · simp only [writePieces, hp]
      · simp only [writePieces, hp]
      · simp [writePieces, hp] at hh'
    | none =>
      -- what a piece does to a handle on a device can be said without a tree
      have hstore : ∃ h₁, h₁.target = .device d ∧ ∀ t', h.store t' piece = (h₁, t') := by
        cases d with
        | null => exact ⟨h, ht, fun t' => by rw [store, ht]⟩
        | full => exact ⟨{ h with pending := some .noSpace }, ht, fun t' => by rw [store, ht]⟩
      obtain ⟨h₁, ht₁, hs⟩ := hstore
      simp only [writePieces, hp, hs]
      obtain ⟨htree, hsame, hok⟩ := writePieces_device t rest h₁ ht₁
      exact ⟨htree, hsame, hok⟩

end Handle

end LiveIngest.Storage
