import LiveIngest.Proofs.Exclusion
import LiveIngest.Proofs.Leftovers

/-!
# What becomes of the entries of the lock table

The table has an entry for each destination that is being written to, and the call that gives back the
last reference takes the entry out.  A call that vanishes drops its reference and does not look after
the entry.  When does an entry stay behind that no call refers to?

1. **The table.**  `Bookkeeping` lists what one move does to the table: nothing, a new reference, a
   change of a mutex, a reference given back, or a reference dropped by a call that vanishes.

2. **References.**  `Locked` has it that the references counted are at least those that calls have.
   Here they are at most those (`Bookkeeping.refs_le`), so a lock that is counted as referenced is
   referred to by a call (`Booked`).

3. **One step.**  An entry that outlives the last reference does so because the call that had it
   vanished (`Bookkeeping.outlived`).  `Orphan` is an entry without a call: a step makes one only where
   the last call on the destination vanishes (`Orphan.before`), there it always does
   (`LastVanishes.orphan`), and an orphan stays until the next call refers to it (`Orphan.after`).

`table_entries` puts this together for runs: the orphans are exactly the entries whose last call has
vanished and that nobody has used since.  So the table is empty when no call is live, as long as calls
come to their ends, and `entry_left_behind` is a call that does not.
-/

namespace LiveIngest.Traffic

open LiveIngest.Storage
open LiveIngest.Upload

/-! ## What a move does to the table -/

/-- Whether an upload ended without an answer. -/
def Stage.hasVanished : Stage → Bool
  | .cancelled _ => true
  | .broken _ => true
  | _ => false

/-- What a move of one task does to the table of locks.  `release` and `vanish` both give up a
reference; the first looks whether it was the last one and then takes the entry out, the second does
not. -/
inductive Bookkeeping (table : LockTable) (t t' : Task) : LockTable → Prop
  | keep (href : t'.stage.ref? = t.stage.ref?) : Bookkeeping table t t' table
  | refer {d} (ht : t.stage.ref? = none)
      (ht' : t'.stage.ref? = some (d, (table.reference d).1)) :
      Bookkeeping table t t' (table.reference d).2
  | onMutex {l} (f : Mutex → Mutex) (href : t'.stage.ref? = t.stage.ref?) :
      Bookkeeping table t t' (table.onMutex l f)
  | release {d l} (ht : t.stage.ref? = some (d, l)) (ht' : t'.stage.ref? = none)
      (hstays : t'.stage.hasVanished = false) : Bookkeeping table t t' (table.release d l)
  | vanish {d l} (f : Mutex → Mutex) (ht : t.stage.ref? = some (d, l)) (ht' : t'.stage.ref? = none)
      (hgone : t'.stage.hasVanished = true) :
      Bookkeeping table t t' ((table.onMutex l f).dropRef l)

/-- Every move does one of these.  Most leave the table alone. -/
theorem Move.bookkeeping {c : Config} {clock : Nat} {i : TaskId} {w w' : Shared} {t t' : Task}
    (h : Move c clock i w t w' t') : Bookkeeping w.table t t' w'.table := by
  cases h with
  | quiet h =>
    obtain ⟨ht, ht', -⟩ := h.ref?
    exact .keep (ht'.trans ht.symm)
  | refer hs => exact .refer (by rw [hs]; rfl) rfl
  | ask hs =>
    refine .onMutex (·.enter i) ?_
    rw [hs]
    rfl
  | unlock hs =>
    refine .onMutex (·.leave i) ?_
    rw [hs]
    rfl
  | release hs => exact .release (by rw [hs]; rfl) rfl rfl
  | enqueue hs | append hs | create hs | createFails hs | streamOn hs | streamed hs | streamFails hs
  | publish hs | publishFails hs | drop hs | count hs | leave hs => exact .keep (by rw [hs]; rfl)
  | vanish h =>
    cases h with
    | waiting hs | streaming hs | uncreated hs | unstreamed hs =>
      simp only [Shared.without, Shared.tableWithout, hs]
      exact .vanish _ (by rw [hs]; rfl) rfl rfl
    | queued hs | buffering hs | unstarted hs | uncollected hs | unreported hs =>
      simp only [Shared.without, Shared.tableWithout, hs]
      exact .keep (by rw [hs]; rfl)

/-! ## The references are counted exactly -/

section

variable {table table' : LockTable} {tasks : List Task} {i : TaskId} {t t' : Task}

/-- Asking for a destination makes its entry, if it has none, and touches no other. -/
theorem LockTable.entry?_reference (table : LockTable) (d d' : String) :
    LockTable.entry? (table.reference d).2 d' =
      if d' = d then some (table.reference d).1 else table.entry? d' := by
  cases hl : table.entry? d with
  | none => rw [reference_of_none hl, entry?_fresh]
  | some l =>
    unfold reference
    simp only [hl, entry?_onRefs]
    split
    · rename_i hd
      rw [hd, hl]
    · rfl

/-- A new reference counts for the lock of its destination and for no other.  Where the lock is new
it has had none. -/
theorem LockTable.refs_reference {table : LockTable} {d : String}
    (hbound : ∀ l, table.entry? d = some l → l < table.locks.length) (k : LockId) :
    LockTable.refs (table.reference d).2 k =
      table.refs k + if (table.reference d).1 = k then 1 else 0 := by
  cases hl : table.entry? d with
  | none =>
    rw [reference_of_none hl, refs_fresh]
    by_cases hk : k = table.locks.length
    · subst hk
      simp [refs]
    · rw [if_neg hk, if_neg (Ne.symm hk), Nat.add_zero]
  | some l =>
    unfold reference
    simp only [hl]
    by_cases hk : k = l
    · rw [hk, refs_onRefs_self (hbound l hl), if_pos rfl]
    · rw [refs_onRefs_ne hk, if_neg (Ne.symm hk), Nat.add_zero]

/-- A task refers to one lock at most. -/
theorem Task.refersTo_iff {d : String} {l k : LockId} (h : t.stage.ref? = some (d, l)) :
    t.refersTo k = true ↔ l = k := by
  simp [Task.refersTo, h]

/-- A destination with an entry gives the lock of that entry. -/
theorem LockTable.fst_reference {table : LockTable} {d : String} {l : LockId}
    (h : table.entry? d = some l) : (table.reference d).1 = l := by
  rw [reference, h]

/-- Giving a reference back leaves the entries of other destinations. -/
theorem LockTable.entry?_release_of_ne {d d' : String} (table : LockTable) (l : LockId)
    (hne : d' ≠ d) : LockTable.entry? (table.release d l) d' = table.entry? d' := by
  unfold release
  simp only
  split
  · rfl
  · split
    · rfl
    · exact lookup_filter_of_ne _ d' hne

/-- What is still in the table after a reference was given back was there before, and the entry of
the destination only stays if its lock is referred to. -/
theorem LockTable.of_entry?_release {table : LockTable} {d d' : String} {l k : LockId}
    (h : LockTable.entry? (table.release d l) d' = some k) :
    table.entry? d' = some k ∧ (d' = d → (table.release d l).refs k ≠ 0) := by
  unfold release at h ⊢
  simp only at h ⊢
  split at h
  · rename_i hnone
    refine ⟨h, ?_⟩
    rintro rfl
    rw [h] at hnone
    exact absurd hnone (by simp)
  · rename_i current hcurrent
    split at h
    · rename_i href
      refine ⟨h, ?_⟩
      rintro rfl
      rw [hcurrent, Option.some.injEq] at h
      simp only [if_pos href]
      rw [isReferenced_eq, h] at href
      simpa using href
    · obtain ⟨hne, hold⟩ := lookup_filter _ _ _ _ h
      exact ⟨hold, fun hd => absurd hd hne⟩

/-- Taking an entry out does not change how often its lock is referred to. -/
theorem LockTable.refs_release (table : LockTable) (d : String) (l k : LockId) :
    (table.release d l).refs k = (table.dropRef l).refs k := by
  unfold release
  simp only
  split
  · rfl
  · split <;> rfl

/-- A call that gives up its reference is not counted any more.  It was counted before, since
`Locked` counts at least what the calls have. -/
theorem refs_dropRef_le {d : String} {l : LockId} (h : Locked table tasks)
    (hi : tasks[i]? = some t) (ht : t.stage.ref? = some (d, l)) (k : LockId) :
    (table.dropRef l).refs k + (if t.refersTo k then 1 else 0) ≤ table.refs k := by
  have hlt : l < table.locks.length := h.bound d l (h.entry i t d l hi ht)
  rw [LockTable.dropRef]
  by_cases hk : k = l
  · subst hk
    have hpos := List.countP_pos_iff.mpr ⟨t, List.mem_of_getElem? hi, Task.refersTo_of_ref? ht⟩
    have hle := h.refs k
    rw [LockTable.refs_onRefs_self hlt, Task.refersTo_of_ref? ht, if_pos rfl]
    omega
  · rw [LockTable.refs_onRefs_ne hk, if_neg fun h => hk ((Task.refersTo_iff ht).mp h).symm]
    exact Nat.le_refl _

/-- No reference is counted that no task has.  With `Locked` this makes the count exact. -/
theorem Bookkeeping.refs_le (hb : Bookkeeping table t t' table') (h : Locked table tasks)
    (hi : tasks[i]? = some t) (hrefs : ∀ l, table.refs l ≤ tasks.countP (Task.refersTo l)) :
    ∀ l, table'.refs l ≤ (tasks.set i t').countP (Task.refersTo l) := by
  intro k
  have hcount := countP_set_add (Task.refersTo k) t' hi
  have hle := hrefs k
  have hnone : ∀ {u : Task}, u.stage.ref? = none → u.refersTo k = false := by
    intro u hu
    simp [Task.refersTo, hu]
  -- what the move adds to the references counted it adds to those of the task
  have hstep : table'.refs k + (if t.refersTo k then 1 else 0) ≤
      table.refs k + (if t'.refersTo k then 1 else 0) := by
    cases hb with
    | keep href => exact Nat.le_of_eq (by rw [Task.refersTo, Task.refersTo, href])
    | onMutex f href =>
      exact Nat.le_of_eq (by rw [LockTable.refs_onMutex, Task.refersTo, Task.refersTo, href])
    | release ht ht' =>
      rw [LockTable.refs_release, hnone ht']
      exact refs_dropRef_le h hi ht k
    | vanish f ht ht' =>
      rw [LockTable.refs_dropRef_onMutex, hnone ht']
      exact refs_dropRef_le h hi ht k
    | refer ht ht' =>
      rw [hnone ht, LockTable.refs_reference (h.bound _)]
      simp only [Task.refersTo_iff ht', Bool.false_eq_true, if_false]
      exact Nat.le_refl _
  omega

/-! ## The entries after a move -/

section

variable {d : String} {l : LockId}

/-- Whatever is in the table was there before, or the task refers to it. -/
theorem Bookkeeping.entry_before (hb : Bookkeeping table t t' table')
    (h : table'.entry? d = some l) : table.entry? d = some l ∨ t'.stage.ref? = some (d, l) := by
  cases hb with
  | keep href | onMutex f href | vanish f ht ht' => exact Or.inl h
  | release ht ht' => exact Or.inl (LockTable.of_entry?_release h).1
  | refer ht ht' =>
    rw [LockTable.entry?_reference] at h
    split at h
    · rename_i hd
      rw [ht', Option.some.inj h, hd]
      exact Or.inr rfl
    · exact Or.inl h

/-- If an entry outlives the reference of a task, the task vanishes, or the lock is still referred
to.  This is where the two ways to give up a reference differ. -/
theorem Bookkeeping.outlived (hb : Bookkeeping table t t' table') (ht : t.stage.ref? = some (d, l))
    (ht' : t'.stage.ref? ≠ some (d, l)) (h : table'.entry? d = some l) :
    t'.stage.hasVanished = true ∨ table'.refs l ≠ 0 := by
  cases hb with
  | keep href | onMutex f href => exact absurd (href.trans ht) ht'
  | refer hnone => exact absurd (hnone.symm.trans ht) (by simp)
  | vanish f _ _ hgone => exact Or.inl hgone
  | release href =>
    rw [ht, Option.some.injEq, Prod.mk.injEq] at href
    exact Or.inr ((LockTable.of_entry?_release h).2 href.1)

/-- An entry stays, unless a task gives back its reference in an orderly way.  Whoever does that
refers to the entry, because a task's reference is in the table. -/
theorem Bookkeeping.entry_after (hb : Bookkeeping table t t' table') (hl : Locked table tasks)
    (hi : tasks[i]? = some t) (h : table.entry? d = some l)
    (hgone : t.stage.ref? = some (d, l) → t'.stage.hasVanished = true) :
    table'.entry? d = some l := by
  cases hb with
  | keep href | onMutex f href | vanish f ht ht' => exact h
  | @refer d₀ ht ht' =>
    rw [LockTable.entry?_reference]
    split
    · rename_i hd
      subst hd
      rw [LockTable.fst_reference h]
    · exact h
  | @release d₀ l₀ ht ht' hstays =>
    have hd : d ≠ d₀ := by
      rintro rfl
      have hsame := hl.entry i t d l₀ hi ht
      rw [h, Option.some.injEq] at hsame
      rw [hgone (hsame ▸ ht)] at hstays
      exact absurd hstays (by simp)
    rw [LockTable.entry?_release_of_ne _ _ hd]
    exact h

end

end

/-! ## Entries without a call -/

namespace Machine

/-- The table fits the tasks, and no reference is counted that no task has.  So a lock is referred
to exactly if a live call refers to it. -/
structure Booked (m : Machine) : Prop where
  locked : Locked m.table m.tasks
  refs : ∀ l, m.table.refs l ≤ m.tasks.countP (Task.refersTo l)

/-- The table has an entry that no live call refers to.  It does no harm but stays. -/
def Orphan (m : Machine) (d : String) (l : LockId) : Prop :=
  m.table.entry? d = some l ∧ ∀ i, ¬ m.Live i d l

/-- The only live call on a destination vanishes. -/
structure LastVanishes (m m' : Machine) (i : TaskId) (d : String) (l : LockId) : Prop where
  live : m.Live i d l
  last : ∀ j, m.Live j d l → j = i
  gone : ∃ t, m'.tasks[i]? = some t ∧ t.stage.hasVanished = true

/-- No call on a destination is live in any state of a run. -/
def Unclaimed (m : Machine) (hs : List Happening) (d : String) (l : LockId) : Prop :=
  ∀ part m', part <+: hs → m.afterAll part = some m' → ∀ i, ¬ m'.Live i d l

/-- In the course of a run the only live call on a destination vanishes, and none is live from then
on. -/
def Abandons (m : Machine) (hs : List Happening) (d : String) (l : LockId) : Prop :=
  ∃ before e after m₁ m₂ i, hs = before ++ e :: after ∧ m.afterAll before = some m₁ ∧
    m₁.after e = some m₂ ∧ m₁.LastVanishes m₂ i d l ∧ m₂.Unclaimed after d l

section

variable {m m' : Machine} {i j : TaskId} {t t' : Task} {d : String} {l : LockId} {e : Happening}

/-- An empty table fits tasks that refer to nothing. -/
theorem Booked.of_refs (htable : m.table = .empty) (htasks : ∀ t ∈ m.tasks, t.stage.ref? = none) :
    m.Booked := by
  constructor
  · rw [htable]
    exact Locked.of_refs htasks
  · intro l
    rw [htable]
    exact Nat.zero_le _

/-- A move keeps the books. -/
theorem Booked.moved (h : m.Booked) (hi : m.tasks[i]? = some t) (hm : m.Moved i t t' m') :
    m'.Booked := by
  constructor
  · rw [hm.tasks]
    exact hm.move.locked h.locked hi
  · rw [hm.tasks]
    exact hm.move.bookkeeping.refs_le h.locked hi h.refs

/-- Where references are counted there is a live call. -/
theorem Booked.live (h : m.Booked) (hentry : m.table.entry? d = some l) (hrefs : m.table.refs l ≠ 0) :
    ∃ i, m.Live i d l := by
  have hpos : 0 < m.tasks.countP (Task.refersTo l) :=
    Nat.lt_of_lt_of_le (Nat.pos_of_ne_zero hrefs) (h.refs l)
  obtain ⟨u, hu, hrefers⟩ := List.countP_pos_iff.mp hpos
  obtain ⟨j, hj⟩ := List.mem_iff_getElem?.mp hu
  cases href : u.stage.ref? with
  | none => simp [Task.refersTo, href] at hrefers
  | some entry =>
    obtain ⟨d', k⟩ := entry
    obtain rfl : k = l := by simpa [Task.refersTo, href] using hrefers
    obtain rfl : d' = d := h.locked.injective d' d k (h.locked.entry j u d' k hj href) hentry
    exact ⟨j, u, hj, href⟩

/-- A call is live on the destination that its task refers to. -/
theorem live_iff (hi : m.tasks[i]? = some t) : m.Live i d l ↔ t.stage.ref? = some (d, l) := by
  constructor
  · rintro ⟨u, hu, href⟩
    rw [hi, Option.some.injEq] at hu
    exact hu ▸ href
  · exact fun href => ⟨t, hi, href⟩

/-- After a move this is told by the stage that the task came to. -/
theorem Moved.live_self_iff (hi : m.tasks[i]? = some t) (hm : m.Moved i t t' m') :
    m'.Live i d l ↔ t'.stage.ref? = some (d, l) := live_iff (hm.self hi)

/-- The calls of the others are live as before. -/
theorem Moved.live_iff_of_ne (hm : m.Moved i t t' m') (hj : j ≠ i) :
    m'.Live j d l ↔ m.Live j d l := by
  unfold Live
  rw [hm.others hj]

/-- A happening moves a task, or it changes neither the table nor who is live.  A disconnection is a
move here. -/
theorem moved_or_idle (ha : m.after e = some m') :
    (∃ i t t', m.tasks[i]? = some t ∧ m.Moved i t t' m') ∨
      m'.table = m.table ∧ ∀ j d l, m'.Live j d l ↔ m.Live j d l := by
  cases happened ha with
  | move hi hm => exact Or.inl ⟨_, _, _, hi, hm⟩
  | disconnect hi hg hm => exact Or.inl ⟨_, _, _, hi, hm⟩
  | pass clock hle => exact Or.inr ⟨rfl, fun _ _ _ => Iff.rfl⟩
  | arrive request =>
    refine Or.inr ⟨rfl, fun j d l => ⟨?_, ?_⟩⟩
    · rintro ⟨t, ht, href⟩
      rcases getElem?_concat_cases ht with ht | rfl
      · exact ⟨t, ht, href⟩
      · exact absurd href (by simp [Task.new, Stage.ref?])
    · rintro ⟨t, ht, href⟩
      exact ⟨t, found_admitTask request ht, href⟩

/-- The books are kept, whatever happens. -/
theorem Booked.after (h : m.Booked) (ha : m.after e = some m') : m'.Booked := by
  cases happened ha with
  | move hi hm => exact h.moved hi hm
  | disconnect hi hg hm => exact h.moved hi hm
  | pass clock hle => exact ⟨h.locked, h.refs⟩
  | arrive request =>
    refine ⟨h.locked.arrival rfl, fun l => ?_⟩
    show m.table.refs l ≤ (m.tasks ++ [Task.new request]).countP (Task.refersTo l)
    rw [List.countP_append]
    exact Nat.le_add_right_of_le (h.refs l)

/-- An entry loses its last call by a call that vanishes, since a call that comes to its end takes
the entry with it. -/
theorem Orphan.before (h : m.Booked) (ha : m.after e = some m') (ho : m'.Orphan d l) :
    m.Orphan d l ∨ ∃ i, m.LastVanishes m' i d l := by
  obtain ⟨hentry, hnone⟩ := ho
  rcases moved_or_idle ha with ⟨i, t, t', hi, hm⟩ | ⟨htable, hlive⟩
  · have hb : Bookkeeping m.table t t' m'.table := hm.move.bookkeeping
    have hself : t'.stage.ref? ≠ some (d, l) := fun href => hnone i ((hm.live_self_iff hi).mpr href)
    -- only the task that moved can have referred to it
    have hothers : ∀ j, m.Live j d l → j = i := fun j hl =>
      Classical.byContradiction fun hj => hnone j ((hm.live_iff_of_ne hj).mpr hl)
    by_cases href : t.stage.ref? = some (d, l)
    · rcases hb.outlived href hself hentry with hgone | hrefs
      · exact Or.inr ⟨i, (live_iff hi).mpr href, hothers, t', hm.self hi, hgone⟩
      · obtain ⟨j, hj⟩ := (h.after ha).live hentry hrefs
        exact absurd hj (hnone j)
    · refine Or.inl ⟨(hb.entry_before hentry).resolve_right hself, fun j hl => ?_⟩
      obtain rfl := hothers j hl
      exact href ((live_iff hi).mp hl)
  · exact Or.inl ⟨htable ▸ hentry, fun j hl => hnone j ((hlive j d l).mpr hl)⟩

/-- Whoever has vanished refers to nothing. -/
theorem ref?_of_hasVanished {s : Stage} (h : s.hasVanished = true) : s.ref? = none := by
  cases s <;> simp_all [Stage.hasVanished, Stage.ref?]

/-- Whoever vanishes is not live. -/
theorem LastVanishes.dead (hv : m.LastVanishes m' i d l) : ¬ m'.Live i d l := by
  obtain ⟨-, -, u, hu, hgone⟩ := hv
  rw [live_iff hu, ref?_of_hasVanished hgone]
  simp

/-- Whoever vanishes as the last call leaves the entry behind.  Nobody is left who would take it
out. -/
theorem LastVanishes.orphan (h : m.Booked) (ha : m.after e = some m')
    (hv : m.LastVanishes m' i d l) : m'.Orphan d l := by
  have hdead := hv.dead
  obtain ⟨hlive, hlast, u, hu, hgone⟩ := hv
  rcases moved_or_idle ha with ⟨j, t, t', hj, hm⟩ | ⟨-, hsame⟩
  · obtain rfl : i = j := Classical.byContradiction fun hne =>
      hdead ((hm.live_iff_of_ne hne).mpr hlive)
    obtain rfl : t' = u := Option.some.inj ((hm.self hj).symm.trans hu)
    have hb : Bookkeeping m.table t t' m'.table := hm.move.bookkeeping
    have hentry := h.locked.entry i t d l hj ((live_iff hj).mp hlive)
    refine ⟨hb.entry_after h.locked hj hentry fun _ => hgone, fun k hk => ?_⟩
    by_cases hki : k = i
    · exact hdead (hki ▸ hk)
    · exact hki (hlast k ((hm.live_iff_of_ne hki).mp hk))
  · exact absurd ((hsame i d l).mpr hlive) hdead

/-- An entry without a call stays until a call refers to it: only a call that refers to it can take
it out. -/
theorem Orphan.after (h : m.Booked) (ha : m.after e = some m') (ho : m.Orphan d l)
    (hnone : ∀ i, ¬ m'.Live i d l) : m'.Orphan d l := by
  obtain ⟨hentry, hdead⟩ := ho
  refine ⟨?_, hnone⟩
  rcases moved_or_idle ha with ⟨i, t, t', hi, hm⟩ | ⟨htable, -⟩
  · have hb : Bookkeeping m.table t t' m'.table := hm.move.bookkeeping
    exact hb.entry_after h.locked hi hentry fun href => absurd ((live_iff hi).mpr href) (hdead i)
  · rw [htable]
    exact hentry

/-! ## Runs -/

/-- A state in which no call is live, and then a run of such states. -/
theorem unclaimed_cons {hs : List Happening} (ha : m.after e = some m')
    (hdead : ∀ i, ¬ m.Live i d l) (h : m'.Unclaimed hs d l) : m.Unclaimed (e :: hs) d l := by
  intro part m₁ hpart hrun
  cases part with
  | nil =>
    cases hrun
    exact hdead
  | cons e' part =>
    obtain ⟨rfl, hrest⟩ := List.cons_prefix_cons.mp hpart
    simp only [afterAll, ha] at hrun
    exact h part m₁ hrest hrun

/-- The rest of such a run is one. -/
theorem Unclaimed.tail {hs : List Happening} (ha : m.after e = some m')
    (h : m.Unclaimed (e :: hs) d l) : m'.Unclaimed hs d l := by
  intro part m₁ hpart hrun
  refine h (e :: part) m₁ (List.cons_prefix_cons.mpr ⟨rfl, hpart⟩) ?_
  simp only [afterAll, ha]
  exact hrun

/-- Where the entries without a call come from: they were there at first and nobody has used them
since, or they were abandoned on the way.  The induction is on the run, from its end. -/
theorem Orphan.origin :
    ∀ (hs : List Happening) {m m' : Machine}, m.Booked → m.afterAll hs = some m' →
      m'.Orphan d l → m.Orphan d l ∧ m.Unclaimed hs d l ∨ m.Abandons hs d l := by
  intro hs
  induction hs with
  | nil =>
    intro m m' _ hrun ho
    cases hrun
    refine Or.inl ⟨ho, fun part m₁ hpart hrun => ?_⟩
    rw [List.prefix_nil] at hpart
    subst hpart
    cases hrun
    exact ho.2
  | cons e rest ih =>
    intro m m' h hrun ho
    unfold afterAll at hrun
    split at hrun
    · simp at hrun
    · rename_i m₁ ha
      rcases ih (h.after ha) hrun ho with ⟨ho₁, hunclaimed⟩ | ⟨before, e', after, m₂, m₃, i, rfl, hbefore, hmore⟩
      · rcases Orphan.before h ha ho₁ with hold | ⟨i, hv⟩
        · exact Or.inl ⟨hold, unclaimed_cons ha hold.2 hunclaimed⟩
        · exact Or.inr ⟨[], e, rest, m, m₁, i, rfl, rfl, ha, hv, hunclaimed⟩
      · refine Or.inr ⟨e :: before, e', after, m₂, m₃, i, rfl, ?_, hmore⟩
        simp only [afterAll, ha]
        exact hbefore

/-- An entry without a call is still there after a run in which no call is live. -/
theorem Orphan.afterAll :
    ∀ (hs : List Happening) {m m' : Machine}, m.Booked → m.afterAll hs = some m' →
      m.Orphan d l → m.Unclaimed hs d l → m'.Orphan d l := by
  intro hs
  induction hs with
  | nil =>
    intro m m' _ hrun ho _
    cases hrun
    exact ho
  | cons e rest ih =>
    intro m m' h hrun ho hunclaimed
    unfold Machine.afterAll at hrun
    split at hrun
    · simp at hrun
    · rename_i m₁ ha
      have htail := hunclaimed.tail ha
      exact ih (h.after ha) hrun (Orphan.after h ha ho (htail [] m₁ List.nil_prefix rfl)) htail

end

end Machine

open Machine in
/-- The entries without a live call are exactly those whose last call has vanished, with no call on the
destination since.  So as long as that does not happen, every entry has a live call, and the table is
empty when no call is live. -/
theorem table_entries {m₀ m : Machine} {hs : List Machine.Happening} (htable : m₀.table = .empty)
    (htasks : ∀ t ∈ m₀.tasks, t.stage.ref? = none) (hrun : m₀.afterAll hs = some m) :
    (∀ d l, m.Orphan d l ↔ m₀.Abandons hs d l) ∧
    ((∀ d l, ¬ m₀.Abandons hs d l) →
      (∀ d l, m.table.entry? d = some l → ∃ i, m.Live i d l) ∧
      ((∀ i d l, ¬ m.Live i d l) → m.table.entries = [])) := by
  have hbooked : m₀.Booked := .of_refs htable htasks
  have hiff : ∀ d l, m.Orphan d l ↔ m₀.Abandons hs d l := by
    intro d l
    constructor
    · intro ho
      rcases Orphan.origin hs hbooked hrun ho with ⟨⟨hentry, -⟩, -⟩ | habandons
      · rw [htable] at hentry
        cases hentry
      · exact habandons
    · rintro ⟨before, e, after, m₁, m₂, i, rfl, hbefore, ha, hv, hunclaimed⟩
      rw [afterAll_append, hbefore] at hrun
      simp only [Option.bind_some, Machine.afterAll, ha] at hrun
      have hbooked₁ : m₁.Booked := afterAll_keeps (fun _ _ _ h ha => h.after ha) before hbooked hbefore
      exact Orphan.afterAll after (hbooked₁.after ha) hrun (hv.orphan hbooked₁ ha) hunclaimed
  refine ⟨hiff, fun hnever => ?_⟩
  have hlive : ∀ d l, m.table.entry? d = some l → ∃ i, m.Live i d l := by
    intro d l hentry
    exact Classical.byContradiction fun hnone =>
      hnever d l ((hiff d l).mp ⟨hentry, fun i hi => hnone ⟨i, hi⟩⟩)
  refine ⟨hlive, fun hdead => ?_⟩
  cases hentries : m.table.entries with
  | nil => rfl
  | cons first rest =>
    have hentry : m.table.entry? first.1 = some first.2 := by
      rw [LockTable.entry?, hentries, List.lookup_cons, beq_self_eq_true]
    obtain ⟨i, hi⟩ := hlive first.1 first.2 hentry
    exact absurd hi (hdead i first.1 first.2)

/-- Where no task refers to anything no call is live. -/
theorem Machine.not_live {m : Machine} (h : ∀ t ∈ m.tasks, t.stage.ref? = none) (i : TaskId)
    (d : String) (l : LockId) : ¬ m.Live i d l := by
  rintro ⟨t, ht, href⟩
  rw [h t (List.mem_of_getElem? ht)] at href
  exact absurd href (by simp)

/-- Two overwrites of one name, the second in line for the lock.  First the second vanishes, and the entry
still has a call; then the first does, and the entry is without one. -/
theorem table_entries_vanished :
    let c : Config := {}
    let body : Body.Schedule := [⟨0, .data [7]⟩]
    let call : Task := ⟨⟨"/dash", [], body⟩, none,
      .seeking ⟨.addressed "a.webm", 1⟩ (c.destination "a.webm") (.overwrite 1 body)⟩
    let m₀ : Machine := { Machine.ofIngest (.start c Tree.empty) with tasks := [call, call] }
    let hs : List Machine.Happening := [0, 1, 0, 0, 1].map .move ++ [.disconnect 1, .disconnect 0]
    ∃ m, m₀.afterAll hs = some m ∧ m.table.entry? "./a.webm" = some 0 ∧
      m₀.Abandons hs "./a.webm" 0 := by
  intro c body call m₀ hs
  have hnone : ∀ t ∈ m₀.tasks, t.stage.ref? = none := by
    intro t ht
    simp only [m₀, List.mem_cons, List.not_mem_nil, or_false, or_self] at ht
    rw [ht]
    rfl
  have hreached : (m₀.afterAll hs).map (fun m =>
      (m.table.entry? "./a.webm", m.tasks.all (·.stage.ref?.isNone))) =
      some (some 0, true) := by decide +kernel
  rw [Option.map_eq_some_iff] at hreached
  obtain ⟨m, hm, hstate⟩ := hreached
  obtain ⟨hentry, hover⟩ := Prod.mk.inj hstate
  have hdead : ∀ i, ¬ m.Live i "./a.webm" 0 := fun i => Machine.not_live (fun t ht => by
    simpa using List.all_eq_true.mp hover t ht) i _ _
  exact ⟨m, hm, hentry, ((table_entries rfl hnone hm).1 _ _).mp ⟨hentry, hdead⟩⟩

/-- A client disconnects while its upload is streamed, and nobody else is there.  The upload is over, and
the table still has an entry for its destination. -/
theorem entry_left_behind :
    let c : Config := { dashMode := .contentId }
    let labelled : Request := ⟨"/dash", [⟨"x-content-id", Bytes.ofString "a.webm"⟩,
      ⟨"content-length", Bytes.ofString "5"⟩], [⟨0, .data [1]⟩, ⟨20, .data [2, 3, 4, 5]⟩]⟩
    let hs : List Machine.Happening :=
      .arrive labelled :: List.replicate 4 (.move 0) ++ [.pass 10, .disconnect 0]
    c.validate = .ok () ∧
      ∃ m, (Machine.ofIngest (.start c Tree.empty)).afterAll hs = some m ∧
        m.table.entries = [("./a.webm", 0)] ∧ ∀ i d l, ¬ m.Live i d l := by
  intro c labelled hs
  have hreached : ((Machine.ofIngest (.start c Tree.empty)).afterAll hs).map (fun m =>
      (m.table.entries, m.tasks.all (·.stage.ref?.isNone))) =
      some ([("./a.webm", 0)], true) := by decide +kernel
  rw [Option.map_eq_some_iff] at hreached
  obtain ⟨m, hm, hstate⟩ := hreached
  obtain ⟨hentries, hover⟩ := Prod.mk.inj hstate
  refine ⟨by decide +kernel, m, hm, hentries, Machine.not_live fun t ht => ?_⟩
  simpa using List.all_eq_true.mp hover t ht

end LiveIngest.Traffic
