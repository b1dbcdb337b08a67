import LiveIngest.Proofs.Moves

/-!
# Who holds what

Two uploads never use the same destination at the same time.  The lock that a task uses is the one
that the table has for its destination (`Locked.entry`): the entry of a destination stays as long as
some task refers to its lock, because the references are counted (`Locked.refs`).  So two tasks with
one destination share one lock, and it has one holder (`Locked.exclusive`).

The sequencer is held by whoever has a ticket (`Ticketed`), so there is one ticket at most.
-/

namespace LiveIngest.Traffic

open LiveIngest.Upload

/-! ## One element of a list changes -/

/-- Counting before and after one element is replaced.  Written with sums on both sides, so that it
needs no subtraction and `omega` can use it. -/
theorem countP_set_add {α : Type} (p : α → Bool) {a : α} (b : α) {l : List α} {i : Nat}
    (h : l[i]? = some a) :
    (l.set i b).countP p + (if p a then 1 else 0) = l.countP p + (if p b then 1 else 0) := by
  obtain ⟨hi, rfl⟩ := List.getElem?_eq_some_iff.mp h
  have hle := List.boole_getElem_le_countP (p := p) hi
  rw [List.countP_set hi]
  omega

/-- What stands where after one element was replaced: the new one in its place, the old ones
elsewhere.  Tasks are looked up by number all the time, and most proofs split here. -/
theorem getElem?_set_cases {α : Type} {l : List α} {i j : Nat} {a b : α}
    (h : (l.set i a)[j]? = some b) : (j = i ∧ b = a) ∨ (j ≠ i ∧ l[j]? = some b) := by
  rw [List.getElem?_set] at h
  by_cases hij : i = j
  · rw [if_pos hij] at h
    split at h
    · exact Or.inl ⟨hij.symm, (Option.some.inj h).symm⟩
    · simp at h
  · rw [if_neg hij] at h
    exact Or.inr ⟨fun e => hij e.symm, h⟩

/-- What stands where after one element was added: what stood there before, or the new one. -/
theorem getElem?_concat_cases {α : Type} {l : List α} {j : Nat} {a b : α}
    (h : (l ++ [a])[j]? = some b) : l[j]? = some b ∨ b = a := by
  rw [List.getElem?_append] at h
  split at h
  · exact Or.inl h
  · exact Or.inr (by simpa using List.mem_of_getElem? h)

/-! ## Mutexes -/

namespace Mutex

/-- Coming in takes a lock from nobody. -/
theorem holder_enter {m : Mutex} {i j : TaskId} (h : m.holder = some j) :
    (m.enter i).holder = some j := by
  rw [enter, h]

/-- Going takes a lock from nobody but oneself: whoever goes without holding it only leaves the
line. -/
theorem holder_leave {m : Mutex} {i j : TaskId} (h : m.holder = some j) (hij : j ≠ i) :
    (m.leave i).holder = some j := by
  have hne : m.holder ≠ some i := by
    rw [h]
    simpa using hij
  rw [leave, if_neg hne]
  exact h

/-- Everybody in line, the holder first. -/
def line (m : Mutex) : List TaskId := m.holder.toList ++ m.waiting

/-- Nobody waits for a lock that is free.  Every lock starts like this, and handing over keeps it
so. -/
def Orderly (m : Mutex) : Prop := m.holder = none → m.waiting = []

/-- Whoever holds a lock is the first in line. -/
theorem line_of_holder {m : Mutex} {i : TaskId} (h : m.holder = some i) :
    m.line = i :: m.waiting := by
  rw [line, h]
  rfl

/-- Whoever comes goes to the end of the line, also when the line is empty and he gets the lock at
once. -/
theorem line_enter {m : Mutex} (h : m.Orderly) (i : TaskId) : (m.enter i).line = m.line ++ [i] := by
  unfold enter line
  cases hh : m.holder with
  | none => simp [h hh]
  | some j => simp

/-- After somebody came the lock is not free. -/
theorem orderly_enter (m : Mutex) (i : TaskId) : (m.enter i).Orderly := by
  intro hnone
  unfold enter at hnone
  cases hh : m.holder with
  | none => simp [hh] at hnone
  | some j => simp [hh] at hnone

/-- Whoever goes leaves the others in their order.  If it was the holder the next one in line holds
the lock now, which is to say the same. -/
theorem line_leave (m : Mutex) (i : TaskId) : (m.leave i).line = m.line.erase i := by
  unfold leave line
  split
  · rename_i hh
    unfold handOver
    cases hw : m.waiting with
    | nil => simp [hh]
    | cons j rest => simp [hh]
  · rename_i hh
    cases hj : m.holder with
    | none => simp
    | some j =>
      -- the holder is somebody else, so he is not the one who is erased
      have hne : ¬(j == i) = true := by
        rw [beq_iff_eq]
        rintro rfl
        exact hh hj
      simp [hne]

/-- A lock is only left free when nobody waits for it. -/
theorem Orderly.leave {m : Mutex} (h : m.Orderly) (i : TaskId) : (m.leave i).Orderly := by
  intro hnone
  unfold Mutex.leave at hnone ⊢
  split at hnone
  · rename_i hh
    rw [if_pos hh]
    unfold handOver at hnone ⊢
    cases hw : m.waiting with
    | nil => rfl
    | cons j rest => simp [hw] at hnone
  · rename_i hh
    rw [if_neg hh]
    show m.waiting.erase i = []
    rw [h hnone]
    rfl

end Mutex

/-! ## The table of locks -/

namespace LockTable

/-- The number of references to a lock.  Locks that are not there have none. -/
def refs (t : LockTable) (l : LockId) : Nat :=
  match t.locks[l]? with
  | some lock => lock.refs
  | none => 0

/-- A lock is referenced if its number of references is not zero. -/
theorem isReferenced_eq (t : LockTable) (l : LockId) : t.isReferenced l = (t.refs l != 0) := by
  rw [isReferenced, refs]
  cases t.locks[l]? <;> rfl

/-- Using a mutex changes no entry. -/
@[simp] theorem entry?_onMutex (t : LockTable) (l : LockId) (f : Mutex → Mutex) (d : String) :
    LockTable.entry? (t.onMutex l f) d = t.entry? d := rfl

/-- Counting references changes no entry. -/
@[simp] theorem entry?_onRefs (t : LockTable) (l : LockId) (f : Nat → Nat) (d : String) :
    LockTable.entry? (t.onRefs l f) d = t.entry? d := rfl

/-- Nor does it make or remove a lock. -/
@[simp] theorem length_onMutex (t : LockTable) (l : LockId) (f : Mutex → Mutex) :
    (t.onMutex l f).locks.length = t.locks.length := List.length_modify ..

/-- The same for counting references. -/
@[simp] theorem length_onRefs (t : LockTable) (l : LockId) (f : Nat → Nat) :
    (t.onRefs l f).locks.length = t.locks.length := List.length_modify ..

/-- Using a mutex does not show in the references of any lock. -/
theorem refs_onMutex (t : LockTable) (l k : LockId) (f : Mutex → Mutex) :
    (t.onMutex l f).refs k = t.refs k := by
  rw [refs, refs, onMutex, List.getElem?_modify]
  by_cases h : l = k
  · cases hk : t.locks[k]? <;> simp [h]
  · cases hk : t.locks[k]? <;> simp [h]

/-- And counting references does not show in any mutex: the two halves of a lock are independent. -/
theorem mutex_onRefs (t : LockTable) (l k : LockId) (f : Nat → Nat) :
    (t.onRefs l f).mutex k = t.mutex k := by
  rw [mutex, mutex, onRefs, List.getElem?_modify]
  by_cases h : l = k
  · cases hk : t.locks[k]? <;> simp [h]
  · cases hk : t.locks[k]? <;> simp [h]

/-- The references of the lock that is changed. -/
theorem refs_onRefs_self {t : LockTable} {l : LockId} (h : l < t.locks.length) (f : Nat → Nat) :
    (t.onRefs l f).refs l = f (t.refs l) := by
  rw [refs, refs, onRefs, List.getElem?_modify, List.getElem?_eq_getElem h]
  simp

/-- Those of all others stay as they are. -/
theorem refs_onRefs_ne {t : LockTable} {l k : LockId} (h : k ≠ l) (f : Nat → Nat) :
    (t.onRefs l f).refs k = t.refs k := by
  have hlk : l ≠ k := fun e => h e.symm
  rw [refs, refs, onRefs, List.getElem?_modify]
  cases hk : t.locks[k]? <;> simp [hlk]

/-- The mutex of the lock that is changed. -/
theorem mutex_onMutex_self {t : LockTable} {l : LockId} (h : l < t.locks.length)
    (f : Mutex → Mutex) : (t.onMutex l f).mutex l = f (t.mutex l) := by
  rw [mutex, mutex, onMutex, List.getElem?_modify, List.getElem?_eq_getElem h]
  simp

/-- Those of all others stay as they are. -/
theorem mutex_onMutex_ne {t : LockTable} {l k : LockId} (h : k ≠ l) (f : Mutex → Mutex) :
    (t.onMutex l f).mutex k = t.mutex k := by
  have hlk : l ≠ k := fun e => h e.symm
  rw [mutex, mutex, onMutex, List.getElem?_modify]
  cases hk : t.locks[k]? <;> simp [hlk]

/-- A change of the mutex does not show in the references, so leaving a lock and giving the
reference back can be looked at one by one. -/
theorem refs_dropRef_onMutex (t : LockTable) (l k : LockId) (f : Mutex → Mutex) :
    ((t.onMutex l f).dropRef l).refs k = (t.dropRef l).refs k := by
  rw [refs, refs, dropRef, dropRef, onRefs, onRefs, onMutex, List.getElem?_modify,
    List.getElem?_modify, List.getElem?_modify]
  by_cases h : l = k
  · cases hk : t.locks[k]? <;> simp [h]
  · cases hk : t.locks[k]? <;> simp [h]

/-- A table with a fresh lock for a destination, referred to once.  Locks are numbered in the order
in which they are made and never reused, so an old number never means a new lock. -/
def fresh (t : LockTable) (d : String) : LockTable :=
  ⟨(d, t.locks.length) :: t.entries, t.locks ++ [⟨Mutex.free, 1⟩]⟩

/-- The destination has the fresh lock; all others have what they had. -/
theorem entry?_fresh (t : LockTable) (d d' : String) :
    LockTable.entry? (t.fresh d) d' = if d' = d then some t.locks.length else t.entry? d' := by
  unfold entry? fresh
  rw [List.lookup_cons]
  by_cases hd : d' = d
  · simp [hd]
  · have hbeq : (d' == d) = false := by simpa using hd
    rw [hbeq, if_neg hd]

/-- There is one lock more. -/
theorem length_fresh (t : LockTable) (d : String) :
    (t.fresh d).locks.length = t.locks.length + 1 := by
  rw [fresh, List.length_append, List.length_singleton]

/-- The fresh lock has one reference, that of whoever asked for it. -/
theorem refs_fresh (t : LockTable) (d : String) (k : LockId) :
    (t.fresh d).refs k = if k = t.locks.length then 1 else t.refs k := by
  rw [refs, refs, fresh]
  rcases Nat.lt_trichotomy k t.locks.length with h | h | h
  · rw [if_neg (Nat.ne_of_lt h), List.getElem?_append_left h]
  · subst h
    simp
  · rw [if_neg (Nat.ne_of_gt h), List.getElem?_eq_none (Nat.le_of_lt h),
      List.getElem?_eq_none (by simpa using Nat.succ_le_of_lt h)]

/-- Making a lock takes none from anybody. -/
theorem holder_fresh {t : LockTable} {k : LockId} {j : TaskId} (d : String)
    (h : (t.mutex k).holder = some j) : ((t.fresh d).mutex k).holder = some j := by
  -- a lock that is held is one of the old ones
  have hk : k < t.locks.length := Classical.byContradiction fun hge => by
    rw [mutex, List.getElem?_eq_none (Nat.le_of_not_lt hge)] at h
    exact absurd h (by simp [Mutex.free])
  rw [mutex, fresh, List.getElem?_append_left hk]
  exact h

/-- Asking for the lock of a destination that has none makes a fresh one. -/
theorem reference_of_none {t : LockTable} {d : String} (h : t.entry? d = none) :
    t.reference d = (t.locks.length, t.fresh d) := by
  rw [reference, h]
  rfl

/-- Taking the entry of one destination out leaves the others: what is still found was found before,
and is not the one taken out. -/
theorem lookup_filter (d : String) :
    ∀ (es : List (String × LockId)) (d' : String) (l : LockId),
      (es.filter fun e => !(e.1 == d)).lookup d' = some l → d' ≠ d ∧ es.lookup d' = some l
  | [], d', l, h => by simp at h
  | (e, k) :: es, d', l, h => by
    have ih := lookup_filter d es d' l
    by_cases he : e = d
    · subst he
      rw [List.filter_cons_of_neg (by simp)] at h
      obtain ⟨hne, hl⟩ := ih h
      have hbeq : (d' == e) = false := by simpa using hne
      exact ⟨hne, by rw [List.lookup_cons, hbeq]; exact hl⟩
    · rw [List.filter_cons_of_pos (by simpa using he), List.lookup_cons] at h
      rw [List.lookup_cons]
      cases hbeq : d' == e with
      | true =>
        rw [hbeq] at h
        exact ⟨fun hd => he ((by simpa using hbeq : d' = e).symm.trans hd), h⟩
      | false =>
        rw [hbeq] at h
        exact ih h

/-- The converse: the others are still found. -/
theorem lookup_filter_of_ne {d : String} :
    ∀ (es : List (String × LockId)) (d' : String), d' ≠ d →
      (es.filter fun e => !(e.1 == d)).lookup d' = es.lookup d'
  | [], d', _ => rfl
  | (e, k) :: es, d', hne => by
    have ih := lookup_filter_of_ne es d' hne
    by_cases he : e = d
    · subst he
      have hbeq : (d' == e) = false := by simpa using hne
      rw [List.filter_cons_of_neg (by simp), List.lookup_cons, hbeq]
      exact ih
    · rw [List.filter_cons_of_pos (by simpa using he), List.lookup_cons, List.lookup_cons, ih]

/-- A change that keeps the holder of a mutex keeps all holders, since all other mutexes stay as
they are. -/
theorem holder_onMutex {t : LockTable} {l k : LockId} {j : TaskId} (hl : l < t.locks.length)
    {f : Mutex → Mutex} (hf : ∀ m : Mutex, m.holder = some j → (f m).holder = some j)
    (h : (t.mutex k).holder = some j) : ((t.onMutex l f).mutex k).holder = some j := by
  by_cases hk : k = l
  · subst hk
    rw [mutex_onMutex_self hl]
    exact hf _ h
  · rw [mutex_onMutex_ne hk]
    exact h

end LockTable

/-! ## Tasks and their locks -/

/-- The destination whose lock a task refers to, with the lock: from asking for it until the
reference is given back. -/
def Stage.ref? : Stage → Option (String × LockId)
  | .asking _ d _ l => some (d, l)
  | .waiting _ d _ l => some (d, l)
  | .streaming _ d _ l => some (d, l)
  | .publishing _ d _ l => some (d, l)
  | .dropping _ d _ l => some (d, l)
  | .unlocking _ d _ l => some (d, l)
  | .releasing _ d _ l => some (d, l)
  | _ => none

/-- The lock that a task uses.  This is less than referring to it: who waits has a reference but not
the lock, and after unlocking the reference is still there. -/
def Stage.lock? : Stage → Option LockId
  | .streaming _ _ _ l => some l
  | .publishing _ _ _ l => some l
  | .dropping _ _ _ l => some l
  | .unlocking _ _ _ l => some l
  | _ => none

/-- Whether a task refers to a lock. -/
def Task.refersTo (l : LockId) (t : Task) : Bool := t.stage.ref?.map (·.2) == some l

/-- Referring to the lock of a destination is referring to the lock. -/
theorem Task.refersTo_of_ref? {t : Task} {d : String} {l : LockId}
    (h : t.stage.ref? = some (d, l)) : t.refersTo l = true := by
  simp [refersTo, h]

/-- The table of locks fits the tasks.  Of the references only this is needed: the table never
counts fewer than there are, so no entry is taken out too early. -/
structure Locked (table : LockTable) (tasks : List Task) : Prop where
  /-- A task refers to the lock that its destination has now. -/
  entry : ∀ (i : TaskId) (t : Task) d l, tasks[i]? = some t → t.stage.ref? = some (d, l) → table.entry? d = some l
  bound : ∀ d l, table.entry? d = some l → l < table.locks.length
  /-- No two destinations have the same lock. -/
  injective : ∀ d d' l, table.entry? d = some l → table.entry? d' = some l → d = d'
  refs : ∀ l, tasks.countP (Task.refersTo l) ≤ table.refs l
  held : ∀ (i : TaskId) (t : Task) l, tasks[i]? = some t → t.stage.lock? = some l → (table.mutex l).holder = some i

namespace Locked

variable {table table' : LockTable} {tasks : List Task} {i : TaskId} {t t' : Task}

/-- Who uses a lock refers to it. -/
theorem ref_of_lock {l : LockId} (h : t.stage.lock? = some l) :
    ∃ d, t.stage.ref? = some (d, l) := by
  cases hs : t.stage <;> simp_all [Stage.lock?, Stage.ref?]

/-- An empty table of locks fits tasks that refer to none. -/
theorem of_refs (h : ∀ t ∈ tasks, t.stage.ref? = none) : Locked .empty tasks := by
  have hnone : ∀ d l, LockTable.empty.entry? d ≠ some l := by
    intro d l hl
    cases hl
  refine ⟨fun i t d l hi ht => ?_, fun d l hl => absurd hl (hnone d l),
    fun d _ l hl => absurd hl (hnone d l), fun l => ?_, fun i t l hi hl => ?_⟩
  · rw [h t (List.mem_of_getElem? hi)] at ht
    exact absurd ht (by simp)
  · have hzero : tasks.countP (Task.refersTo l) = 0 := by
      refine List.countP_eq_zero.mpr fun t ht => ?_
      simp [Task.refersTo, h t ht]
    rw [hzero]
    exact Nat.zero_le _
  · obtain ⟨d, hd⟩ := ref_of_lock hl
    rw [h t (List.mem_of_getElem? hi)] at hd
    exact absurd hd (by simp)

/-- In particular it fits an endpoint to which nobody has come yet. -/
theorem empty : Locked .empty [] := of_refs (by simp)

/-- A task that comes in refers to nothing, so it changes nothing about the locks. -/
theorem arrival (h : Locked table tasks) (hr : t.stage.ref? = none) :
    Locked table (tasks ++ [t]) := by
  have hlock : t.stage.lock? = none := by
    cases hl : t.stage.lock? with
    | none => rfl
    | some l =>
      obtain ⟨d, hd⟩ := ref_of_lock hl
      rw [hr] at hd
      exact absurd hd (by simp)
  refine ⟨fun j u d l hj hu => ?_, h.bound, h.injective, fun l => ?_, fun j u l hj hu => ?_⟩
  · rcases getElem?_concat_cases hj with hj | rfl
    · exact h.entry j u d l hj hu
    · rw [hr] at hu
      exact absurd hu (by simp)
  · have hfalse : t.refersTo l = false := by simp [Task.refersTo, hr]
    rw [List.countP_append, List.countP_singleton, hfalse]
    exact h.refs l
  · rcases getElem?_concat_cases hj with hj | rfl
    · exact h.held j u l hj hu
    · rw [hlock] at hu
      exact absurd hu (by simp)

/-- One task and the table change, and nobody else notices.  The hypotheses say what a change has to
respect: the entries of the other tasks, the references that they hold, and the locks that they use.
All moves are instances of this. -/
theorem change (h : Locked table tasks) (hi : tasks[i]? = some t)
    (hentry : ∀ (j : TaskId) (u : Task) d l, j ≠ i → tasks[j]? = some u →
      u.stage.ref? = some (d, l) → table'.entry? d = some l)
    (hbound : ∀ d l, table'.entry? d = some l → l < table'.locks.length)
    (hinjective : ∀ d d' l, table'.entry? d = some l → table'.entry? d' = some l → d = d')
    (hrefs : ∀ k, table.refs k + (if t'.refersTo k then 1 else 0) ≤
      table'.refs k + (if t.refersTo k then 1 else 0))
    (hheld : ∀ j k, j ≠ i → (table.mutex k).holder = some j → (table'.mutex k).holder = some j)
    (href : ∀ d l, t'.stage.ref? = some (d, l) → table'.entry? d = some l)
    (hlock : ∀ l, t'.stage.lock? = some l → (table'.mutex l).holder = some i) :
    Locked table' (tasks.set i t') := by
  refine ⟨fun j u d l hj hu => ?_, hbound, hinjective, fun k => ?_, fun j u l hj hu => ?_⟩
  · rcases getElem?_set_cases hj with ⟨rfl, rfl⟩ | ⟨hne, hj⟩
    · exact href d l hu
    · exact hentry j u d l hne hj hu
  · have hcount := countP_set_add (Task.refersTo k) t' hi
    have hle := h.refs k
    have := hrefs k
    omega
  · rcases getElem?_set_cases hj with ⟨rfl, rfl⟩ | ⟨hne, hj⟩
    · exact hlock l hu
    · exact hheld j l hne (h.held j u l hj hu)

/-- A change that keeps the entries of the table: only mutexes and references are touched. -/
theorem change_locks (h : Locked table tasks) (hi : tasks[i]? = some t)
    (hentries : ∀ d, table'.entry? d = table.entry? d)
    (hlength : table'.locks.length = table.locks.length)
    (hrefs : ∀ k, table.refs k + (if t'.refersTo k then 1 else 0) ≤
      table'.refs k + (if t.refersTo k then 1 else 0))
    (hheld : ∀ j k, j ≠ i → (table.mutex k).holder = some j → (table'.mutex k).holder = some j)
    (href : ∀ d l, t'.stage.ref? = some (d, l) → table.entry? d = some l)
    (hlock : ∀ l, t'.stage.lock? = some l → (table'.mutex l).holder = some i) :
    Locked table' (tasks.set i t') := by
  refine h.change hi (fun j u d l _ hj hu => ?_) (fun d l hl => ?_) (fun d d' l hl hl' => ?_) hrefs
    hheld (fun d l hl => ?_) hlock
  · rw [hentries]
    exact h.entry j u d l hj hu
  · rw [hlength]
    exact h.bound d l (hentries d ▸ hl)
  · rw [hentries] at hl hl'
    exact h.injective d d' l hl hl'
  · rw [hentries]
    exact href d l hl

/-- A move that leaves the table as it is: the task goes on referring to the same lock, and uses it
only if it holds it. -/
theorem keep (h : Locked table tasks) (hi : tasks[i]? = some t)
    (href : t'.stage.ref? = t.stage.ref?)
    (hlock : ∀ l, t'.stage.lock? = some l → (table.mutex l).holder = some i) :
    Locked table (tasks.set i t') := by
  refine h.change_locks hi (fun _ => rfl) rfl (fun k => ?_) (fun _ _ _ hk => hk) (fun d l hl => ?_)
    hlock
  · exact Nat.le_of_eq (by rw [Task.refersTo, href, Task.refersTo])
  · exact h.entry i t d l hi (href ▸ hl)

/-- A change of one mutex by its own task, which does not use the lock afterwards: it gets in line
or it unlocks. -/
theorem onMutex (h : Locked table tasks) (hi : tasks[i]? = some t) {d : String} {l : LockId}
    (ht : t.stage.ref? = some (d, l)) (href : t'.stage.ref? = t.stage.ref?)
    (hlock : t'.stage.lock? = none) {f : Mutex → Mutex}
    (hf : ∀ (m : Mutex) j, j ≠ i → m.holder = some j → (f m).holder = some j) :
    Locked (table.onMutex l f) (tasks.set i t') := by
  have hl : l < table.locks.length := h.bound d l (h.entry i t d l hi ht)
  refine h.change_locks hi (fun _ => rfl) (LockTable.length_onMutex ..) (fun k => ?_)
    (fun j k hj hk => ?_) (fun d' k hk => ?_) (by simp [hlock])
  · exact Nat.le_of_eq (by rw [LockTable.refs_onMutex, Task.refersTo, href, Task.refersTo])
  · exact LockTable.holder_onMutex hl (fun m hm => hf m j hj hm) hk
  · exact h.entry i t d' k hi (href ▸ hk)

/-- The references after a task gave one back.  The table counts one less, and so do the tasks. -/
theorem refs_dropRef (h : Locked table tasks) (hi : tasks[i]? = some t) {d : String} {l : LockId}
    (ht : t.stage.ref? = some (d, l)) (ht' : t'.stage.ref? = none) (k : LockId) :
    table.refs k + (if t'.refersTo k then 1 else 0) ≤
      (table.dropRef l).refs k + (if t.refersTo k then 1 else 0) := by
  have hlt : l < table.locks.length := h.bound d l (h.entry i t d l hi ht)
  have hafter : t'.refersTo k = false := by simp [Task.refersTo, ht']
  rw [hafter, LockTable.dropRef]
  by_cases hk : k = l
  · subst hk
    rw [LockTable.refs_onRefs_self hlt, Task.refersTo_of_ref? ht]
    simp only [Bool.false_eq_true, if_true, if_false]
    -- one reference less on both sides; this does not even need that the table had one to drop
    omega
  · rw [LockTable.refs_onRefs_ne hk]
    simp

/-- A task vanishes from its lock: it leaves the line or the lock itself, and its reference is
dropped.  The entry stays in the table, even if it was the last one. -/
theorem abandon (h : Locked table tasks) (hi : tasks[i]? = some t) {d : String} {l : LockId}
    (ht : t.stage.ref? = some (d, l)) (ht' : t'.stage.ref? = none) :
    Locked ((table.onMutex l (·.leave i)).dropRef l) (tasks.set i t') := by
  have hl : l < table.locks.length := h.bound d l (h.entry i t d l hi ht)
  refine h.change_locks hi (fun _ => rfl) ?_ (fun k => ?_) (fun j k hj hk => ?_) (by simp [ht'])
    (fun k hk => ?_)
  · rw [LockTable.dropRef, LockTable.length_onRefs, LockTable.length_onMutex]
  · rw [LockTable.refs_dropRef_onMutex]
    exact h.refs_dropRef hi ht ht' k
  · rw [LockTable.dropRef, LockTable.mutex_onRefs]
    exact LockTable.holder_onMutex hl (fun m hm => Mutex.holder_leave hm hj) hk
  · obtain ⟨d', hd'⟩ := ref_of_lock hk
    rw [ht'] at hd'
    exact absurd hd' (by simp)

/-- Giving the reference back: the entry stays as long as somebody else refers to the lock. -/
theorem release (h : Locked table tasks) (hi : tasks[i]? = some t) {d : String} {l : LockId}
    (ht : t.stage.ref? = some (d, l)) (ht' : t'.stage.ref? = none) :
    Locked (table.release d l) (tasks.set i t') := by
  have hentry : table.entry? d = some l := h.entry i t d l hi ht
  have hnolock : ∀ k, t'.stage.lock? ≠ some k := fun k hk => by
    obtain ⟨d', hd'⟩ := ref_of_lock hk
    rw [ht'] at hd'
    exact absurd hd' (by simp)
  -- until the entry is taken out this is like any other reference given back
  have hdrop : Locked (table.dropRef l) (tasks.set i t') := by
    refine h.change_locks hi (fun _ => rfl) (LockTable.length_onRefs ..) (h.refs_dropRef hi ht ht')
      (fun j k _ hk => ?_) (by simp [ht']) (fun k hk => absurd hk (hnolock k))
    rw [LockTable.dropRef, LockTable.mutex_onRefs]
    exact hk
  have hentry' : LockTable.entry? (table.dropRef l) d = some l := hentry
  unfold LockTable.release
  simp only [hentry']
  split
  · exact hdrop
  · rename_i hunref
    rw [LockTable.isReferenced_eq] at hunref
    have hzero : (table.dropRef l).refs l = 0 := by simpa using hunref
    -- nobody refers to the lock any more, so the entry is in nobody's way
    have hnobody : ∀ (j : TaskId) (u : Task), (tasks.set i t')[j]? = some u →
        ∀ d', u.stage.ref? ≠ some (d', l) := by
      intro j u hj d' href
      have hpos := List.countP_pos_iff.mpr
        ⟨u, List.mem_of_getElem? hj, Task.refersTo_of_ref? href⟩
      have := hdrop.refs l
      omega
    refine ⟨fun j u d' k hj hu => ?_, fun d' k hk => ?_, fun d' d'' k hk hk' => ?_, hdrop.refs,
      hdrop.held⟩
    · have hk := hdrop.entry j u d' k hj hu
      have hne : d' ≠ d := by
        rintro rfl
        rw [hentry', Option.some.injEq] at hk
        subst hk
        exact hnobody j u hj d' hu
      exact (LockTable.lookup_filter_of_ne _ d' hne).trans hk
    · exact hdrop.bound d' k (LockTable.lookup_filter d _ d' k hk).2
    · exact hdrop.injective d' d'' k (LockTable.lookup_filter d _ d' k hk).2
        (LockTable.lookup_filter d _ d'' k hk').2

/-- A reference to a fresh lock.  Nobody else can refer to it yet, since its number is new. -/
theorem fresh (h : Locked table tasks) (hi : tasks[i]? = some t) {d : String}
    (hd : table.entry? d = none) (ht : t.stage.ref? = none)
    (ht' : t'.stage.ref? = some (d, table.locks.length)) (hlock : t'.stage.lock? = none) :
    Locked (table.fresh d) (tasks.set i t') := by
  refine h.change hi (fun j u d' k _ hj hu => ?_) (fun d' k hk => ?_) (fun d' d'' k hk hk' => ?_)
    (fun k => ?_) (fun j k _ hk => LockTable.holder_fresh d hk) (fun d' k hk => ?_) (by simp [hlock])
  · have hk := h.entry j u d' k hj hu
    have hne : d' ≠ d := by
      rintro rfl
      rw [hd] at hk
      exact absurd hk (by simp)
    rw [LockTable.entry?_fresh, if_neg hne]
    exact hk
  · rw [LockTable.entry?_fresh] at hk
    rw [LockTable.length_fresh]
    split at hk
    · rw [← Option.some.inj hk]
      exact Nat.lt_succ_self _
    · exact Nat.lt_succ_of_lt (h.bound d' k hk)
  · -- the fresh lock is none of the old ones
    rw [LockTable.entry?_fresh] at hk hk'
    split at hk
    · rename_i he
      split at hk'
      · rename_i he'
        exact he.trans he'.symm
      · have := h.bound d'' k hk'
        rw [← Option.some.inj hk] at this
        exact absurd this (Nat.lt_irrefl _)
    · split at hk'
      · have := h.bound d' k hk
        rw [← Option.some.inj hk'] at this
        exact absurd this (Nat.lt_irrefl _)
      · exact h.injective d' d'' k hk hk'
  · have hbefore : t.refersTo k = false := by simp [Task.refersTo, ht]
    rw [hbefore, LockTable.refs_fresh]
    by_cases hk : k = table.locks.length
    · subst hk
      have hzero : table.refs table.locks.length = 0 := by simp [LockTable.refs]
      rw [if_pos rfl, hzero, Task.refersTo_of_ref? ht']
      simp
    · have hafter : t'.refersTo k = false := by
        simpa [Task.refersTo, ht'] using fun e => hk e.symm
      exact Nat.le_of_eq (by rw [if_neg hk, hafter])
  · rw [ht', Option.some.injEq, Prod.mk.injEq] at hk
    rw [LockTable.entry?_fresh, if_pos hk.1.symm, ← hk.2]

/-- Taking a reference, to a lock that is there or to a fresh one.  Either way the destination has
an entry afterwards, and the task refers to that. -/
theorem reference (h : Locked table tasks) (hi : tasks[i]? = some t) {d : String}
    (ht : t.stage.ref? = none) (ht' : t'.stage.ref? = some (d, (table.reference d).1))
    (hlock : t'.stage.lock? = none) : Locked (table.reference d).2 (tasks.set i t') := by
  cases hl : table.entry? d with
  | none =>
    rw [LockTable.reference_of_none hl] at ht' ⊢
    exact h.fresh hi hl ht ht' hlock
  | some l =>
    -- the lock is there: its count goes up by the reference of this task
    have hlt : l < table.locks.length := h.bound d l hl
    have hbefore : ∀ k, t.refersTo k = false := fun k => by simp [Task.refersTo, ht]
    unfold LockTable.reference at ht' ⊢
    simp only [hl] at ht' ⊢
    refine h.change_locks hi (fun _ => rfl) (LockTable.length_onRefs ..) (fun k => ?_)
      (fun j k _ hk => ?_) (fun d' k hk => ?_) (by simp [hlock])
    · rw [hbefore]
      by_cases hk : k = l
      · subst hk
        rw [LockTable.refs_onRefs_self hlt, Task.refersTo_of_ref? ht']
        simp
      · have hafter : t'.refersTo k = false := by
          simpa [Task.refersTo, ht'] using fun e => hk e.symm
        exact Nat.le_of_eq (by rw [LockTable.refs_onRefs_ne hk, hafter])
    · rw [LockTable.mutex_onRefs]
      exact hk
    · rw [ht', Option.some.injEq, Prod.mk.injEq] at hk
      exact hk.1 ▸ hk.2 ▸ hl

/-- Two tasks that use the locks of one destination are one.  The destination has one entry, so they
use the same lock, and a lock has one holder. -/
theorem exclusive (h : Locked table tasks) {j : TaskId} {u : Task} {d : String} {l k : LockId}
    (hi : tasks[i]? = some t) (hj : tasks[j]? = some u) (ht : t.stage.ref? = some (d, l))
    (hu : u.stage.ref? = some (d, k)) (hl : (table.mutex l).holder = some i)
    (hk : u.stage.lock? = some k) : i = j := by
  have hentry := h.entry i t d l hi ht
  rw [h.entry j u d k hj hu, Option.some.injEq] at hentry
  subst hentry
  have hheld := h.held j u k hj hk
  rw [hl] at hheld
  exact Option.some.inj hheld

end Locked

/-! ## Moves keep the locks in order -/

/-- Quiet moves are made before there is a lock or after it was given back. -/
theorem Quiet.ref? {c : Config} {clock : Nat} {i : TaskId} {w : Shared} {t t' : Task}
    (h : Quiet c clock i w t t') :
    t.stage.ref? = none ∧ t'.stage.ref? = none ∧ t'.stage.lock? = none := by
  cases h <;> simp_all [Stage.ref?, Stage.lock?]

/-- Every move keeps the table fitting.  The cases are those of `Locked`: moves that only need the
lock they have, those that get in line or unlock, and those that take or give back a reference. -/
theorem Move.locked {c : Config} {clock : Nat} {i : TaskId} {w w' : Shared} {t t' : Task}
    {tasks : List Task} (h : Move c clock i w t w' t') (hl : Locked w.table tasks)
    (hi : tasks[i]? = some t) : Locked w'.table (tasks.set i t') := by
  have henter : ∀ (m : Mutex) j, j ≠ i → m.holder = some j → (m.enter i).holder = some j :=
    fun m j _ hm => Mutex.holder_enter hm
  have hleave : ∀ (m : Mutex) j, j ≠ i → m.holder = some j → (m.leave i).holder = some j :=
    fun m j hj hm => Mutex.holder_leave hm hj
  -- who used the lock before uses it still
  have hstay : ∀ {l}, t.stage.lock? = some l → (w.table.mutex l).holder = some i :=
    fun hlock => hl.held i t _ hi hlock
  cases h with
  | quiet h =>
    obtain ⟨ht, ht', hlock⟩ := h.ref?
    exact hl.keep hi (by rw [ht, ht']) (by simp [hlock])
  | enqueue hs => exact hl.keep hi (by simp [hs, Stage.ref?]) (by simp [Stage.lock?])
  | refer hs => exact hl.reference hi (by simp [hs, Stage.ref?]) rfl rfl
  | ask hs =>
    exact hl.onMutex hi (by rw [hs]; rfl) (by rw [hs]; rfl) rfl henter
  | append hs hheld | create hs hheld | createFails hs hheld =>
    -- the lock was waited for, and is held now
    refine hl.keep hi (by simp [hs, Stage.ref?]) fun l hlock => ?_
    cases hlock
    exact hheld
  | streamOn hs | streamed hs | streamFails hs | publish hs | publishFails hs | drop hs =>
    refine hl.keep hi (by simp [hs, Stage.ref?]) fun l hlock => hstay ?_
    rw [hs]; exact hlock
  | unlock hs =>
    exact hl.onMutex hi (by rw [hs]; rfl) (by rw [hs]; rfl) rfl hleave
  | release hs => exact hl.release hi (by simp [hs, Stage.ref?]) rfl
  | count hs => exact hl.keep hi (by simp [hs, Stage.ref?]) (by simp [Stage.lock?])
  | leave hs => exact hl.keep hi (by simp [hs, Stage.ref?]) (by simp [Stage.lock?])
  | vanish h =>
    cases h with
    | waiting hs | streaming hs | uncreated hs | unstreamed hs =>
      simp only [Shared.without, Shared.tableWithout, hs]
      exact hl.abandon hi (by rw [hs]; rfl) rfl
    | queued hs | buffering hs | unstarted hs | uncollected hs | unreported hs =>
      simp only [Shared.without, Shared.tableWithout, hs]
      exact hl.keep hi (by rw [hs]; rfl) (by simp [Stage.lock?])

/-! ## The sequencer -/

/-- Whoever has a ticket holds the sequencer, from the index being issued until it is committed or
given up.  So at most one index is open at a time. -/
def Ticketed (sequencer : Mutex) (tasks : List Task) : Prop :=
  ∀ (i : TaskId) (t : Task), tasks[i]? = some t → t.ticket ≠ none → t.stage.isOver = false →
    sequencer.holder = some i

section

variable {c : Config} {clock : Nat} {i : TaskId} {w w' : Shared} {t t' : Task} {tasks : List Task}

/-- One task and the sequencer change, and nobody else loses it: leaving takes it from oneself only.
-/
theorem Ticketed.change {sequencer sequencer' : Mutex} (h : Ticketed sequencer tasks)
    (hothers : ∀ j, j ≠ i → sequencer.holder = some j → sequencer'.holder = some j)
    (hself : t'.ticket ≠ none → t'.stage.isOver = false → sequencer'.holder = some i) :
    Ticketed sequencer' (tasks.set i t') := by
  intro j u hj hticket hover
  rcases getElem?_set_cases hj with ⟨rfl, rfl⟩ | ⟨hne, hj⟩
  · exact hself hticket hover
  · exact hothers j hne (h j u hj hticket hover)

/-- Only issuing an index gives a ticket. -/
theorem Quiet.ticket (h : Quiet c clock i w t t') :
    t'.ticket = t.ticket ∧ t.stage.isOver = false ∨ w.sequencer.holder = some i := by
  cases h with
  | issue hs hheld h => exact Or.inr hheld
  | reject hs | skip hs | collect hs | address hs | refuse hs | collectOn hs | collectFails hs
  | unfit hs | collected hs | pass hs | uncounted hs | stale hs | answer hs =>
    exact Or.inl ⟨rfl, by rw [hs]; rfl⟩

/-- Whoever is gone is over, so nothing is asked of the locks he held. -/
theorem Gone.isOver {tree : Storage.Tree} {s : Stage} (h : Gone c clock i w t tree s) :
    s.isOver = true := by
  cases h <;> rfl

/-- Vanishing takes the sequencer from nobody else. -/
theorem Shared.holder_sequencerWithout {j : TaskId} (h : w.sequencer.holder = some j)
    (hj : j ≠ i) : (w.sequencerWithout i t).holder = some j := by
  unfold sequencerWithout
  split
  · exact Mutex.holder_leave h hj
  · exact Mutex.holder_leave h hj
  · exact h

/-- Every move keeps tickets and the sequencer together.  Only leaving and vanishing give the
sequencer up, and afterwards the task has no ticket or is over. -/
theorem Move.ticketed (h : Move c clock i w t w' t') (hl : Ticketed w.sequencer tasks)
    (hi : tasks[i]? = some t) : Ticketed w'.sequencer (tasks.set i t') := by
  have hstay : t.ticket ≠ none → t.stage.isOver = false → w.sequencer.holder = some i := hl i t hi
  cases h with
  | quiet h =>
    refine hl.change (fun _ _ hj => hj) fun hticket hover => ?_
    rcases h.ticket with ⟨hsame, hgoing⟩ | hheld
    · exact hstay (hsame ▸ hticket) hgoing
    · exact hheld
  | enqueue hs =>
    refine hl.change (fun _ _ hj => Mutex.holder_enter hj) fun hticket _ => ?_
    exact Mutex.holder_enter (hstay hticket (by rw [hs]; rfl))
  | refer hs | ask hs | append hs | create hs | createFails hs | streamOn hs | streamed hs
  | streamFails hs | publish hs | publishFails hs | drop hs | unlock hs | release hs | count hs =>
    exact hl.change (fun _ _ hj => hj) fun hticket _ => hstay hticket (by rw [hs]; rfl)
  | leave hs => exact hl.change (fun _ hj h => Mutex.holder_leave h hj) (by simp)
  | vanish h =>
    refine hl.change (fun _ hj hheld => Shared.holder_sequencerWithout hheld hj) fun _ hover => ?_
    rw [Task.stage_at, h.isOver] at hover
    exact absurd hover (by simp)

end

end LiveIngest.Traffic
