import LiveIngest.Proofs.Confining

/-!
# One call at a time for each destination

Here the writer is on its own: appends and overwrites are called on it in any number, for any bare
names of the output directory that are not shaped like those of part files, and they go on in any
order, wait for each other and vanish.  Nothing is known of who calls.

1. **Locks.**  A table of locks that is empty fits calls that have not begun (`Locked.of_refs`), and
   `Move.locked` keeps it fitting.

2. **Part files.**  What stands at the place of a part file belongs to a task that is at work on it
   (`Machine.Owned`).  `Deed.left` is the step: a task works on its own part file only, and nobody
   appends to one or renames anything to one.

3. **Calls.**  `Guarded` puts both together for all reachable states, and `Guarded.exclusive` reads
   off what that means for the critical sections.

`calls_exclusive` is the main result.
-/

namespace LiveIngest.Traffic

open LiveIngest.Storage
open LiveIngest.Storage.Path
open LiveIngest.Upload

/-! ## Destinations -/

/-- The names of destinations: bare, and not shaped like those of part files. -/
structure IsDestination (name : String) : Prop where
  bare : Config.isBareName name = true
  notPart : isPartName name = false

/-- Bare names are components, so every destination has a place. -/
theorem IsDestination.isComponent {name : String} (h : IsDestination name) : IsComponent name :=
  isComponent_of_isBareName h.bare

/-- Every destination may be appended to and overwritten. -/
def Names.destinations : Names where
  appended := IsDestination
  overwritten := IsDestination
  component h := h.elim IsDestination.isComponent IsDestination.isComponent

/-- The names of destinations are told apart by their paths. -/
theorem destination_injective {c : Config} {name name' : String} (h : IsDestination name)
    (h' : IsDestination name') (he : c.destination name = c.destination name') : name = name' :=
  join_injective h.isComponent h'.isComponent he

/-! ## Locks -/

/-- Who is at work on a part file uses the lock of its destination. -/
theorem Stage.lock_of_part {s : Stage} {d : String} (h : s.part? = some d) :
    ∃ l, s.ref? = some (d, l) ∧ s.lock? = some l := by
  cases s with
  | streaming plan d' s l => exact ⟨l, by cases h; exact ⟨rfl, rfl⟩⟩
  | publishing plan d' reading l => exact ⟨l, by cases h; exact ⟨rfl, rfl⟩⟩
  | dropping plan d' ended l => exact ⟨l, by cases h; exact ⟨rfl, rfl⟩⟩
  | _ => cases h

section

variable {c : Config} {clock : Nat} {i : TaskId} {w w' : Shared} {t t' : Task}

-- what the file operations do is told by their lemmas
attribute [local irreducible] dropPart startStreaming Streaming.step publish appendRead partPath

/-- The disk is changed by those that hold the lock of their destination only. -/
theorem Move.held_of_tree (h : Move c clock i w t w' t') (htree : w'.tree ≠ w.tree) :
    ∃ d l, t.stage.ref? = some (d, l) ∧
      (t.stage.lock? = some l ∨ (w.table.mutex l).holder = some i) := by
  cases h with
  | append hs hheld | create hs hheld | createFails hs hheld =>
    exact ⟨_, _, by rw [hs]; rfl, Or.inr hheld⟩
  | streamOn hs | streamed hs | streamFails hs | publish hs | publishFails hs | drop hs =>
    exact ⟨_, _, by rw [hs]; rfl, Or.inl (by rw [hs]; rfl)⟩
  | vanish h =>
    cases h with
    | streaming hs | unstreamed hs => exact ⟨_, _, by rw [hs]; rfl, Or.inl (by rw [hs]; rfl)⟩
    | uncreated hs hheld => exact ⟨_, _, by rw [hs]; rfl, Or.inr hheld⟩
    | _ => exact absurd rfl htree
  | _ => exact absurd rfl htree

/-! ## Part files -/

/-- What a move leaves at the place of a part file: what was there, or its own part file. -/
theorem Deed.left (h : Deed .destinations c w t w' t') {name : String} (hname : IsDestination name)
    {k : Location} (hk : partPlace w.tree c.outputDir name = .ok k)
    (hord : Tree.Ordinary (w.tree.get? k)) :
    Tree.Ordinary (w'.tree.get? k) ∧ (w'.tree.get? k ≠ none →
      w.tree.get? k ≠ none ∧ t.stage.part? ≠ some (c.destination name) ∨
        t'.stage.part? = some (c.destination name)) := by
  -- no destination has the place of a part file
  have hfree : ∀ {name' l}, IsDestination name' → w.tree.place c.outputDir name' = .ok l → k ≠ l := by
    rintro name' l hname' hl rfl
    exact not_reserved_place hl hname'.notPart (reserved_partPlace hk)
  -- a move that keeps away from the part file of the name
  have hsame : w'.tree.get? k = w.tree.get? k → t.stage.part? ≠ some (c.destination name) →
      Tree.Ordinary (w'.tree.get? k) ∧ (w'.tree.get? k ≠ none →
        w.tree.get? k ≠ none ∧ t.stage.part? ≠ some (c.destination name) ∨
          t'.stage.part? = some (c.destination name)) := by
    intro he hnot
    rw [he]
    exact ⟨hord, fun hne => Or.inl ⟨hne, hnot⟩⟩
  cases h with
  | still htree hpart =>
    by_cases hown : t.stage.part? = some (c.destination name)
    · rw [htree]
      exact ⟨hord, fun _ => Or.inr (hpart _ hown)⟩
    · exact hsame (by rw [htree]) hown
  | part hname' hown htouch hleft =>
    rename_i name'
    by_cases hk' : partPlace w.tree c.outputDir name' = .ok k
    · obtain rfl : name' = name := partName_injective (Tree.place_injective hk' hk)
      obtain ⟨hord', hstays⟩ := hleft k hk hord
      exact ⟨hord', fun hne => Or.inr (hstays hne)⟩
    · refine hsame (htouch.same k hk') fun hpart => hk' ?_
      rw [← destination_injective hname hname' (hown _ hpart)]
      exact hk
  | append hname' hnone htouch =>
    refine hsame (htouch.same k fun hplace => hfree hname' hplace rfl) fun hpart => ?_
    rw [hnone] at hpart
    exact absurd hpart (by simp)
  | publish hname' hown hk' hj hgone htouch =>
    rename_i name' k' j
    by_cases he : k = k'
    · subst he
      exact ⟨Or.inl hgone, fun hne => absurd hgone hne⟩
    · refine hsame (htouch.same k fun hl => ?_) fun hpart => ?_
      · rcases hl with hl | hl
        · exact hfree hname' hj hl
        · exact he hl
      · rw [hown, Option.some.injEq] at hpart
        rw [destination_injective hname' hname hpart] at hk'
        exact he (Except.ok.inj (hk.symm.trans hk'))

end

namespace Machine

variable {m m' : Machine}

/-- A part file belongs to a task that is at work on it. -/
def Owned (m : Machine) : Prop :=
  ∀ name k, IsDestination name → partPlace m.tree m.config.outputDir name = .ok k →
    Tree.Ordinary (m.tree.get? k) ∧ (m.tree.get? k ≠ none →
      ∃ (i : TaskId) (t : Task), m.tasks[i]? = some t ∧
        t.stage.part? = some (m.config.destination name))

/-! ## Calls -/

/-- Calls on the writer that have not begun, and no part file of a destination. -/
structure Calls (m : Machine) : Prop where
  table : m.table = .empty
  tasks : ∀ t ∈ m.tasks, ∃ plan name work,
    t.stage = .seeking plan (m.config.destination name) work ∧ IsDestination name
  noLinks : NoLinks m.tree m.config.outputDir
  noParts : ∀ name k, IsDestination name → partPlace m.tree m.config.outputDir name = .ok k →
    m.tree.get? k = none

/-- What holds in every state that calls come to. -/
structure Guarded (m : Machine) : Prop where
  locked : Locked m.table m.tasks
  confined : m.Confined .destinations
  owned : m.Owned

/-- At first nobody has a lock, nobody is at work and there is no part file. -/
theorem Calls.guarded (h : m.Calls) : m.Guarded := by
  refine ⟨?locked, ⟨h.noLinks, ?within⟩, ?owned⟩
  case locked =>
    rw [h.table]
    refine Locked.of_refs fun t ht => ?_
    obtain ⟨plan, name, work, hs, -⟩ := h.tasks t ht
    rw [hs]
    rfl
  case within =>
    intro t ht
    obtain ⟨plan, name, work, hs, hname⟩ := h.tasks t ht
    unfold Task.Within
    simp only [hs]
    refine ⟨name, rfl, ?_⟩
    cases work with
    | append payload reading => exact hname
    | overwrite declared body => exact hname
  case owned =>
    intro name k hname hk
    have hnone := h.noParts name k hname hk
    exact ⟨Or.inl hnone, fun hne => absurd hnone hne⟩

/-- A part file is still there, with the task that it belongs to, or it is the part file of the task
that moved. -/
theorem Owned.moved {i : TaskId} {t t' : Task} (howned : m.Owned) (hconf : m.Confined .destinations)
    (hi : m.tasks[i]? = some t) (hm : m.Moved i t t' m') : m'.Owned := by
  have hdeed := hconf.deed hi hm
  have hplaces : SamePlaces m.tree m'.tree m.config.outputDir := hdeed.samePlaces
  intro name k hname hk
  rw [hm.config, hplaces.partPlace_eq] at hk
  obtain ⟨hord, howner⟩ := howned name k hname hk
  obtain ⟨hord', hleft⟩ := hdeed.left hname hk hord
  refine ⟨hord', fun hne => ?_⟩
  rw [hm.config]
  rcases hleft hne with ⟨hbefore, hnot⟩ | hown
  · -- the part file belongs to a task that did not move
    obtain ⟨j, u, hj, hu⟩ := howner hbefore
    have hij : j ≠ i := by
      rintro rfl
      rw [hi, Option.some.injEq] at hj
      exact hnot (hj ▸ hu)
    exact ⟨j, u, (hm.others hij).trans hj, hu⟩
  · exact ⟨i, t', hm.self hi, hown⟩

/-- The step, for the task that moves and for all others.  Each of the three parts is kept on its
own. -/
theorem Guarded.moved {i : TaskId} {t t' : Task} (h : m.Guarded) (hi : m.tasks[i]? = some t)
    (hm : m.Moved i t t' m') : m'.Guarded := by
  refine ⟨?_, h.confined.moved hi hm, h.owned.moved h.confined hi hm⟩
  rw [hm.tasks]
  exact hm.move.locked h.locked hi

/-- Besides moves, only time passes: uploads do not arrive here, since nobody but the calls uses the
writer. -/
theorem Guarded.after {e : Happening} (h : m.Guarded) (hcalls : ∀ request, e ≠ .arrive request)
    (ha : m.after e = some m') : m'.Guarded := by
  cases happened ha with
  | arrive request => exact absurd rfl (hcalls request)
  | move hi hm => exact h.moved hi hm
  | disconnect hi hg hm => exact h.moved hi hm
  | pass clock hle => exact ⟨h.locked, ⟨h.confined.noLinks, h.confined.within⟩, h.owned⟩

/-- So every state that calls come to is guarded. -/
theorem Guarded.afterAll :
    ∀ (hs : List Happening) {m m' : Machine}, m.Guarded →
      (∀ request, .arrive request ∉ hs) → m.afterAll hs = some m' → m'.Guarded
  | [], m, m', hm, _, h => by
    cases h
    exact hm
  | e :: rest, m, m', hm, hcalls, h => by
    unfold Machine.afterAll at h
    split at h
    · simp at h
    · rename_i m₁ h₁
      have hfirst : ∀ request, e ≠ .arrive request := by
        rintro request rfl
        exact hcalls request List.mem_cons_self
      have hrest : ∀ request, .arrive request ∉ rest := fun request hmem =>
        hcalls request (List.mem_cons_of_mem e hmem)
      exact afterAll rest (hm.after hfirst h₁) hrest h

/-! ## Critical sections -/

/-- A call has taken a reference to the lock of its destination, and not given it back. -/
def Live (m : Machine) (i : TaskId) (d : String) (l : LockId) : Prop :=
  ∃ t, m.tasks[i]? = some t ∧ t.stage.ref? = some (d, l)

/-- A call holds the lock of its destination. -/
def Holds (m : Machine) (i : TaskId) (d : String) : Prop :=
  ∃ l, m.Live i d l ∧ (m.table.mutex l).holder = some i

/-- A call is in its critical section: the lock was handed to it, or it has gone on with the lock and
not unlocked it yet. -/
def Inside (m : Machine) (i : TaskId) (d : String) : Prop :=
  ∃ t l, m.tasks[i]? = some t ∧ t.stage.ref? = some (d, l) ∧
    (t.stage.lock? = some l ∨ (m.table.mutex l).holder = some i)

/-- The calls are kept apart. -/
structure Exclusive (m : Machine) : Prop where
  /-- Live calls on one destination have one lock. -/
  same : ∀ i j d l k, m.Live i d l → m.Live j d k → l = k
  /-- Live calls on different destinations have different locks. -/
  apart : ∀ i j d d' l, m.Live i d l → m.Live j d' l → d = d'
  /-- One call at most is in the critical section of a destination. -/
  one : ∀ i j d, m.Inside i d → m.Inside j d → i = j
  /-- The disk is changed from critical sections only. -/
  disk : ∀ e m', m.after e = some m' → m'.tree ≠ m.tree →
    ∃ i d, (e = .move i ∨ e = .disconnect i) ∧ m.Inside i d
  /-- A part file is there only while a call holds the lock of its destination. -/
  part : ∀ name k, IsDestination name → partPlace m.tree m.config.outputDir name = .ok k →
    m.tree.get? k ≠ none → ∃ i, m.Holds i (m.config.destination name)

/-- Who is in a critical section holds the lock. -/
theorem Guarded.holds (h : m.Guarded) {i : TaskId} {d : String} (hin : m.Inside i d) :
    m.Holds i d := by
  obtain ⟨t, l, hi, hd, hlock | hheld⟩ := hin
  · exact ⟨l, ⟨t, hi, hd⟩, h.locked.held i t l hi hlock⟩
  · exact ⟨l, ⟨t, hi, hd⟩, hheld⟩

/-- All five are read off from the table: it has one entry for a destination, one destination for a
lock, and one holder for it. -/
theorem Guarded.exclusive (h : m.Guarded) : m.Exclusive := by
  have hentry : ∀ {i d l}, m.Live i d l → m.table.entry? d = some l := by
    rintro i d l ⟨t, hi, hd⟩
    exact h.locked.entry i t d l hi hd
  refine ⟨?same, ?apart, ?one, ?disk, ?part⟩
  case same =>
    intro i j d l k hl hk
    exact Option.some.inj ((hentry hl).symm.trans (hentry hk))
  case apart =>
    intro i j d d' l hl hl'
    exact h.locked.injective d d' l (hentry hl) (hentry hl')
  case one =>
    intro i j d hi hj
    obtain ⟨l, hl, hil⟩ := h.holds hi
    obtain ⟨k, hk, hjk⟩ := h.holds hj
    obtain rfl : l = k := Option.some.inj ((hentry hl).symm.trans (hentry hk))
    exact Option.some.inj (hil.symm.trans hjk)
  case disk =>
    intro e m' ha htree
    cases happened ha with
    | arrive request => exact absurd rfl htree
    | move hi hm =>
      obtain ⟨d, l, hd, hheld⟩ := hm.move.held_of_tree htree
      exact ⟨_, d, Or.inl rfl, _, l, hi, hd, hheld⟩
    | disconnect hi hg hm =>
      obtain ⟨d, l, hd, hheld⟩ := hm.move.held_of_tree htree
      exact ⟨_, d, Or.inr rfl, _, l, hi, hd, hheld⟩
    | pass clock hle => exact absurd rfl htree
  case part =>
    intro name k hname hk hne
    obtain ⟨i, t, hi, hpart⟩ := (h.owned name k hname hk).2 hne
    obtain ⟨l, hd, hlock⟩ := Stage.lock_of_part hpart
    exact ⟨i, h.holds ⟨t, l, hi, hd, Or.inl hlock⟩⟩

end Machine

/-- However many appends and overwrites are called on one writer, for whatever destinations, and
however they are interleaved, wait and vanish: in every state that is reached, all live calls on a
destination have one lock, one of them at most is in its critical section, and a part file is there
only while a call holds the lock of its destination. -/
theorem calls_exclusive {m₀ m : Machine} {hs : List Machine.Happening} (hcalls : m₀.Calls)
    (hclosed : ∀ request, .arrive request ∉ hs) (hrun : m₀.afterAll hs = some m) : m.Exclusive :=
  (Machine.Guarded.afterAll hs hcalls.guarded hclosed hrun).exclusive

/-- Two overwrites and an append of one name: the first overwrite vanishes while it streams, with its
part file, and the lock goes to the second, which makes a part file in turn. -/
theorem calls_exclusive_overtaken :
    let c : Config := {}
    let body : Body.Schedule := [⟨0, .data [7]⟩]
    let call (work : Work) : Task :=
      ⟨⟨"/dash", [], body⟩, none, .seeking ⟨.addressed "a.webm", 1⟩ (c.destination "a.webm") work⟩
    let m₀ : Machine := { Machine.ofIngest (.start c Tree.empty) with
      tasks := [call (.overwrite 1 body), call (.overwrite 1 body),
        call (.append [8] (.begin c.readTimeout 1 0 body))] }
    let hs : List Machine.Happening := [0, 1, 0, 0, 1, 2, 2].map .move ++ [.disconnect 0, .move 1]
    m₀.Calls ∧ (∀ request, .arrive request ∉ hs) ∧
      ∃ m, m₀.afterAll hs = some m ∧
        m.tree.get? (Tree.home ++ [".a.webm.part"]) = some (.file []) ∧
        (m.table.mutex 0) = ⟨some 1, [2]⟩ ∧ m.Exclusive := by
  intro c body call m₀ hs
  have hname : IsDestination "a.webm" := ⟨by decide +kernel, by decide +kernel⟩
  have hcalls : m₀.Calls := by
    refine ⟨rfl, fun t ht => ?_, cleanOutput_empty.noLinks, fun name k _ hk => ?_⟩
    · have hcall : ∃ work, t = call work := by
        simp only [m₀, List.mem_cons, List.not_mem_nil, or_false] at ht
        rcases ht with rfl | rfl | rfl
        · exact ⟨_, rfl⟩
        · exact ⟨_, rfl⟩
        · exact ⟨_, rfl⟩
      obtain ⟨work, rfl⟩ := hcall
      exact ⟨_, _, work, rfl, hname⟩
    · exact cleanOutput_empty.part_none hk
  have hclosed : ∀ request, .arrive request ∉ hs := by
    intro request hmem
    simp [hs] at hmem
  have hreached : (m₀.afterAll hs).map (fun m =>
      (m.tree.get? (Tree.home ++ [".a.webm.part"]), m.table.mutex 0)) =
      some (some (.file []), ⟨some 1, [2]⟩) := by decide +kernel
  rw [Option.map_eq_some_iff] at hreached
  obtain ⟨m, hm, hstate⟩ := hreached
  rw [Prod.mk.injEq] at hstate
  have hexclusive := calls_exclusive hcalls hclosed hm
  exact ⟨hcalls, hclosed, m, hm, hstate.1, hstate.2, hexclusive⟩

end LiveIngest.Traffic
