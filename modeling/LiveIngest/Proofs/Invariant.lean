import LiveIngest.Proofs.Coherence

/-!
# What holds in every reachable state

`Machine.Inv` puts together what is known of all tasks: each knows the truth, each holds what it
uses, and no link has come into the output directory.  `inv_after` keeps it along every happening,
so it holds in every state that is reached from a quiet endpoint (`inv_afterAll`).

The only interference to be ruled out is on disk.  `Move.effect` says what a move writes: its part
file, or its destination in the end.  Part files of different tasks are different files, because
tasks with the same destination would share a lock (`Machine.Inv.part_ne`).

A move is one of four things to the disk (`Effect`): it leaves it alone, works on the part file,
appends to the raw output file, or renames.  All that is proved about files afterwards is proved by
these four cases and not by the twenty moves.
-/

namespace LiveIngest.Traffic

open LiveIngest.Body
open LiveIngest.Storage
open LiveIngest.Storage.Path
open LiveIngest.Upload

-- what the file operations do is told by their lemmas
attribute [local irreducible] dropPart startStreaming Streaming.step publish appendRead partPath

/-! ## What a move writes -/

/-- What a move does to the disk.  Each case carries what the task knows and the lock that it holds,
so that the cases can be used without going back to the move. -/
inductive Effect (c : Config) (clock : Nat) (i : TaskId) (w : Shared) (t : Task) (w' : Shared)
    (t' : Task) : Prop
  | still (htree : w'.tree = w.tree) (hcounter : t.stage.flight? ≠ none → w'.counter = w.counter)
      (hflight : ∀ plan, t.stage.flight? = some plan → t'.stage.flight? = some plan)
  /-- It works on its part file, which stays only as long as the task is in flight. -/
  | part {plan destination l} (haims : t.Aims c w.counter plan destination)
      (hchunked : plan.mode.isChunked = true) (href : t.stage.ref? = some (destination, l))
      (hheld : (w.table.mutex l).holder = some i)
      (htouch : w.tree.Touches w'.tree fun k =>
        partPlace w.tree c.outputDir (plan.mode.target c w.counter) = .ok k)
      (hleft : ∀ k, partPlace w.tree c.outputDir (plan.mode.target c w.counter) = .ok k →
        Tree.Ordinary (w.tree.get? k) → Tree.Ordinary (w'.tree.get? k) ∧
          (w'.tree.get? k ≠ none → t'.stage.flight? = some plan))
      (hcounter : w'.counter = w.counter)
  /-- It appends its payload. -/
  | append {plan destination payload reading l}
      (hs : t.stage = .waiting plan destination (.append payload reading) l)
      (haims : t.Aims c w.counter plan destination)
      (hworks : t.Works c clock plan (.append payload reading))
      (hheld : (w.table.mutex l).holder = some i)
      (hw : w' = { w with tree := (appendRead payload destination reading w.tree).tree })
      (ht : t' = t.at (.unlocking plan destination
        ⟨(appendRead payload destination reading w.tree).result, reading⟩ l))
  /-- It renames its part file. -/
  | publish {plan destination reading l bytes k j}
      (hs : t.stage = .publishing plan destination reading l)
      (haims : t.Aims c w.counter plan destination) (hchunked : plan.mode.isChunked = true)
      (hheld : (w.table.mutex l).holder = some i)
      (hread : t.Reads c clock plan (.ok bytes, reading))
      (hk : partPlace w.tree c.outputDir (plan.mode.target c w.counter) = .ok k)
      (hget : w.tree.get? k = some (.file bytes))
      (hj : placement w.tree c.outputDir (plan.mode.target c w.counter) = .ok j)
      (hw : w' = { w with tree := (w.tree.remove k).put j (.file bytes) })
      (ht : t' = t.at (.unlocking plan destination ⟨.ok ⟨destination, plan.length⟩, reading⟩ l))

section

variable {c : Config} {clock : Nat} {i : TaskId} {w w' : Shared} {t t' : Task} {tasks : List Task}

/-- What a rename that succeeds has done.  The part file is gone and its bytes stand at the
destination. -/
theorem Task.Ok.renamed {tree : Tree} {plan : Plan} {destination : String} {reading : Reading}
    {l : LockId} (hok : t.Ok c w.tree w.counter clock) (hc : c.Valid)
    (hs : t.stage = .publishing plan destination reading l)
    (h : publish w.tree (partPath destination) destination = (.ok (), tree)) :
    t.Aims c w.counter plan destination ∧ plan.mode.isChunked = true ∧ ∃ bytes k j,
      t.Reads c clock plan (.ok bytes, reading) ∧
      partPlace w.tree c.outputDir (plan.mode.target c w.counter) = .ok k ∧
      w.tree.get? k = some (.file bytes) ∧
      placement w.tree c.outputDir (plan.mode.target c w.counter) = .ok j ∧
      tree = (w.tree.remove k).put j (.file bytes) := by
  unfold Task.Ok at hok
  simp only [hs] at hok
  obtain ⟨haims, hmode, bytes, k, hread, hk, hget⟩ := hok
  have hn := isComponent_target hc haims.planned w.counter
  have hplace := haims.place
  subst hplace
  unfold Config.destination at h
  rw [publish_part hn hk hget] at h
  split at h
  · simp at h
  · rename_i j hj
    simp only [Prod.mk.injEq, true_and] at h
    exact ⟨haims, hmode, bytes, k, j, hread, hk, hget, hj, h.symm⟩

/-- A task that works on its part file under the lock of its destination, and stays in flight. -/
theorem Effect.worked {plan : Plan} {destination : String} {l : LockId} {k : Location}
    (haims : t.Aims c w.counter plan destination) (hchunked : plan.mode.isChunked = true)
    (href : t.stage.ref? = some (destination, l)) (hheld : (w.table.mutex l).holder = some i)
    (hk : partPlace w.tree c.outputDir (plan.mode.target c w.counter) = .ok k)
    (htouch : w.tree.Touches w'.tree (· = k))
    (hord : Tree.Ordinary (w.tree.get? k) → Tree.Ordinary (w'.tree.get? k))
    (hflight : t'.stage.flight? = some plan) (hcounter : w'.counter = w.counter) :
    Effect c clock i w t w' t' := by
  refine .part haims hchunked href hheld (htouch.mono fun l hl => hl ▸ hk)
    (fun j hj hbefore => ⟨?_, fun _ => hflight⟩) hcounter
  obtain rfl : k = j := Except.ok.inj (hk.symm.trans hj)
  exact hord hbefore

/-- A task that drops its part file, whatever it has done to it until then: nothing is left in its
place, so it need not be in flight afterwards. -/
theorem Effect.dropped {plan : Plan} {destination : String} {l : LockId} {tree : Tree}
    (hc : c.Valid) (hlinks : NoLinks w.tree c.outputDir)
    (haims : t.Aims c w.counter plan destination) (hchunked : plan.mode.isChunked = true)
    (href : t.stage.ref? = some (destination, l)) (hheld : (w.table.mutex l).holder = some i)
    (htouch : w.tree.Touches tree fun k =>
      partPlace w.tree c.outputDir (plan.mode.target c w.counter) = .ok k)
    (htree : w'.tree = (dropPart tree (partPath destination)).1)
    (hcounter : w'.counter = w.counter) : Effect c clock i w t w' t' := by
  have hn := isComponent_target hc haims.planned w.counter
  obtain rfl : destination = join c.outputDir _ := haims.place
  refine .part haims hchunked href hheld ?_ (fun j hj hord => ?_) hcounter
  · rw [htree]
    exact touches_dropPart hn hlinks htouch
  · have hnone : w'.tree.get? j = none := by
      rw [htree]
      exact get?_dropPart hn hj htouch hord
    exact ⟨Or.inl hnone, fun hne => absurd hnone hne⟩

section

variable (hc : c.Valid) (hlinks : NoLinks w.tree c.outputDir)
  (hok : t.Ok c w.tree w.counter clock)
include hc hlinks hok

/-- The part file is created. -/
theorem Effect.create {plan : Plan} {destination : String} {declared : Nat} {body : Schedule}
    {l : LockId} {s : Streaming} {tree : Tree}
    (hs : t.stage = .waiting plan destination (.overwrite declared body) l)
    (hheld : (w.table.mutex l).holder = some i)
    (h : startStreaming c.readTimeout declared clock body (partPath destination) w.tree =
      (.ok s, tree)) :
    Effect c clock i w t { w with tree := tree } (t.at (.streaming plan destination s l)) := by
  unfold Task.Ok at hok
  simp only [hs] at hok
  obtain ⟨haims, hmode, -, -⟩ := hok
  have hn := isComponent_target hc haims.planned w.counter
  obtain rfl : destination = join c.outputDir _ := haims.place
  obtain ⟨-, k, hk, hcarries, htouch, hback⟩ := startStreaming_ok hn (hlinks.part _) h
  exact .worked haims hmode (by rw [hs]; rfl) hheld hk htouch (hcarries.ordinary hback) rfl rfl

/-- A client disconnects or a handler breaks down.  Whoever has a part file by then drops it. -/
theorem Gone.effect {tree : Tree} {s : Stage} (h : Gone c clock i w t tree s)
    (hheld : ∀ {l}, t.stage.lock? = some l → (w.table.mutex l).holder = some i) :
    Effect c clock i w t (w.without i t tree) (t.at s) := by
  unfold Task.Ok at hok
  cases h with
  | queued hs | buffering hs | waiting hs | unstarted hs | uncollected hs | unreported hs =>
    exact .still rfl (fun _ => rfl) (by simp [hs, Stage.flight?])
  | streaming hs =>
    simp only [hs] at hok
    obtain ⟨haims, hmode, -⟩ := hok
    exact .dropped hc hlinks haims hmode (by rw [hs]; rfl) (hheld (by rw [hs]; rfl)) (.refl _ _)
      rfl rfl
  | uncreated hs hheld h =>
    simp only [hs] at hok
    obtain ⟨haims, hmode, -, -⟩ := hok
    have hn := isComponent_target hc haims.planned w.counter
    obtain rfl : _ = join c.outputDir _ := haims.place
    -- the deadline could not be computed, but the file was created before
    rcases startStreaming_error hn (hlinks.part _) h with ⟨hne, -⟩ | ⟨-, -, k, hk, htouch⟩
    · exact absurd rfl hne
    · exact .dropped hc hlinks haims hmode (by rw [hs]; rfl) hheld
        (htouch.mono fun l hl => hl ▸ hk) rfl rfl
  | unstreamed hs h =>
    simp only [hs] at hok
    obtain ⟨haims, hmode, b, k, -, hreading, hk, hcarries⟩ := hok
    obtain ⟨htouch, -⟩ := Streaming.step_error_sim (Tree.place_ne_nil hk) hreading hcarries h
    exact .dropped hc hlinks haims hmode (by rw [hs]; rfl) (hheld (by rw [hs]; rfl))
      (htouch.mono fun l hl => hl ▸ hk) rfl rfl

end

/-- What a move writes.  Only moves of an overwrite that is on its way touch its part file, and they
are made under the lock of the destination. -/
theorem Move.effect (h : Move c clock i w t w' t') (hc : c.Valid)
    (hlinks : NoLinks w.tree c.outputDir) (hok : t.Ok c w.tree w.counter clock)
    (hlocked : Locked w.table tasks) (hi : tasks[i]? = some t) :
    Effect c clock i w t w' t' := by
  -- who uses a lock holds it
  have hheld : ∀ {l}, t.stage.lock? = some l → (w.table.mutex l).holder = some i :=
    fun hlock => hlocked.held i t _ hi hlock
  have hok' := hok
  unfold Task.Ok at hok
  cases h with
  | quiet h => exact .still rfl (fun _ => rfl) fun plan hplan => absurd hplan (by simp [h.flight?])
  | enqueue hs | refer hs | ask hs | unlock hs | release hs | leave hs =>
    exact .still rfl (fun _ => rfl) (by simp [hs, Stage.flight?])
  | count hs => exact .still rfl (by simp [hs, Stage.flight?]) (by simp [hs, Stage.flight?])
  | append hs hheld =>
    simp only [hs] at hok
    exact .append hs hok.1 hok.2 hheld rfl rfl
  | create hs hheld h => exact .create hc hlinks hok' hs hheld h
  | createFails hs hheld h =>
    simp only [hs] at hok
    obtain ⟨haims, -, -, -⟩ := hok
    have hn := isComponent_target hc haims.planned w.counter
    obtain rfl : _ = join c.outputDir _ := haims.place
    rcases startStreaming_error hn (hlinks.part _) h with ⟨-, rfl, -⟩ | ⟨hov, -⟩
    · exact .still rfl (fun _ => rfl) (by simp [hs, Stage.flight?])
    · exact absurd hov (by simp)
  | streamOn hs h =>
    simp only [hs] at hok
    obtain ⟨haims, hmode, b, k, -, hreading, hk, hcarries⟩ := hok
    obtain ⟨b', -, -, hcarries', htouch, hback⟩ :=
      Streaming.step_again_sim (Tree.place_ne_nil hk) hreading hcarries h
    exact .worked haims hmode (by rw [hs]; rfl) (hheld (by rw [hs]; rfl)) hk htouch
      (hcarries'.ordinary hback) rfl rfl
  | streamed hs h =>
    simp only [hs] at hok
    obtain ⟨-, -, b, k, -, hreading, -, hcarries⟩ := hok
    refine .still (Streaming.step_ok_sim hreading hcarries h).2.1 (fun _ => rfl) fun plan hplan => ?_
    rw [hs] at hplan
    exact hplan
  | streamFails hs h =>
    simp only [hs] at hok
    obtain ⟨haims, hmode, b, k, -, hreading, hk, hcarries⟩ := hok
    obtain ⟨htouch, hord, -⟩ := Streaming.step_error_sim (Tree.place_ne_nil hk) hreading hcarries h
    exact .worked haims hmode (by rw [hs]; rfl) (hheld (by rw [hs]; rfl)) hk htouch hord rfl rfl
  | publish hs h =>
    obtain ⟨haims, hmode, bytes, k, j, hread, hk, hget, hj, rfl⟩ := hok'.renamed hc hs h
    exact .publish hs haims hmode (hheld (by rw [hs]; rfl)) hread hk hget hj rfl rfl
  | publishFails hs h =>
    refine .still (publish_error h).1 (fun _ => rfl) fun plan hplan => ?_
    rw [hs] at hplan
    exact hplan
  | drop hs =>
    simp only [hs] at hok
    obtain ⟨haims, hmode, -⟩ := hok
    exact .dropped hc hlinks haims hmode (by rw [hs]; rfl) (hheld (by rw [hs]; rfl)) (.refl _ _)
      rfl rfl
  | vanish h => exact h.effect hc hlinks hok' hheld

/-- A move changes plain nodes only, and none at all unless the output directory is there.  So no
move changes where a path leads. -/
theorem Effect.touches (h : Effect c clock i w t w' t') (hc : c.Valid)
    (hlinks : NoLinks w.tree c.outputDir) :
    w.tree.Touches w'.tree fun _ => ∃ d, w.tree.dirAt c.outputDir = .ok d := by
  cases h with
  | still htree _ _ =>
    rw [htree]
    exact Tree.Touches.refl _ _
  | part _ _ _ _ htouch _ _ => exact htouch.mono fun l hl => dirAt_of_partPlace hl
  | append hs haims hworks hheld hw ht =>
    rename_i plan destination payload reading l
    subst hw
    rw [haims.tree_appendRead hworks.1]
    exact (appendPayload_touches hc.raw (hlinks.at _) payload).mono fun l hl => dirAt_of_place hl
  | publish _ _ _ _ _ hk hget hj hw _ =>
    subst hw
    exact (touches_publish hlinks hk hget hj).mono fun _ _ => dirAt_of_partPlace hk

/-- The names of the output directory keep their places. -/
theorem Effect.samePlaces (h : Effect c clock i w t w' t') (hc : c.Valid)
    (hlinks : NoLinks w.tree c.outputDir) : SamePlaces w.tree w'.tree c.outputDir :=
  SamePlaces.of_touches (h.touches hc hlinks) fun _ hd => hd

end

/-! ## Part files of different tasks -/

section

variable {c : Config} {clock : Nat} {i j : TaskId} {w w' : Shared} {t t' u : Task}
  {tasks : List Task}

/-- A task whose part file is there uses the lock of its destination.  It holds it, too, since it is
past waiting. -/
theorem Task.Ok.flight {tree : Tree} {counter : Nat} {plan : Plan}
    (h : t.Ok c tree counter clock) (hplan : t.stage.flight? = some plan) :
    ∃ destination l, t.Aims c counter plan destination ∧ plan.mode.isChunked = true ∧
      t.stage.ref? = some (destination, l) ∧ t.stage.lock? = some l := by
  unfold Task.Ok at h
  cases hs : t.stage with
  | streaming plan' destination s l =>
    simp only [hs, Stage.flight?, Option.some.injEq] at h hplan
    subst hplan
    exact ⟨destination, l, h.1, h.2.1, rfl, rfl⟩
  | publishing plan' destination reading l =>
    simp only [hs, Stage.flight?, Option.some.injEq] at h hplan
    subst hplan
    exact ⟨destination, l, h.1, h.2.1, rfl, rfl⟩
  | dropping plan' destination ended l =>
    simp only [hs, Stage.flight?, Option.some.injEq] at h hplan
    subst hplan
    exact ⟨destination, l, h.1, h.2.1, rfl, rfl⟩
  | _ => simp [hs, Stage.flight?] at hplan

/-- The part file of whoever holds the lock of its destination is nobody else's.  Two tasks with one
part file have the same target, for the name of the part file tells the name of the target; so they
have the same destination and the same lock, which one of them holds. -/
theorem partPlace_ne (hlocked : Locked w.table tasks) (hi : tasks[i]? = some t)
    (hj : tasks[j]? = some u) (hij : j ≠ i) (hu : u.Ok c w.tree w.counter clock) {plan : Plan}
    {destination : String} {l : LockId} (haims : t.Aims c w.counter plan destination)
    (href : t.stage.ref? = some (destination, l)) (hheld : (w.table.mutex l).holder = some i)
    {k : Location} (hk : partPlace w.tree c.outputDir (plan.mode.target c w.counter) = .ok k) :
    ¬u.InFlight c w.tree w.counter k := by
  rintro ⟨plan', hplan', hk'⟩
  obtain ⟨destination', l', haims', -, href', hlock'⟩ := hu.flight hplan'
  have htarget : plan'.mode.target c w.counter = plan.mode.target c w.counter :=
    partName_injective (Tree.place_injective hk' hk)
  have hsame : destination' = destination := by rw [haims'.place, haims.place, htarget]
  subst hsame
  exact hij (hlocked.exclusive hi hj href href' hheld hlock').symm

/-- A move leaves the part files of the other tasks alone.  For an append this is what `Separate`
asks of the raw output file, and for a rename it is that destinations are not named like part files.
-/
theorem Effect.others (h : Effect c clock i w t w' t') (hc : c.Valid) (hsep : Separate c)
    (hlinks : NoLinks w.tree c.outputDir) (hlocked : Locked w.table tasks)
    (hi : tasks[i]? = some t) (hj : tasks[j]? = some u) (hij : j ≠ i)
    (hu : u.Ok c w.tree w.counter clock) {k : Location}
    (hk : u.InFlight c w.tree w.counter k) : w'.tree.get? k = w.tree.get? k := by
  -- the part file of the task that moves is another one
  have hfree : ∀ {plan destination l}, t.Aims c w.counter plan destination →
      t.stage.ref? = some (destination, l) → (w.table.mutex l).holder = some i →
      partPlace w.tree c.outputDir (plan.mode.target c w.counter) ≠ .ok k :=
    fun haims href hheld hpart => partPlace_ne hlocked hi hj hij hu haims href hheld hpart hk
  obtain ⟨plan', hplan', hk'⟩ := hk
  obtain ⟨destination', l', haims', hchunked', -, -⟩ := hu.flight hplan'
  have hover := overwrites_target haims'.planned hchunked' w.counter
  cases h with
  | still htree _ _ => rw [htree]
  | part haims hchunked href hheld htouch _ _ => exact htouch.same k (hfree haims href hheld)
  | append hs haims hworks hheld hw ht =>
    rename_i plan destination payload reading l
    subst hw
    rw [haims.tree_appendRead hworks.1]
    refine (appendPayload_touches hc.raw (hlinks.at _) payload).same k fun hplace => ?_
    exact Tree.place_ne (hsep _ hover) hplace hk' rfl
  | publish hs haims hchunked hheld hread hk hget hj hw ht =>
    rename_i plan destination reading l bytes k₀ j₀
    subst hw
    obtain ⟨-, -, hsame⟩ := publish_get? bytes hk (placement_ok hj).1
    refine hsame k (fun he => ?_) (fun he => ?_)
    · -- a destination is never named like a part file
      have hname := (overwrites_target haims.planned hchunked w.counter).isPartName_eq
      refine Tree.place_ne (fun hn => ?_) (placement_ok hj).1 hk' he.symm
      rw [hn, isPartName_partName] at hname
      exact absurd hname (by simp)
    · exact hfree haims (by rw [hs]; rfl) hheld (he ▸ hk)

end

/-! ## The invariant -/

/-- What is known of all tasks together. -/
structure Machine.Inv (m : Machine) : Prop where
  locked : Locked m.table m.tasks
  ticketed : Ticketed m.sequencer m.tasks
  noLinks : NoLinks m.tree m.config.outputDir
  ok : ∀ (i : TaskId) (t : Task), m.tasks[i]? = some t →
    t.Ok m.config m.tree m.counter m.clock

/-- What a happening is: a task comes in, a task moves, or time passes. -/
inductive Machine.Happened (m : Machine) : Machine.Happening → Machine → Prop
  | arrive (request : Request) : m.Happened (.arrive request) (m.admitTask request)
  | move {i t t' m'} (hi : m.tasks[i]? = some t) (hm : m.Moved i t t' m') :
      m.Happened (.move i) m'
  | disconnect {i t tree m'} (hi : m.tasks[i]? = some t)
      (hg : Gone m.config m.clock i m.shared t tree (.cancelled m.clock))
      (hm : m.Moved i t (t.at (.cancelled m.clock)) m') : m.Happened (.disconnect i) m'
  | pass (clock : Nat) (hle : m.clock ≤ clock) : m.Happened (.pass clock) { m with clock := clock }

/-- Every happening is one of these. -/
theorem Machine.happened {m m' : Machine} {h : Happening} (ha : m.after h = some m') :
    m.Happened h m' := by
  cases h with
  | arrive request =>
    cases ha
    exact .arrive request
  | move i =>
    obtain ⟨t, t', hi, hm⟩ := step_moved ha
    exact .move hi hm
  | disconnect i =>
    obtain ⟨t, tree, hi, hg, hm⟩ := cancel_moved ha
    exact .disconnect hi hg hm
  | pass clock =>
    simp only [after, Option.ite_none_right_eq_some, Option.some.injEq] at ha
    exact ha.2 ▸ .pass clock ha.1

/-- What every happening keeps holds after every run.  All invariants of runs come from here. -/
theorem Machine.afterAll_keeps {P : Machine → Prop}
    (hstep : ∀ (m m' : Machine) (h : Happening), P m → m.after h = some m' → P m') :
    ∀ (hs : List Happening) {m m' : Machine}, P m → m.afterAll hs = some m' → P m'
  | [], m, m', hm, h => by
    cases h
    exact hm
  | e :: rest, m, m', hm, h => by
    unfold afterAll at h
    split at h
    · simp at h
    · rename_i m₁ h₁
      exact afterAll_keeps hstep rest (hstep m m₁ e hm h₁) h

/-- What is picked from the steps of a run, in order.  `pick` sees the machine before and after the
step. -/
def Machine.gather {α : Type} (pick : Machine → Machine → Happening → List α) (m : Machine) :
    List Happening → List α
  | [] => []
  | h :: rest =>
    match m.after h with
    | none => []
    | some m' => pick m m' h ++ m'.gather pick rest

/-- The first step of a run and what follows. -/
theorem Machine.gather_cons {α : Type} {pick : Machine → Machine → Happening → List α}
    {m m' : Machine} {h : Happening} (ha : m.after h = some m') (rest : List Happening) :
    m.gather pick (h :: rest) = pick m m' h ++ m'.gather pick rest := by
  rw [gather, ha]

/-- What every happening keeps of a machine and of what was picked before holds after every run.
The same as `afterAll_keeps` for statements about the history of a run. -/
theorem Machine.afterAll_gathers {α β : Type} {f : Machine → Machine → Happening → List α}
    {g : Machine → Machine → Happening → List β} {P : Machine → List α → List β → Prop}
    (hstep : ∀ (m m' : Machine) (h : Happening) (xs : List α) (ys : List β), P m xs ys →
      m.after h = some m' → P m' (xs ++ f m m' h) (ys ++ g m m' h)) :
    ∀ (hs : List Happening) {m m' : Machine} {xs : List α} {ys : List β}, P m xs ys →
      m.afterAll hs = some m' → P m' (xs ++ m.gather f hs) (ys ++ m.gather g hs)
  | [], m, m', xs, ys, hm, h => by
    cases h
    simpa [gather] using hm
  | e :: rest, m, m', xs, ys, hm, h => by
    unfold afterAll at h
    split at h
    · simp at h
    · rename_i m₁ h₁
      rw [gather_cons h₁, gather_cons h₁, ← List.append_assoc, ← List.append_assoc]
      exact afterAll_gathers hstep rest (hstep m m₁ e xs ys hm h₁) h

/-- Only the task that holds the sequencer moves the counter.  It has a ticket and is not over. -/
theorem Move.counter_eq {c : Config} {clock : Nat} {i : TaskId} {w w' : Shared} {t t' : Task}
    (h : Move c clock i w t w' t') :
    w'.counter = w.counter ∨ t.ticket ≠ none ∧ t.stage.isOver = false := by
  cases h with
  | count hs hticket => exact Or.inr ⟨by rw [hticket]; simp, by rw [hs]; rfl⟩
  | _ => exact Or.inl rfl

namespace Machine

/-- At first there is no task and nobody holds a lock. -/
theorem inv_ofIngest {g : Ingest} (h : NoLinks g.tree g.config.outputDir) : (ofIngest g).Inv :=
  ⟨Locked.empty, fun i t hi => by simp [ofIngest] at hi, h, fun i t hi => by simp [ofIngest] at hi⟩

/-- A new upload knows nothing and holds nothing. -/
theorem Inv.admitTask {m : Machine} (hinv : m.Inv) (request : Request) :
    (m.admitTask request).Inv := by
  refine ⟨hinv.locked.arrival rfl, fun i t hi hticket hover => ?_, hinv.noLinks, fun i t hi => ?_⟩
  · rcases getElem?_concat_cases hi with hi | rfl
    · exact hinv.ticketed i t hi hticket hover
    · exact absurd rfl hticket
  · rcases getElem?_concat_cases hi with hi | rfl
    · exact hinv.ok i t hi
    · exact rfl

/-- Time passes, and everybody knows what they knew. -/
theorem Inv.pass {m : Machine} (hinv : m.Inv) {clock : Nat} (hle : m.clock ≤ clock) :
    Inv { m with clock := clock } := by
  refine ⟨hinv.locked, hinv.ticketed, hinv.noLinks, fun i t hi => ?_⟩
  exact (hinv.ok i t hi).frame hle (Or.inl rfl) (SamePlaces.refl _ _) Iff.rfl fun _ _ => rfl

/-- The counter moves only for the one that holds the sequencer.  Everybody else who is going on has
no ticket, since a ticket goes with the sequencer. -/
theorem Inv.counter_eq_or {m m' : Machine} {i j : TaskId} {t t' u : Task} (hinv : m.Inv)
    (hi : m.tasks[i]? = some t) (hm : m.Moved i t t' m') (hj : m.tasks[j]? = some u)
    (hij : j ≠ i) :
    m'.counter = m.counter ∨ u.ticket = none ∨ u.stage.isOver = true := by
  rcases hm.move.counter_eq with hsame | ⟨hticket, hgoing⟩
  · exact Or.inl hsame
  -- two tickets would mean two holders
  · refine Or.inr (Classical.byContradiction fun hnot => ?_)
    rw [not_or] at hnot
    have hui := hinv.ticketed j u hj hnot.1 (by simpa using hnot.2)
    rw [hinv.ticketed i t hi hticket hgoing] at hui
    exact hij (Option.some.inj hui).symm

/-- A move of one task keeps the invariant of all.  For the task itself this is `Move.ok`, for every
other it is `Task.Ok.frame`, whose premises are `Effect.others` and `counter_eq_or`. -/
theorem Inv.moved {m m' : Machine} {i : TaskId} {t t' : Task} (hc : m.config.Valid)
    (hsep : Separate m.config) (hinv : m.Inv) (hi : m.tasks[i]? = some t)
    (hm : m.Moved i t t' m') : m'.Inv := by
  have hcounter := fun j u => hinv.counter_eq_or (j := j) (u := u) hi hm
  obtain ⟨hlocked, hticketed, hlinks, hok⟩ := hinv
  obtain ⟨hmove, htasks, hconfig, hclock⟩ := hm
  have heffect := hmove.effect hc hlinks (hok i t hi) hlocked hi
  have htouch := heffect.touches hc hlinks
  have hplaces := heffect.samePlaces hc hlinks
  refine ⟨?_, ?_, ?_, fun j u hj => ?_⟩
  · rw [htasks]
    exact hmove.locked hlocked hi
  · rw [htasks]
    exact hmove.ticketed hticketed hi
  · rw [hconfig]
    exact hlinks.of_touches htouch hplaces
  · rw [htasks] at hj
    rw [hconfig, hclock]
    rcases getElem?_set_cases hj with ⟨rfl, rfl⟩ | ⟨hij, hj⟩
    · exact hmove.ok hc hlinks (hok _ t hi)
    · exact (hok j u hj).frame (Nat.le_refl _) (hcounter j u hj hij) hplaces htouch.room
        fun k hk => heffect.others hc hsep hlinks hlocked hi hj hij (hok j u hj) hk

/-- The configuration is given once. -/
theorem Happened.config_eq {m m' : Machine} {h : Happening} (ha : m.Happened h m') :
    m'.config = m.config := by
  cases ha with
  | arrive request => rfl
  | move hi hm => exact hm.config
  | disconnect hi hg hm => exact hm.config
  | pass clock hle => rfl

/-- What happens changes plain nodes only, and none at all unless the output directory is there. -/
theorem Inv.touches {m m' : Machine} {h : Happening} (hc : m.config.Valid) (hinv : m.Inv)
    (ha : m.after h = some m') :
    m.tree.Touches m'.tree fun _ => ∃ d, m.tree.dirAt m.config.outputDir = .ok d := by
  cases happened ha with
  | arrive request => exact Tree.Touches.refl _ _
  | move hi hm =>
    exact (hm.move.effect hc hinv.noLinks (hinv.ok _ _ hi) hinv.locked hi).touches hc hinv.noLinks
  | disconnect hi hg hm =>
    exact (hm.move.effect hc hinv.noLinks (hinv.ok _ _ hi) hinv.locked hi).touches hc hinv.noLinks
  | pass clock hle => exact Tree.Touches.refl _ _

/-- The invariant holds after every happening. -/
theorem Inv.after {m m' : Machine} {h : Happening} (hc : m.config.Valid)
    (hsep : Separate m.config) (hinv : m.Inv) (ha : m.after h = some m') : m'.Inv := by
  cases happened ha with
  | arrive request => exact hinv.admitTask request
  | move hi hm => exact hinv.moved hc hsep hi hm
  | disconnect hi hg hm => exact hinv.moved hc hsep hi hm
  | pass clock hle => exact hinv.pass hle

/-- The invariant holds in every reachable state. -/
theorem Inv.afterAll {m m' : Machine} {hs : List Happening} (hc : m.config.Valid)
    (hsep : Separate m.config) (hinv : m.Inv) (ha : m.afterAll hs = some m') :
    m'.Inv ∧ m'.config = m.config := by
  refine afterAll_keeps (P := fun m' => m'.Inv ∧ m'.config = m.config) ?_ hs ⟨hinv, rfl⟩ ha
  intro m₁ m₂ h ⟨hinv₁, hconfig⟩ ha₁
  refine ⟨hinv₁.after (hconfig ▸ hc) (hconfig ▸ hsep) ha₁, ?_⟩
  rw [(happened ha₁).config_eq, hconfig]

/-- The names of the output directory lead to the same places for ever, and a disk that is not short
of room never gets short. -/
theorem Inv.stays {m m' : Machine} {hs : List Happening} (hc : m.config.Valid)
    (hsep : Separate m.config) (hinv : m.Inv) (ha : m.afterAll hs = some m') :
    SamePlaces m.tree m'.tree m.config.outputDir ∧ (m'.tree.room = none ↔ m.tree.room = none) := by
  refine (afterAll_keeps (P := fun m' => (m'.Inv ∧ m'.config = m.config) ∧
    SamePlaces m.tree m'.tree m.config.outputDir ∧ (m'.tree.room = none ↔ m.tree.room = none))
    ?_ hs ⟨⟨hinv, rfl⟩, SamePlaces.refl _ _, Iff.rfl⟩ ha).2
  rintro m₁ m₂ h ⟨⟨hinv₁, hconfig⟩, hplaces, hroom⟩ ha₁
  have hc₁ : m₁.config.Valid := hconfig ▸ hc
  have htouch := hinv₁.touches hc₁ ha₁
  have hstep := SamePlaces.of_touches htouch fun _ hd => hd
  rw [hconfig] at hstep
  refine ⟨⟨hinv₁.after hc₁ (hconfig ▸ hsep) ha₁, ?_⟩, hplaces.trans hstep, htouch.room.trans hroom⟩
  rw [(happened ha₁).config_eq, hconfig]

end Machine

end LiveIngest.Traffic
