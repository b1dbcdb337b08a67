import LiveIngest.Proofs.Invariant

/-!
# Who writes where

A task writes to its destination and, if it overwrites, to the part file of its destination, and to
nothing else.  Nothing has to be known for this about what the task has read or what its part file
holds, and the names may be in each other's way: it holds of any calls on any names of the output
directory.

1. **Operations.**  Writing to an open file, starting and going on to stream, and renaming touch the
   locations that they are about, whatever stands there (`Handle.write_works`,
   `Streaming.step_works`, `startStreaming_part`, `publish_ok`).

2. **Tasks.**  `Names` says which names are appended to and which are overwritten, and `Task.Within`
   that a task keeps to them.  `Move.deed` is what a move writes, `Move.within` and
   `Task.Within.frame` are the steps of the invariant.

3. **Machines.**  `Machine.Confined.after` is the step for all tasks together.
-/

namespace LiveIngest.Storage

/-! ## Writing to an open file -/

/-- Nothing outside a set is touched, and what was a file or nothing stays so.  Unlike a rename,
such work never removes anything. -/
structure Tree.Works (t t' : Tree) (S : Location → Prop) : Prop where
  touches : t.Touches t' S
  ordinary : ∀ l, Tree.Ordinary (t.get? l) → Tree.Ordinary (t'.get? l)

/-- Doing nothing is such work. -/
theorem Tree.Works.refl (t : Tree) (S : Location → Prop) : t.Works t S :=
  ⟨Tree.Touches.refl t S, fun _ h => h⟩

/-- And so is one such work after the other. -/
theorem Tree.Works.trans {t t' t'' : Tree} {S : Location → Prop} (h : t.Works t' S)
    (h' : t'.Works t'' S) : t.Works t'' S :=
  ⟨h.touches.trans h'.touches, fun l hl => h'.ordinary l (h.ordinary l hl)⟩

namespace Handle

/-- A piece goes to the file that the handle leads to, if there is one. -/
theorem store_works (h : Handle) (t : Tree) (piece : Bytes) :
    (h.store t piece).1.target = h.target ∧
      t.Works (h.store t piece).2 fun l => h.target = .file l := by
  unfold store
  split
  · exact ⟨rfl, .refl _ _⟩
  · exact ⟨rfl, .refl _ _⟩
  · rename_i l htarget
    split
    · rename_i data hget
      have hl : l ≠ [] := by
        rintro rfl
        simp [Tree.get?] at hget
      refine ⟨rfl, ⟨fun k hk => ?_, fun k hk => ?_, ?_⟩, fun k hk => ?_⟩
      · have hkl : k ≠ l := fun he => hk (he ▸ htarget)
        rw [Tree.get?_put_of_ne hkl, Tree.get?_using]
      · have hkl : k = l := Classical.byContradiction fun he => hk <| by
          rw [Tree.get?_put_of_ne he, Tree.get?_using]
        subst hkl
        rw [hget, Tree.get?_put_self hl]
        exact ⟨Tree.plain_file _, Tree.plain_file _⟩
      · rw [Tree.room_put, Tree.room_using, Option.map_eq_none_iff]
      · by_cases hkl : k = l
        · subst hkl
          rw [Tree.get?_put_self hl]
          exact Or.inr ⟨_, rfl⟩
        · rw [Tree.get?_put_of_ne hkl, Tree.get?_using]
          exact hk
    · exact ⟨rfl, .refl _ _⟩

/-- Piece by piece, the handle stays on its file.  Writing stops at the first error. -/
theorem writePieces_works :
    ∀ (ps : List Bytes) (h : Handle) (t : Tree),
      (t.Works (h.writePieces t ps).2 fun l => h.target = .file l) ∧
        ∀ h', (h.writePieces t ps).1 = .ok h' → h'.target = h.target
  | [], h, t => ⟨.refl _ _, fun h' hh' => by cases hh'; rfl⟩
  | piece :: rest, h, t => by
    cases hp : h.pending with
    | some e => simp only [writePieces, hp]; exact ⟨.refl _ _, by simp⟩
    | none =>
      obtain ⟨htarget, hstore⟩ := h.store_works t piece
      obtain ⟨hrest, hok⟩ := writePieces_works rest (h.store t piece).1 (h.store t piece).2
      rw [htarget] at hrest hok
      simp only [writePieces, hp]
      exact ⟨hstore.trans hrest, hok⟩

/-- Bytes go to the file that the handle leads to, if there is one. -/
theorem write_works (h : Handle) (t : Tree) (bytes : Bytes) :
    (t.Works (h.write t bytes).2 fun l => h.target = .file l) ∧
      ∀ h', (h.write t bytes).1 = .ok h' → h'.target = h.target :=
  writePieces_works (pieces bytes) h t

end Handle

/-- A name that was renamed held something.  The disk says so, and needs no invariant for it. -/
theorem Tree.exists_of_rename {t t' : Tree} {dir name target : String} {k : Location}
    (hn : Path.IsComponent name) (hk : t.place dir name = .ok k)
    (h : t.rename (Path.join dir name) target = .ok t') : ∃ node, t.get? k = some node := by
  unfold Tree.place at hk
  rw [Tree.rename, Tree.spot_join hn] at h
  cases hc : checkPath (Path.join dir name) with
  | error e => simp [hc] at hk
  | ok _ =>
    cases hd : t.dirAt dir with
    | error e => simp [hc, hd] at hk
    | ok d =>
      simp only [hc, hd] at hk h
      by_cases hlen : maxName < name.utf8ByteSize
      · simp [hlen] at hk
      · simp only [hlen, if_false, Except.ok.injEq] at hk h
        subst hk
        cases hnode : t.get? (d ++ [name]) with
        | some node => exact ⟨node, rfl⟩
        | none =>
          -- whatever the target is, there is nothing to rename
          split at h
          · simp at h
          · rename_i dst _
            cases hname : dst.name <;> simp [hlen, hnode, hname] at h

end LiveIngest.Storage

namespace LiveIngest.Upload

open LiveIngest.Body
open LiveIngest.Storage
open LiveIngest.Storage.Path

/-! ## Part files -/

/-- A turn of streaming works on the file that is open. -/
theorem Streaming.step_works (s : Streaming) (part : String) (t : Tree) :
    (t.Works (s.step part t).2 fun l => s.handle.target = .file l) ∧
      ∀ s', (s.step part t).1 = .again s' → s'.handle.target = s.handle.target := by
  unfold step
  split
  · exact ⟨.refl _ _, by simp⟩
  · split
    · exact ⟨.refl _ _, by simp⟩
    · exact ⟨.refl _ _, by simp⟩
    · rename_i bytes after hpiece
      obtain ⟨hworks, hok⟩ := s.handle.write_works t (after.accept bytes).1
      simp only
      split
      · rename_i e t' hw
        rw [hw] at hworks
        exact ⟨hworks, by simp⟩
      · rename_i handle t' hw
        rw [hw] at hworks hok
        refine ⟨hworks, fun s' hs' => ?_⟩
        cases hs'
        exact hok handle rfl

section

variable {t t' : Tree} {dir name : String} {timeout : Span} {declared start : Nat} {body : Schedule}

/-- What stands at the place of a part file that was created is no directory, and it is what the
streaming has open.  It may be a device, to which bytes go without changing it. -/
theorem startStreaming_part {s : Streaming} (hn : IsComponent name)
    (hlink : NoLinkAt t (partPlace t dir name))
    (h : startStreaming timeout declared start body (partPath (join dir name)) t = (.ok s, t')) :
    ∃ k, partPlace t dir name = .ok k ∧ t'.get? k ≠ some .dir ∧ t.Works t' (· = k) ∧
      ∀ l, s.handle.target = .file l → l = k := by
  obtain ⟨-, k, hk, hcarries, htouch, hback⟩ := startStreaming_ok hn hlink h
  refine ⟨k, hk, ?_, ⟨htouch, fun l hl => ?_⟩, fun l hl => ?_⟩
  · cases hcarries with
    | file hat _ _ => rw [hat.get?]; simp
    | device _ hnode => rw [hnode]; simp
  · by_cases hlk : l = k
    · subst hlk
      exact hcarries.ordinary hback hl
    · rw [htouch.same l hlk]
      exact hl
  · cases hcarries with
    | file hat _ _ => exact Target.file.inj (hl.symm.trans hat.target)
    | device htarget _ => exact absurd (hl.symm.trans htarget) (by simp)

/-- Publishing moves what stands at the place of the part file, whether it is the part file that was
created or something that came in its place. -/
theorem publish_ok {k : Location} (hn : IsComponent name) (hlinks : NoLinks t dir)
    (hk : partPlace t dir name = .ok k) (hdir : t.get? k ≠ some .dir)
    (h : publish t (partPath (join dir name)) (join dir name) = (.ok (), t')) :
    ∃ j, t.place dir name = .ok j ∧ t'.get? k = none ∧ t.Touches t' fun l => l = j ∨ l = k := by
  have hrename : t.rename (partPath (join dir name)) (join dir name) = .ok t' := by
    unfold publish at h
    split at h
    · simp at h
    · rename_i t₁ ht₁
      rw [ht₁, (Prod.mk.inj h).2]
  rw [partPath_join hn] at hrename
  obtain ⟨node, hnode⟩ := Tree.exists_of_rename (isComponent_partName hn) hk hrename
  have hplain : Tree.Plain (some node) := by
    rw [← hnode]
    exact ⟨hdir, fun target => hlinks.part name k target hk⟩
  rw [publish_part hn hk hnode] at h
  split at h
  · simp at h
  · rename_i j hj
    obtain ⟨hgone, htouch⟩ := touches_rename hplain hlinks hk hnode hj
    rw [← (Prod.mk.inj h).2]
    exact ⟨j, (placement_ok hj).1, hgone, htouch⟩

end

end LiveIngest.Upload

namespace LiveIngest.Traffic

open LiveIngest.Body
open LiveIngest.Storage
open LiveIngest.Storage.Path
open LiveIngest.Upload

/-! ## The names that tasks keep to -/

/-- The names that are appended to, and those that are overwritten.  All are single components of a
path, so all stand in the output directory. -/
structure Names where
  appended : String → Prop
  overwritten : String → Prop
  component : ∀ {name}, appended name ∨ overwritten name → IsComponent name

namespace Names

/-- The name of a destination is one for the work to be done. -/
def Allows (n : Names) (name : String) : Work → Prop
  | .append _ _ => n.appended name
  | .overwrite _ _ => n.overwritten name

/-- The names of all uploads that may come in are among the names. -/
structure Admits (n : Names) (c : Config) : Prop where
  raw : n.appended c.rawOutputFile
  chunked : ∀ {path headers plan}, classify c path headers = .ok plan →
    plan.mode.isChunked = true → ∀ k, n.overwritten (plan.mode.target c k)

/-- The locations that the names stand for in a directory: their own places, and those of part
files. -/
def Places (n : Names) (tree : Tree) (dir : String) (l : Location) : Prop :=
  (∃ name, n.appended name ∧ tree.place dir name = .ok l) ∨
    ∃ name, n.overwritten name ∧ (tree.place dir name = .ok l ∨ partPlace tree dir name = .ok l)

/-- A name has a place only where the directory is there. -/
theorem Places.dirAt {n : Names} {tree : Tree} {dir : String} {l : Location}
    (h : n.Places tree dir l) : ∃ d, tree.dirAt dir = .ok d := by
  rcases h with ⟨name, -, hplace⟩ | ⟨name, -, hplace | hpart⟩
  · exact dirAt_of_place hplace
  · exact dirAt_of_place hplace
  · exact dirAt_of_partPlace hpart

/-- The names stand for the same locations as long as the directory does not move. -/
theorem Places.congr {n : Names} {tree tree' : Tree} {dir : String} {l : Location}
    (h : SamePlaces tree tree' dir) : n.Places tree' dir l ↔ n.Places tree dir l := by
  simp only [Places, h.place_eq, h.partPlace_eq]

end Names

/-- The destination whose part file a task is at work on. -/
def Stage.part? : Stage → Option String
  | .streaming _ d _ _ => some d
  | .publishing _ d _ _ => some d
  | .dropping _ d _ _ => some d
  | _ => none

/-- The part file of a name has a place, and no directory stands there. -/
structure PartPlaced (c : Config) (tree : Tree) (name : String) (k : Location) : Prop where
  place : partPlace tree c.outputDir name = .ok k
  notDir : tree.get? k ≠ some .dir

/-- A task keeps to the names, and so it will.  Before its destination is known this says that
whatever it may come to is among the names. -/
def Task.Within (n : Names) (c : Config) (tree : Tree) (t : Task) : Prop :=
  match t.stage with
  | .arriving => n.Admits c
  | .queued plan hint =>
    n.Admits c ∧ classify c t.request.path t.request.headers = .ok plan ∧ plan.mode = .sequenced hint
  | .buffering _ _ => n.Admits c
  | .seeking _ d work => ∃ name, d = c.destination name ∧ n.Allows name work
  | .asking _ d work _ => ∃ name, d = c.destination name ∧ n.Allows name work
  | .waiting _ d work _ => ∃ name, d = c.destination name ∧ n.Allows name work
  | .streaming _ d s _ => ∃ name k, d = c.destination name ∧ n.overwritten name ∧
      PartPlaced c tree name k ∧ ∀ l, s.handle.target = .file l → l = k
  | .publishing _ d _ _ => ∃ name k, d = c.destination name ∧ n.overwritten name ∧
      PartPlaced c tree name k
  | .dropping _ d _ _ => ∃ name, d = c.destination name ∧ n.overwritten name
  | _ => True

section

variable {n : Names} {c : Config} {clock : Nat} {i : TaskId} {w w' : Shared} {tree tree' : Tree}
  {t t' : Task}

/-- A part file stays placed as long as no directory moves. -/
theorem PartPlaced.frame {name : String} {k : Location} (h : PartPlaced c tree name k)
    (hplaces : SamePlaces tree tree' c.outputDir) (hframe : Tree.SameFrame tree tree') :
    PartPlaced c tree' name k :=
  ⟨by rw [hplaces.partPlace_eq]; exact h.place, fun hd => h.notDir ((hframe.dir k).mpr hd)⟩

/-- Changes that move no directory do not lead a task astray.  Nothing is asked of the files, so
other tasks may do to them what they like. -/
theorem Task.Within.frame (h : t.Within n c tree) (hplaces : SamePlaces tree tree' c.outputDir)
    (hframe : Tree.SameFrame tree tree') : t.Within n c tree' := by
  unfold Within at h ⊢
  cases hs : t.stage with
  | streaming plan d s l =>
    simp only [hs] at h ⊢
    obtain ⟨name, k, hd, hname, hk, htarget⟩ := h
    exact ⟨name, k, hd, hname, hk.frame hplaces hframe, htarget⟩
  | publishing plan d reading l =>
    simp only [hs] at h ⊢
    obtain ⟨name, k, hd, hname, hk⟩ := h
    exact ⟨name, k, hd, hname, hk.frame hplaces hframe⟩
  | _ =>
    simp only [hs] at h ⊢
    try exact h

/-! ## What a move writes -/

/-- What a move does to the disk, said in names.  These are the four cases of `Effect` without what
the task knows of its body, its lock and its counter. -/
inductive Deed (n : Names) (c : Config) (w : Shared) (t : Task) (w' : Shared) (t' : Task) : Prop
  | still (htree : w'.tree = w.tree)
      (hpart : ∀ d, t.stage.part? = some d → t'.stage.part? = some d)
  /-- It works on a part file, which stays only as long as the task is at work on it. -/
  | part {name} (hname : n.overwritten name)
      (hown : ∀ d, t.stage.part? = some d → d = c.destination name)
      (htouch : w.tree.Touches w'.tree fun k => partPlace w.tree c.outputDir name = .ok k)
      (hleft : ∀ k, partPlace w.tree c.outputDir name = .ok k → Tree.Ordinary (w.tree.get? k) →
        Tree.Ordinary (w'.tree.get? k) ∧
          (w'.tree.get? k ≠ none → t'.stage.part? = some (c.destination name)))
  /-- It appends to a file. -/
  | append {name} (hname : n.appended name) (hnone : t.stage.part? = none)
      (htouch : w.tree.Touches w'.tree fun l => w.tree.place c.outputDir name = .ok l)
  /-- It renames its part file. -/
  | publish {name k j} (hname : n.overwritten name)
      (hown : t.stage.part? = some (c.destination name))
      (hk : partPlace w.tree c.outputDir name = .ok k)
      (hj : w.tree.place c.outputDir name = .ok j) (hgone : w'.tree.get? k = none)
      (htouch : w.tree.Touches w'.tree fun l => l = j ∨ l = k)

/-- A move that changes nothing shared is not made by a task with a part file. -/
theorem Quiet.part? (h : Quiet c clock i w t t') : t.stage.part? = none := by
  cases h <;> simp_all [Stage.part?]

-- what the file operations do is told by their lemmas
attribute [local irreducible] dropPart startStreaming Streaming.step publish appendRead partPath

/-- Removing a part file that was worked on leaves nothing, unless a directory stood there. -/
theorem Deed.ofDrop {name : String} {tree₁ : Tree} (hname : n.overwritten name)
    (hlinks : NoLinks w.tree c.outputDir)
    (hown : ∀ d, t.stage.part? = some d → d = c.destination name)
    (htouch : w.tree.Touches tree₁ fun k => partPlace w.tree c.outputDir name = .ok k)
    (hw : w'.tree = (dropPart tree₁ (partPath (c.destination name))).1) : Deed n c w t w' t' := by
  have hn := n.component (Or.inr hname)
  refine .part hname hown ?_ fun j hj hord => ?_
  · rw [hw]
    exact touches_dropPart hn hlinks htouch
  · have hnone : w'.tree.get? j = none := by
      rw [hw]
      exact get?_dropPart hn hj htouch hord
    exact ⟨Or.inl hnone, fun hne => absurd hnone hne⟩

/-- Streaming works on the part file that is open. -/
theorem Deed.ofStep {name : String} {k : Location} {s : Streaming} {r : Turn Streaming Unit}
    {tree₁ : Tree} (hname : n.overwritten name)
    (hown : ∀ d, t.stage.part? = some d → d = c.destination name)
    (hk : PartPlaced c w.tree name k) (htarget : ∀ l, s.handle.target = .file l → l = k)
    (h : s.step (partPath (c.destination name)) w.tree = (r, tree₁)) (hw : w'.tree = tree₁)
    (ht' : t'.stage.part? = some (c.destination name)) : Deed n c w t w' t' := by
  obtain ⟨hworks, -⟩ := s.step_works (partPath (c.destination name)) w.tree
  rw [h, ← hw] at hworks
  exact .part hname hown (hworks.touches.mono fun l hl => htarget l hl ▸ hk.place)
    fun j _ hord => ⟨hworks.ordinary j hord, fun _ => ht'⟩

/-- What who vanishes writes: it drops its part file, if it has one by then. -/
theorem Gone.deed {tree : Tree} {s : Stage} (h : Gone c clock i w t tree s)
    (hlinks : NoLinks w.tree c.outputDir) (hwithin : t.Within n c w.tree) :
    Deed n c w t (w.without i t tree) (t.at s) := by
  unfold Task.Within at hwithin
  cases h with
  | queued hs | buffering hs | waiting hs | unstarted hs | uncollected hs | unreported hs =>
    exact .still rfl (by simp [hs, Stage.part?])
  | streaming hs =>
    simp only [hs] at hwithin
    obtain ⟨name, k, rfl, hname, -, -⟩ := hwithin
    exact .ofDrop hname hlinks (by simp [hs, Stage.part?]) (.refl _ _) rfl
  | uncreated hs hheld h =>
    simp only [hs] at hwithin
    obtain ⟨name, rfl, hname⟩ := hwithin
    have hn := n.component (Or.inr hname)
    -- the deadline could not be computed, but the file was created before
    rcases startStreaming_error hn (hlinks.part name) h with ⟨hne, -⟩ | ⟨-, -, k, hk, htouch⟩
    · exact absurd rfl hne
    · exact .ofDrop hname hlinks (by simp [hs, Stage.part?])
        (htouch.mono fun l hl => hl ▸ hk) rfl
  | unstreamed hs h =>
    rename_i plan d s l reading tree₁
    simp only [hs] at hwithin
    obtain ⟨name, k, rfl, hname, hk, htarget⟩ := hwithin
    obtain ⟨hworks, -⟩ := s.step_works (partPath (c.destination name)) w.tree
    rw [h] at hworks
    exact .ofDrop hname hlinks (by simp [hs, Stage.part?])
      (hworks.touches.mono fun l hl => htarget l hl ▸ hk.place) rfl

/-- What a move writes.  The cases are those of the stage that it is made from. -/
theorem Move.deed (h : Move c clock i w t w' t') (hlinks : NoLinks w.tree c.outputDir)
    (hwithin : t.Within n c w.tree) : Deed n c w t w' t' := by
  unfold Task.Within at hwithin
  cases h with
  | quiet h => exact .still rfl fun d hd => absurd hd (by simp [h.part?])
  | enqueue hs | refer hs | ask hs | unlock hs | release hs | count hs | leave hs =>
    exact .still rfl (by simp [hs, Stage.part?])
  | append hs hheld =>
    rename_i plan d payload reading l
    simp only [hs] at hwithin
    obtain ⟨name, rfl, hname⟩ := hwithin
    have hn := n.component (Or.inl hname)
    refine .append hname (by rw [hs]; rfl) ?_
    show w.tree.Touches (appendRead payload (c.destination name) reading w.tree).tree _
    rw [(appendRead_result payload (c.destination name) reading w.tree).2.1]
    exact appendPayload_touches hn (hlinks.at name) payload
  | create hs hheld h =>
    simp only [hs] at hwithin
    obtain ⟨name, rfl, hname⟩ := hwithin
    have hn := n.component (Or.inr hname)
    obtain ⟨k, hk, -, hworks, -⟩ := startStreaming_part hn (hlinks.part name) h
    exact .part hname (by simp [hs, Stage.part?]) (hworks.touches.mono fun l hl => hl ▸ hk)
      fun j _ hord => ⟨hworks.ordinary j hord, fun _ => rfl⟩
  | createFails hs hheld h =>
    simp only [hs] at hwithin
    obtain ⟨name, rfl, hname⟩ := hwithin
    have hn := n.component (Or.inr hname)
    rcases startStreaming_error hn (hlinks.part name) h with ⟨-, rfl, -⟩ | ⟨hov, -⟩
    · exact .still rfl (by simp [hs, Stage.part?])
    · exact absurd hov (by simp)
  | streamOn hs h | streamed hs h | streamFails hs h =>
    simp only [hs] at hwithin
    obtain ⟨name, k, rfl, hname, hk, htarget⟩ := hwithin
    exact .ofStep hname (by simp [hs, Stage.part?]) hk htarget h rfl rfl
  | publish hs h =>
    simp only [hs] at hwithin
    obtain ⟨name, k, rfl, hname, hk⟩ := hwithin
    have hn := n.component (Or.inr hname)
    obtain ⟨j, hj, hgone, htouch⟩ := publish_ok hn hlinks hk.place hk.notDir h
    exact .publish hname (by rw [hs]; rfl) hk.place hj hgone htouch
  | publishFails hs h =>
    refine .still (publish_error h).1 fun d hd => ?_
    rw [hs] at hd
    exact hd
  | drop hs =>
    simp only [hs] at hwithin
    obtain ⟨name, rfl, hname⟩ := hwithin
    exact .ofDrop hname hlinks (by simp [hs, Stage.part?]) (.refl _ _) rfl
  | vanish h => exact h.deed hlinks hwithin

/-- A move touches the places of the names. -/
theorem Deed.touches (h : Deed n c w t w' t') :
    w.tree.Touches w'.tree (n.Places w.tree c.outputDir) := by
  cases h with
  | still htree _ =>
    rw [htree]
    exact Tree.Touches.refl _ _
  | part hname _ htouch _ => exact htouch.mono fun l hl => Or.inr ⟨_, hname, Or.inr hl⟩
  | append hname _ htouch => exact htouch.mono fun l hl => Or.inl ⟨_, hname, hl⟩
  | publish hname _ hk hj _ htouch =>
    refine htouch.mono fun l hl => Or.inr ⟨_, hname, ?_⟩
    rcases hl with rfl | rfl
    · exact Or.inl hj
    · exact Or.inr hk

/-- So every name keeps its place. -/
theorem Deed.samePlaces (h : Deed n c w t w' t') : SamePlaces w.tree w'.tree c.outputDir :=
  SamePlaces.of_touches h.touches fun _ hl => hl.dirAt

/-! ## Tasks keep to the names -/

/-- A move that changes nothing shared keeps to the names: when a destination is chosen, it is one
of those that were admitted. -/
theorem Quiet.within (h : Quiet c clock i w t t') (hwithin : t.Within n c tree) :
    t'.Within n c tree := by
  unfold Task.Within at hwithin
  cases h with
  | collect hs | collectOn hs =>
    simp only [hs] at hwithin
    exact hwithin
  | address hs hplan hmode =>
    rename_i plan name
    simp only [hs] at hwithin
    have hname := hwithin.chunked hplan (by rw [hmode]; rfl) 0
    rw [hmode] at hname
    exact ⟨name, rfl, hname⟩
  | issue hs hheld hissue =>
    rename_i plan hint slot session
    simp only [hs] at hwithin
    obtain ⟨hadmits, hplan, hmode⟩ := hwithin
    have hname := hadmits.chunked hplan (by rw [hmode]; rfl) w.counter
    rw [hmode] at hname
    rcases issue_begin w.counter c.streamName hint with ⟨kind, -, -, hfault⟩ | ⟨-, hslot⟩
    · rw [hfault] at hissue
      cases hissue
    · rw [hslot] at hissue
      cases hissue
      exact ⟨_, rfl, hname⟩
  | collected hs =>
    simp only [hs] at hwithin
    exact ⟨_, rfl, hwithin.raw⟩
  | reject | skip | refuse | collectFails | unfit | pass | uncounted | stale | answer => trivial

/-- A task that moves keeps to the names. -/
theorem Move.within (h : Move c clock i w t w' t') (hlinks : NoLinks w.tree c.outputDir)
    (hwithin : t.Within n c w.tree) : t'.Within n c w'.tree := by
  have hdeed := h.deed hlinks hwithin
  have hframe := hdeed.touches.sameFrame
  have hlater := hwithin.frame hdeed.samePlaces hframe
  unfold Task.Within at hwithin hlater
  cases h with
  | quiet h => exact h.within hlater
  | enqueue hs hplan hmode =>
    simp only [hs] at hlater
    exact ⟨hlater, hplan, hmode⟩
  | refer hs | ask hs =>
    simp only [hs] at hlater
    exact hlater
  | create hs hheld h =>
    simp only [hs] at hwithin
    obtain ⟨name, rfl, hname⟩ := hwithin
    obtain ⟨k, hk, hdir, -, htarget⟩ :=
      startStreaming_part (n.component (Or.inr hname)) (hlinks.part name) h
    refine ⟨name, k, rfl, hname, ⟨?_, hdir⟩, htarget⟩
    rw [hdeed.samePlaces.partPlace_eq]
    exact hk
  | createFails hs =>
    simp only [hs] at hlater
    exact hlater
  | streamOn hs h =>
    rename_i plan d s l s' tree₁
    simp only [hs] at hlater
    obtain ⟨name, k, rfl, hname, hk, htarget⟩ := hlater
    obtain ⟨-, hsame⟩ := s.step_works (partPath (c.destination name)) w.tree
    rw [h] at hsame
    exact ⟨name, k, rfl, hname, hk, by rw [hsame s' rfl]; exact htarget⟩
  | streamed hs =>
    simp only [hs] at hlater
    obtain ⟨name, k, rfl, hname, hk, -⟩ := hlater
    exact ⟨name, k, rfl, hname, hk⟩
  | streamFails hs | publishFails hs =>
    simp only [hs] at hlater
    obtain ⟨name, k, rfl, hname, -⟩ := hlater
    exact ⟨name, rfl, hname⟩
  | vanish h => cases h <;> trivial
  | append | publish | drop | unlock | release | count | leave => trivial

end

/-! ## Machines -/

/-- All tasks of a machine keep to the names, in a directory without links. -/
structure Machine.Confined (n : Names) (m : Machine) : Prop where
  noLinks : NoLinks m.tree m.config.outputDir
  within : ∀ t ∈ m.tasks, t.Within n m.config m.tree

namespace Machine.Confined

variable {n : Names} {m m' : Machine} {i : TaskId} {t t' : Task}

/-- What a task writes is read off from what it has kept to so far. -/
theorem deed (h : m.Confined n) (hi : m.tasks[i]? = some t) (hm : m.Moved i t t' m') :
    Deed n m.config m.shared t m'.shared t' :=
  hm.move.deed h.noLinks (h.within t (List.mem_of_getElem? hi))

/-- A move of one task keeps the machine confined: the task itself by `Move.within`, the others
because no directory moves. -/
theorem moved (h : m.Confined n) (hi : m.tasks[i]? = some t) (hm : m.Moved i t t' m') :
    m'.Confined n := by
  have hdeed := h.deed hi hm
  have hplaces : SamePlaces m.tree m'.tree m.config.outputDir := hdeed.samePlaces
  have htouch : m.tree.Touches m'.tree _ := hdeed.touches
  constructor
  · rw [hm.config]
    exact h.noLinks.of_touches htouch hplaces
  · intro u hu
    rw [hm.tasks] at hu
    rw [hm.config]
    rcases List.mem_or_eq_of_mem_set hu with hu | rfl
    · exact (h.within u hu).frame hplaces htouch.sameFrame
    · exact hm.move.within h.noLinks (h.within t (List.mem_of_getElem? hi))

/-- Whatever happens, the tasks keep to the names and touch nothing else, as long as the uploads that
come in are admitted. -/
theorem after {h : Happening} (hm : m.Confined n)
    (hadmits : ∀ request, h = .arrive request → n.Admits m.config) (ha : m.after h = some m') :
    m'.Confined n ∧ m.tree.Touches m'.tree (n.Places m.tree m.config.outputDir) := by
  cases happened ha with
  | arrive request =>
    refine ⟨⟨hm.noLinks, fun u hu => ?_⟩, Tree.Touches.refl _ _⟩
    rcases List.mem_append.mp hu with hu | hu
    · exact hm.within u hu
    · rw [List.mem_singleton.mp hu]
      exact hadmits request rfl
  | move hi hmv => exact ⟨hm.moved hi hmv, (hm.deed hi hmv).touches⟩
  | disconnect hi hg hmv => exact ⟨hm.moved hi hmv, (hm.deed hi hmv).touches⟩
  | pass clock hle => exact ⟨⟨hm.noLinks, hm.within⟩, Tree.Touches.refl _ _⟩

end Machine.Confined

end LiveIngest.Traffic
