import LiveIngest.Proofs.Planning
import LiveIngest.Proofs.Storing

/-!
# The output directory

The state that the output directory is found in: no links, and nothing under a name that is
reserved for files in flight.  Changes that touch plain nodes only keep the directory, the places of
all names in it, and the absence of links.
-/

namespace LiveIngest.Upload

open LiveIngest.Storage
open LiveIngest.Storage.Path

/-- No entry of a directory is a link. -/
def NoLinks (t : Tree) (dir : String) : Prop :=
  ∀ d name target, t.dirAt dir = .ok d → t.get? (d ++ [name]) ≠ some (.link target)

/-- A location in a directory whose name is reserved for files in flight. -/
def Reserved (t : Tree) (dir : String) (l : Location) : Prop :=
  ∃ d name, t.dirAt dir = .ok d ∧ isPartName name = true ∧ l = d ++ [name]

/-- A directory without links and without files in flight. -/
structure CleanOutput (t : Tree) (dir : String) : Prop where
  noLinks : NoLinks t dir
  noParts : ∀ l, Reserved t dir l → t.get? l = none

section

variable {t t' : Tree} {dir name : String}

/-- No link stands where a name of the directory leads, -/
theorem NoLinks.at (h : NoLinks t dir) (name : String) : NoLinkAt t (t.place dir name) := by
  intro l target hl
  obtain ⟨d, hd, rfl⟩ := Tree.dirAt_of_place hl
  exact h d name target hd

/-- nor where the name of its part file does.  That name is looked up from the path of the
destination without its tail, which leads to the same directory. -/
theorem NoLinks.part (h : NoLinks t dir) (name : String) : NoLinkAt t (partPlace t dir name) := by
  intro l target hl
  obtain ⟨d, hd, rfl⟩ := Tree.dirAt_of_place hl
  exact h d (partName name) target (Tree.dirAt_dirOf.mp hd)

/-- A file in flight stands at a reserved location. -/
theorem reserved_partPlace {k : Location} (hk : partPlace t dir name = .ok k) :
    Reserved t dir k := by
  obtain ⟨d, hd, rfl⟩ := Tree.dirAt_of_place hk
  exact ⟨d, partName name, Tree.dirAt_dirOf.mp hd, isPartName_partName name, rfl⟩

/-- A name that is not reserved has a place that is not reserved. -/
theorem not_reserved_place {l : Location} (hl : t.place dir name = .ok l)
    (hn : isPartName name = false) : ¬Reserved t dir l := by
  rintro ⟨d, part, hd, hpart, rfl⟩
  obtain ⟨d', hd', he⟩ := Tree.dirAt_of_place hl
  rw [hd, Except.ok.injEq] at hd'
  subst hd'
  have : part = name := by simpa using he
  rw [this, hn] at hpart
  exact absurd hpart (by simp)

/-- In particular there is no part file. -/
theorem CleanOutput.part_none (h : CleanOutput t dir) {k : Location}
    (hk : partPlace t dir name = .ok k) : t.get? k = none := h.noParts k (reserved_partPlace hk)

/-- Nothing stands in an empty home directory. -/
theorem get?_empty_home (name : String) : Tree.empty.get? (Tree.home ++ [name]) = none := by
  simp [Tree.empty, Tree.home, Tree.get?, List.lookup_cons]

/-- An endpoint that starts on an empty disk has a clean output directory. -/
theorem cleanOutput_empty : CleanOutput Tree.empty "." := by
  have hdir : Tree.empty.dirAt "." = .ok Tree.home := by decide +kernel
  constructor
  · intro d name target hd
    cases hdir.symm.trans hd
    rw [get?_empty_home]
    simp
  · rintro l ⟨d, name, hd, -, rfl⟩
    cases hdir.symm.trans hd
    exact get?_empty_home name

/-- Both names of the output directory lead where they led before. -/
structure SamePlaces (t t' : Tree) (dir : String) : Prop where
  base : t'.dirAt dir = t.dirAt dir
  beside : t'.dirAt (dirOf dir) = t.dirAt (dirOf dir)

namespace SamePlaces

/-- Nothing moves if nothing changes. -/
theorem refl (t : Tree) (dir : String) : SamePlaces t t dir := ⟨rfl, rfl⟩

/-- One change after the other. -/
theorem trans {t'' : Tree} (h : SamePlaces t t' dir) (h' : SamePlaces t' t'' dir) :
    SamePlaces t t'' dir := ⟨h'.base.trans h.base, h'.beside.trans h.beside⟩

/-- A name has the place it had, -/
theorem place_eq (h : SamePlaces t t' dir) (name : String) : t'.place dir name = t.place dir name :=
  Tree.place_congr h.base name

/-- and so has its part file. -/
theorem partPlace_eq (h : SamePlaces t t' dir) (name : String) :
    partPlace t' dir name = partPlace t dir name := Tree.place_congr h.beside (partName name)

/-- So the same locations are reserved. -/
theorem reserved_iff (h : SamePlaces t t' dir) {l : Location} :
    Reserved t' dir l ↔ Reserved t dir l := by
  rw [Reserved, Reserved, h.base]

/-- Trees with the same nodes have the same places. -/
theorem of_get? (h : ∀ l, t'.get? l = t.get? l) (dir : String) : SamePlaces t t' dir :=
  ⟨Tree.dirAt_congr h dir, Tree.dirAt_congr h _⟩

/-- Trees with the same directories and links have the same places in a directory that is there. -/
theorem of_sameFrame (h : Tree.SameFrame t t') {d : Location} (hd : t.dirAt dir = .ok d) :
    SamePlaces t t' dir := by
  constructor
  · rw [Tree.dirAt_of_sameFrame h hd, hd]
  · rw [Tree.dirAt_of_sameFrame h (Tree.dirAt_dirOf.mpr hd), Tree.dirAt_dirOf.mpr hd]

/-- Changing plain nodes at places of the directory keeps the places. -/
theorem of_touches {S : Location → Prop} (h : t.Touches t' S)
    (hS : ∀ l, S l → ∃ d, t.dirAt dir = .ok d) : SamePlaces t t' dir := by
  by_cases hd : ∃ d, t.dirAt dir = .ok d
  · obtain ⟨d, hd⟩ := hd
    exact of_sameFrame h.sameFrame hd
  · exact of_get? (fun l => h.same l fun hl => hd (hS l hl)) dir

end SamePlaces

/-- Only what stands on the disk makes an output directory clean, not how full the disk is. -/
theorem CleanOutput.of_get? (h : CleanOutput t dir) (hsame : ∀ l, t'.get? l = t.get? l) :
    CleanOutput t' dir := by
  have hplaces := SamePlaces.of_get? hsame dir
  constructor
  · intro d name target hd
    rw [hsame]
    exact h.noLinks d name target (hplaces.base ▸ hd)
  · intro l hl
    rw [hsame]
    exact h.noParts l (hplaces.reserved_iff.mp hl)

/-- Only in a directory that is there anything has a place. -/
theorem dirAt_of_partPlace {k : Location} (hk : partPlace t dir name = .ok k) :
    ∃ d, t.dirAt dir = .ok d := by
  obtain ⟨d, hd, -⟩ := Tree.dirAt_of_place hk
  exact ⟨d, Tree.dirAt_dirOf.mp hd⟩

/-- The same of the name itself. -/
theorem dirAt_of_place {l : Location} (hl : t.place dir name = .ok l) :
    ∃ d, t.dirAt dir = .ok d := by
  obtain ⟨d, hd, -⟩ := Tree.dirAt_of_place hl
  exact ⟨d, hd⟩

/-- Changes of plain nodes bring no link. -/
theorem NoLinks.of_touches {S : Location → Prop} (h : NoLinks t dir) (htouch : t.Touches t' S)
    (hplaces : SamePlaces t t' dir) : NoLinks t' dir := by
  intro d name target hd hl
  rw [hplaces.base] at hd
  exact h d name target hd ((htouch.sameFrame.link _ _).mpr hl)

/-- A part file that was worked on is gone when it has been dropped: it is no directory, which could
not be removed, since there was none before. -/
theorem get?_dropPart {k : Location} (hn : IsComponent name)
    (hk : partPlace t dir name = .ok k)
    (htouch : t.Touches t' fun l => partPlace t dir name = .ok l) (hord : Tree.Ordinary (t.get? k)) :
    (dropPart t' (partPath (join dir name))).1.get? k = none := by
  have hplaces : SamePlaces t t' dir := SamePlaces.of_touches htouch fun _ => dirAt_of_partPlace
  have hdir : t'.get? k ≠ some .dir := by
    rw [ne_eq, ← htouch.sameFrame.dir k]
    exact hord.plain.1
  rw [dropPart_get? hn, if_pos ⟨hplaces.partPlace_eq name ▸ hk, hdir⟩]

/-- Working on a part file and dropping it touches its place only, if it has one. -/
theorem touches_dropPart (hn : IsComponent name) (hlinks : NoLinks t dir)
    (htouch : t.Touches t' fun l => partPlace t dir name = .ok l) :
    t.Touches (dropPart t' (partPath (join dir name))).1 fun l => partPlace t dir name = .ok l := by
  have hplaces : SamePlaces t t' dir := SamePlaces.of_touches htouch fun _ => dirAt_of_partPlace
  have hdrop := dropPart_touches hn ((hlinks.of_touches htouch hplaces).part name)
  rw [hplaces.partPlace_eq] at hdrop
  exact htouch.trans hdrop

/-- Renaming a part file moves a plain node to where there was none, or another one. -/
theorem touches_rename {k j : Location} {node : Node} (hplain : Tree.Plain (some node))
    (hlinks : NoLinks t dir) (hk : partPlace t dir name = .ok k) (hget : t.get? k = some node)
    (hj : placement t dir name = .ok j) :
    ((t.remove k).put j node).get? k = none ∧
      t.Touches ((t.remove k).put j node) fun l => l = j ∨ l = k := by
  obtain ⟨hplace, hdir⟩ := placement_ok hj
  -- the name of a part file is never the name it is for
  have hne : k ≠ j := fun he => Tree.place_ne (partName_ne_self name) hplace hk he.symm
  have hgone : ((t.remove k).put j node).get? k = none := by
    rw [Tree.get?_put_of_ne hne, Tree.get?_remove_self (Tree.place_ne_nil hk)]
  have hsame : ∀ l, l ≠ j → l ≠ k → ((t.remove k).put j node).get? l = t.get? l := by
    intro l hlj hlk
    rw [Tree.get?_put_of_ne hlj, Tree.get?_remove_of_ne hlk]
  refine ⟨hgone, fun l hl => ?_, fun l hl => ?_, Iff.rfl⟩
  · rw [not_or] at hl
    exact hsame l hl.1 hl.2
  · by_cases hlj : l = j
    · subst hlj
      rw [Tree.get?_put_self (Tree.place_ne_nil hplace)]
      exact ⟨⟨hdir, fun target => hlinks.at name l target hplace⟩, hplain⟩
    · have hlk : l = k := Classical.byContradiction fun hlk => hl (hsame l hlj hlk)
      subst hlk
      rw [hgone, hget]
      exact ⟨hplain, Tree.plain_none⟩

/-- The rename moves a file to where there was none, or a file. -/
theorem touches_publish {k j : Location} {bytes : Bytes} (hlinks : NoLinks t dir)
    (hk : partPlace t dir name = .ok k) (hget : t.get? k = some (.file bytes))
    (hj : placement t dir name = .ok j) :
    t.Touches ((t.remove k).put j (.file bytes)) fun l => l = j ∨ l = k :=
  (touches_rename (Tree.plain_file bytes) hlinks hk hget hj).2

end

/-! ## Appends that are all or nothing -/

/-- An append as a whole either succeeds or has no effect. -/
def AppendsWhole (t : Tree) (destination : String) (payload : Bytes) : Prop :=
  ∀ stop, (appendPayload t destination payload).1 = .error stop →
    ∀ l, (appendPayload t destination payload).2.get? l = t.get? l

/-- Where there is room for its payload an append is all or nothing. -/
theorem appendsWhole_of_room {t : Tree} {dir name : String} {payload : Bytes}
    (hroom : t.HasRoom payload.length) (hn : IsComponent name)
    (hlink : NoLinkAt t (t.place dir name)) : AppendsWhole t (join dir name) payload := by
  intro stop h l
  rcases exists_content_or t dir name with ⟨k, old, hk, hold⟩ | hnone
  · obtain ⟨kept, -, -, -, -, -, hfits⟩ := appendPayload_file hn hlink hk hold payload
    rw [hfits hroom] at h
    exact absurd h (by simp)
  · obtain ⟨cause, hcause⟩ := appendPayload_fault hn hlink hnone payload
    rw [hcause t rfl fun _ _ => rfl]

end LiveIngest.Upload
