import LiveIngest.Proofs.Dispatching
import LiveIngest.Proofs.Leftovers

/-!
# What was recorded stays recorded

The uploads that are appended share one file, the raw output file.  While the endpoint runs it only
grows: every upload keeps what is there, and an appended one puts more behind it
(`raw_output_append_only`).

For that no chunked upload may have the name of the raw output file, nor may its part file, and no
link may lead from the name of a part file to the raw output file.  Nothing makes sure of this.  An
upload that is stored under its content id is refused if it has the name of the raw output file, but
a segment is not; and the settings are accepted also where the raw output file is named like a part
file.  `raw_output_not_append_only` has an endpoint for each of the two where a recording is lost,
and one where a link does it.

The step lemma is `Effect.extends`, with one case for each thing that a move does to the disk.
-/

namespace LiveIngest.Traffic

open LiveIngest.Body
open LiveIngest.Storage
open LiveIngest.Storage.Path
open LiveIngest.Upload

attribute [local irreducible] dropPart startStreaming Streaming.step publish appendRead partPath

/-! ## Growing files -/

/-- The file at `path`, if there is one in `t`, is still there in `t'` and begins with what it was. -/
def Extends (path : String) (t t' : Tree) : Prop :=
  ∀ old, t.content? path = some old → ∃ new, t'.content? path = some new ∧ old <+: new

namespace Extends

variable {path : String} {t t' t'' : Tree}

/-- A file that stays has grown by nothing. -/
theorem refl (path : String) (t : Tree) : Extends path t t :=
  fun old hold => ⟨old, hold, List.prefix_rfl⟩

/-- It grows further. -/
theorem trans (h : Extends path t t') (h' : Extends path t' t'') : Extends path t t'' := by
  intro old hold
  obtain ⟨mid, hmid, hle⟩ := h old hold
  obtain ⟨new, hnew, hle'⟩ := h' mid hmid
  exact ⟨new, hnew, hle.trans hle'⟩

/-- A file of a directory without links is seen at its place. -/
theorem of_place {dir name : String} (hn : IsComponent name) (hlinks : NoLinks t dir)
    (hlinks' : NoLinks t' dir) (hplaces : SamePlaces t t' dir)
    (h : ∀ l old, t.place dir name = .ok l → t.get? l = some (.file old) →
      ∃ new, t'.get? l = some (.file new) ∧ old <+: new) :
    Extends (join dir name) t t' := by
  intro old hold
  obtain ⟨l, hl, hget⟩ := (Tree.content?_join hn (hlinks.at name)).mp hold
  obtain ⟨new, hnew, hle⟩ := h l old hl hget
  refine ⟨new, (Tree.content?_join hn (hlinks'.at name)).mpr ⟨l, ?_, hnew⟩, hle⟩
  rw [hplaces.place_eq]
  exact hl

end Extends

/-! ## Every move keeps what is there -/

/-- No chunked upload is stored in the raw output file, nor is one streamed into it. -/
def Untouched (c : Config) : Prop :=
  ∀ name, Overwrites c name → c.rawOutputFile ≠ name ∧ c.rawOutputFile ≠ partName name

/-- In particular, no chunked upload has a part file of that name, which is what the invariant of
the machine asks for. -/
theorem Untouched.separate {c : Config} (h : Untouched c) : Separate c :=
  fun name hover => (h name hover).2

/-- Where chunked uploads have the names they ask for, only names like those of part files are in
the way: that of the raw output file is refused. -/
theorem untouched_of_contentId {c : Config} (hdash : c.dashMode = .contentId)
    (hpart : isPartName c.rawOutputFile = false) : Untouched c := by
  intro name hover
  have hsep := separate_of_isPartName hpart name hover
  unfold Overwrites at hover
  rw [hdash] at hover
  exact ⟨hover.2.1.symm, hsep⟩

/-- Where they are sequenced, the names of segments are in the way as well. -/
theorem untouched_of_sequenced {c : Config} (hdash : c.dashMode = .sequenced)
    (hpart : isPartName c.rawOutputFile = false)
    (hname : ∀ k, c.rawOutputFile ≠ Segment.fileName c.streamName k) : Untouched c := by
  intro name hover
  have hsep := separate_of_isPartName hpart name hover
  unfold Overwrites at hover
  rw [hdash] at hover
  obtain ⟨k, rfl⟩ := hover
  exact ⟨hname k, hsep⟩

section

variable {c : Config} {clock : Nat} {i : TaskId} {w w' : Shared} {t t' : Task}

/-- The step.  What changes the disk is an append, which puts its payload behind what is there, or
is about another file. -/
theorem Effect.extends (h : Effect c clock i w t w' t') (hc : c.Valid) (hfree : Untouched c)
    (hlinks : NoLinks w.tree c.outputDir) : Extends c.rawOutputPath w.tree w'.tree := by
  have hplaces := h.samePlaces hc hlinks
  have hlinks' := hlinks.of_touches (h.touches hc hlinks) hplaces
  refine Extends.of_place hc.raw hlinks hlinks' hplaces fun l old hl hget => ?_
  -- whatever does not act on the raw output file keeps it as it is
  have hkept : w'.tree.get? l = w.tree.get? l →
      ∃ new, w'.tree.get? l = some (.file new) ∧ old <+: new :=
    fun hsame => ⟨old, hsame.trans hget, List.prefix_rfl⟩
  have hpart : ∀ {plan destination}, t.Aims c w.counter plan destination →
      plan.mode.isChunked = true →
      partPlace w.tree c.outputDir (plan.mode.target c w.counter) ≠ .ok l :=
    fun haims hchunked hk => Tree.place_ne
      (hfree _ (overwrites_target haims.planned hchunked w.counter)).2 hl hk rfl
  cases h with
  | still htree _ _ => exact hkept (by rw [htree])
  | part haims hchunked _ _ htouch _ _ => exact hkept (htouch.same l (hpart haims hchunked))
  | append hs haims hworks hheld hw ht =>
    rename_i plan destination payload reading lock
    subst hw
    have hold : contentAt w.tree l = some old := by rw [contentAt, hget]
    obtain ⟨kept, -, -, hafter, -⟩ := appendPayload_file hc.raw (hlinks.at _) hl hold payload
    refine ⟨old ++ kept, ?_, List.prefix_append old kept⟩
    show (appendRead payload destination reading w.tree).tree.get? l = _
    rw [haims.tree_appendRead hworks.1]
    exact hafter
  | publish hs haims hchunked hheld hread hk hpartfile hj hw ht =>
    rename_i plan destination reading lock bytes k j
    have hplace := (placement_ok hj).1
    have hne : l ≠ j := by
      rintro rfl
      exact (hfree _ (overwrites_target haims.planned hchunked w.counter)).1
        (Tree.place_injective hl hplace)
    subst hw
    exact hkept ((publish_get? bytes hk hplace).2.2 l hne fun he =>
      hpart haims hchunked (he ▸ hk))

end

/-! ## ... and so does every run -/

namespace Machine

variable {m m' : Machine}

/-- So the file stays and grows whatever happens, as arrivals and the clock leave the disk alone. -/
theorem extends_after {e : Happening} (hc : m.config.Valid) (hfree : Untouched m.config)
    (hinv : m.Inv) (ha : m.after e = some m') :
    Extends m.config.rawOutputPath m.tree m'.tree := by
  have hmoved : ∀ {i t t'}, m.tasks[i]? = some t → m.Moved i t t' m' →
      Extends m.config.rawOutputPath m.tree m'.tree := by
    intro i t t' hi hmv
    have heffect := hmv.move.effect hc hinv.noLinks (hinv.ok i t hi) hinv.locked hi
    exact heffect.extends hc hfree hinv.noLinks
  cases happened ha with
  | arrive request => exact Extends.refl _ _
  | move hi hmv => exact hmoved hi hmv
  | disconnect hi hg hmv => exact hmoved hi hmv
  | pass clock hle => exact Extends.refl _ _

/-- A run: the invariant and the settings are carried along, as each step needs both. -/
theorem extends_afterAll {hs : List Happening} (hc : m.config.Valid) (hfree : Untouched m.config)
    (hinv : m.Inv) (ha : m.afterAll hs = some m') :
    Extends m.config.rawOutputPath m.tree m'.tree := by
  refine (afterAll_keeps (P := fun m' => m'.Inv ∧ m'.config = m.config ∧
    Extends m.config.rawOutputPath m.tree m'.tree) ?_ hs ⟨hinv, rfl, Extends.refl _ _⟩ ha).2.2
  rintro m₁ m₂ e ⟨hinv₁, hconfig, hsofar⟩ ha₁
  have hc₁ : m₁.config.Valid := hconfig ▸ hc
  have hfree₁ : Untouched m₁.config := hconfig ▸ hfree
  have hstep := extends_after hc₁ hfree₁ hinv₁ ha₁
  rw [hconfig] at hstep
  exact ⟨hinv₁.after hc₁ hfree₁.separate ha₁, (happened ha₁).config_eq.trans hconfig,
    hsofar.trans hstep⟩

end Machine

/-! ## Endpoints that record -/

/-- Between any two states that an endpoint reaches its raw output file stays and only grows. -/
def AppendOnly (g : Ingest) : Prop :=
  ∀ (hs hs' : List Machine.Happening) (m m' : Machine), (Machine.ofIngest g).afterAll hs = some m →
    m.afterAll hs' = some m' → Extends g.config.rawOutputPath m.tree m'.tree

/-- Preparing the output leaves the settings alone. -/
theorem config_prepare {g g' : Ingest} {result : Except Error (List Event)}
    (h : g.prepare = (result, g')) : g'.config = g.config := by
  unfold Ingest.prepare at h
  split at h
  · cases h
    rfl
  · simp only at h
    split at h
    · cases h
      rfl
    · cases h
      rfl

/-- Nothing that was recorded is lost.  Where no chunked upload has the name of the raw output file,
nor has its part file, an endpoint whose output directory is prepared and has no links only appends
to its raw output file, in both modes of chunked uploads and whatever the clients do. -/
theorem raw_output_append_only {c : Config} {tree : Tree} {events : List Event} {g : Ingest}
    (hvalid : c.validate = .ok ())
    (hfree : ∀ name, Overwrites c name → c.rawOutputFile ≠ name ∧ c.rawOutputFile ≠ partName name)
    (hready : (Ingest.start c tree).prepare = (.ok events, g))
    (hlinks : NoLinks g.tree c.outputDir) : AppendOnly g := by
  intro hs hs' m m' hrun hrest
  have hconfig : g.config = c := config_prepare hready
  subst hconfig
  have hc : g.config.Valid := Config.valid_of_validate hvalid
  have hfree : Untouched g.config := hfree
  obtain ⟨hinv, hsame⟩ :=
    Machine.Inv.afterAll (m := .ofIngest g) hc hfree.separate (Machine.inv_ofIngest hlinks) hrun
  have hsame : m.config = g.config := hsame
  rw [← hsame] at hc hfree ⊢
  exact Machine.extends_afterAll hc hfree hinv hrest

/-- Three bytes are recorded, and then another upload comes in. -/
def recording (next : Request) : List Machine.Happening :=
  .arrive (.declaring "/" "video/webm" "3" [⟨0, .data [1, 2, 3]⟩]) ::
    List.replicate 10 (.move 0) ++ [.arrive next]

/-- A segment comes in between two recordings. -/
theorem raw_output_append_only_around :
    let c : Config := {}
    let g := Ingest.start c Tree.empty
    let hs := recording (.declaring "/dash" "video/webm" "1" [⟨0, .data [9]⟩])
    let hs' := .arrive (.declaring "/" "video/webm" "2" [⟨0, .data [4, 5, 6]⟩]) ::
      List.replicate 13 (.move 1) ++ List.replicate 10 (.move 2)
    c.validate = .ok () ∧
      (∀ name, Overwrites c name → c.rawOutputFile ≠ name ∧ c.rawOutputFile ≠ partName name) ∧
      g.prepare = (.ok [.ready c], g) ∧ NoLinks g.tree c.outputDir ∧
      ∃ m m', (Machine.ofIngest g).afterAll hs = some m ∧ m.afterAll hs' = some m' ∧
        m.tree.content? c.rawOutputPath = some [1, 2, 3] ∧
        m'.tree.content? c.rawOutputPath = some [1, 2, 3, 4, 5] ∧
        Extends c.rawOutputPath m.tree m'.tree := by
  intro c g hs hs'
  have hvalid : c.validate = .ok () := by decide +kernel
  have hfree : ∀ name, Overwrites c name → c.rawOutputFile ≠ name ∧ c.rawOutputFile ≠ partName name := by
    refine untouched_of_sequenced rfl (by decide +kernel) fun k he => ?_
    have hlast := getLast?_fileName c.streamName k
    rw [← he, show c.rawOutputFile.toList.getLast? = some 'm' by decide] at hlast
    match k with
    | 0 | 1 | k + 2 => simp at hlast
  have hready : g.prepare = (.ok [.ready c], g) := by decide +kernel
  have hbefore : ((Machine.ofIngest g).afterAll hs).map (·.tree.content? c.rawOutputPath) =
      some (some [1, 2, 3]) := by decide +kernel
  have hafter : ((Machine.ofIngest g).afterAll (hs ++ hs')).map (·.tree.content? c.rawOutputPath) =
      some (some [1, 2, 3, 4, 5]) := by decide +kernel
  rw [Option.map_eq_some_iff] at hbefore hafter
  obtain ⟨m, hm, hold⟩ := hbefore
  obtain ⟨m', hm', hnew⟩ := hafter
  rw [Machine.afterAll_append, hm] at hm'
  have hrest : m.afterAll hs' = some m' := hm'
  have honly := raw_output_append_only hvalid hfree hready cleanOutput_empty.noLinks
  exact ⟨hvalid, hfree, hready, cleanOutput_empty.noLinks, m, m', hm, hrest, hold, hnew,
    honly hs hs' m m' hm hrest⟩

/-! ## Endpoints that lose what they recorded -/

/-- Settings that are accepted, with a disk on which they make an endpoint that loses recordings. -/
structure Loses (c : Config) (tree : Tree) : Prop where
  valid : c.validate = .ok ()
  lost : ∃ events g, (Ingest.start c tree).prepare = (.ok events, g) ∧ ¬AppendOnly g

/-- It is enough to watch one recording while another upload is handled. -/
theorem Loses.of_recording {c : Config} {tree : Tree} (next : Request) (moves : Nat)
    (left : Option Bytes) (hvalid : c.validate = .ok ())
    (hready : (Ingest.start c tree).prepare = (.ok [.ready c], .start c tree))
    (hbefore : ((Machine.ofIngest (.start c tree)).afterAll (recording next)).map
      (·.tree.content? c.rawOutputPath) = some (some [1, 2, 3]))
    (hafter : ((Machine.ofIngest (.start c tree)).afterAll
      (recording next ++ List.replicate moves (.move 1))).map
      (·.tree.content? c.rawOutputPath) = some left)
    (hlost : ∀ new, left = some new → ¬ [1, 2, 3] <+: new) : Loses c tree := by
  refine ⟨hvalid, [.ready c], .start c tree, hready, fun honly => ?_⟩
  rw [Option.map_eq_some_iff] at hbefore hafter
  obtain ⟨m, hm, hold⟩ := hbefore
  obtain ⟨m', hm', hleft⟩ := hafter
  rw [Machine.afterAll_append, hm] at hm'
  obtain ⟨new, hnew, hle⟩ := honly _ _ m m' hm hm' _ hold
  exact hlost new (hleft.symm.trans hnew) hle

/-- A recording is lost to the manifest that has the name of the raw output file, to an upload whose
part file has it, and to a segment whose part file is a link to it. -/
theorem raw_output_not_append_only :
    Loses { rawOutputFile := "webmlive.mpd" } Tree.empty ∧
      Loses { rawOutputFile := ".a.part", dashMode := .contentId } Tree.empty ∧
      Loses {} (Tree.empty.put (Tree.home ++ [".webmlive.mpd.part"]) (.link "test.webm")) := by
  let segment := Request.declaring "/dash" "video/webm" "1" [⟨0, .data [9]⟩]
  let labelled : Request :=
    { segment with headers := ⟨"x-content-id", Bytes.ofString "a"⟩ :: segment.headers }
  have hshort : ∀ new : Bytes, some [9] = some new → ¬ [1, 2, 3] <+: new := by
    rintro new ⟨⟩
    decide
  refine ⟨?mixed, ?hidden, ?linked⟩
  case mixed =>
    exact .of_recording segment 13 (some [9]) (by decide +kernel) (by decide +kernel)
      (by decide +kernel) (by decide +kernel) hshort
  case hidden =>
    exact .of_recording labelled 11 none (by decide +kernel) (by decide +kernel)
      (by decide +kernel) (by decide +kernel) fun new hnew => by cases hnew
  case linked =>
    exact .of_recording segment 13 (some [9]) (by decide +kernel) (by decide +kernel)
      (by decide +kernel) (by decide +kernel) hshort

end LiveIngest.Traffic
