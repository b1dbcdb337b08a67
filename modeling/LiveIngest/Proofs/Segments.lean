import LiveIngest.Proofs.Committing

/-!
# The segments on disk

In a sequenced session the file of an index is written by one upload only, the one that commits this
index.  An upload writes to the file of the current index alone, by renaming its part file
(`Effect.segment`), and from then on it does nothing but commit.  So the file of every index below the
counter holds the body of the upload that was given the index, for ever, and the files from the
counter on are as they were at first; while a segment is in place but not counted its file is ahead
of the counter, which nobody can read then, since the sequencer is held.

`segments_stored_in_order` says this of every reachable state.

Links are ruled out at first and nobody makes one, so a part file is written where its name stands.
`segments_stored_ahead` has a run for each of the two reasons why a file can be ahead of the
counter.
-/

namespace LiveIngest.Traffic

open LiveIngest.Body
open LiveIngest.Storage
open LiveIngest.Storage.Path
open LiveIngest.Upload

attribute [local irreducible] dropPart startStreaming Streaming.step publish appendRead partPath

/-! ## What a segment is -/

/-- The file at `l` is that of an index, and holds the first `n` bytes of the body of an upload that
declared so many and gave no other hint.  So the segment is what its sender sent, under the index
that it expected if it expected one. -/
structure FillsWith (c : Config) (tree : Tree) (index : Nat) (r : Request) (n : Nat) (l : Location) :
    Prop where
  declared : declaredLength c r.headers = .ok n
  hint : ∀ kind, r.headers.contentId?.bind Segment.Kind.ofContentId? = some kind →
    kind = Segment.Kind.ofIndex index
  complete : n ≤ (Schedule.bytes r.body).length
  place : tree.place c.outputDir (Segment.fileName c.streamName index) = .ok l
  content : tree.get? l = some (.file ((Schedule.bytes r.body).take n))

/-- The segment of an index is the body of an upload. -/
def Fills (c : Config) (tree : Tree) (index : Nat) (r : Request) : Prop :=
  ∃ n l, FillsWith c tree index r n l

/-- A segment stays filled as long as its file is left alone. -/
theorem Fills.frame {c : Config} {tree tree' : Tree} {index : Nat} {r : Request}
    (h : Fills c tree index r) (hplaces : SamePlaces tree tree' c.outputDir)
    (hsame : ∀ l, tree.place c.outputDir (Segment.fileName c.streamName index) = .ok l →
      tree'.get? l = tree.get? l) : Fills c tree' index r := by
  obtain ⟨n, l, hl⟩ := h
  refine ⟨n, l, hl.declared, hl.hint, hl.complete, ?_, ?_⟩
  · rw [hplaces.place_eq]
    exact hl.place
  · rw [hsame l hl.place]
    exact hl.content

/-! ## Who writes a segment -/

section

variable {c : Config} {clock : Nat} {i : TaskId} {w w' : Shared} {t t' : Task}

/-- A part file that is renamed fills the current index: the target of a segment is the name of the
index, and the part file holds the body. -/
theorem Task.Aims.fills {plan : Plan} {destination : String} {reading : Reading} {bytes : Bytes}
    {k j : Location} (haims : t.Aims c w.counter plan destination)
    (hseq : plan.mode.isSequenced = true) (hread : t.Reads c clock plan (.ok bytes, reading))
    (hj : placement w.tree c.outputDir (plan.mode.target c w.counter) = .ok j)
    (hplaces : SamePlaces w.tree ((w.tree.remove k).put j (.file bytes)) c.outputDir) :
    Fills c ((w.tree.remove k).put j (.file bytes)) w.counter t.request := by
  obtain ⟨hmode, hlength, -⟩ := classify_ok haims.planned
  obtain ⟨start, -, hread⟩ := hread
  obtain ⟨rfl, hlong⟩ := readBody_bytes hread
  have hticket := haims.ticket
  cases hm : plan.mode with
  | sequenced hint =>
    rw [hm] at hmode hticket hj
    obtain ⟨-, rfl⟩ := modeOf_sequenced hmode
    have hplace := (placement_ok hj).1
    rw [List.length_take] at hlong
    refine ⟨plan.length, j, hlength, hticket.2, by omega, ?_, ?_⟩
    · rw [hplaces.place_eq]
      exact hplace
    · rw [Tree.get?_put_self (Tree.place_ne_nil hplace)]
  | _ => rw [hm] at hseq; cases hseq

/-- A segment that is in place fills the current index. -/
theorem Move.fills (h : Move c clock i w t w' t') (hc : c.Valid)
    (hdash : c.dashMode = .sequenced) (hok : t.Ok c w.tree w.counter clock)
    (hplaces : SamePlaces w.tree w'.tree c.outputDir) (hu : t'.isUncounted = true) :
    t.isUncounted = true ∧ w'.tree = w.tree ∨ Fills c w'.tree w.counter t.request := by
  rcases h.placed hok hu with hsame | ⟨plan, destination, reading, l, hs, hpublish⟩
  · exact Or.inl hsame
  · obtain ⟨haims, hchunked, bytes, k, j, hread, -, -, hj, htree⟩ := hok.renamed hc hs hpublish
    rw [htree] at hplaces ⊢
    exact Or.inr (haims.fills (isSequenced_of_isChunked hdash haims.planned hchunked) hread hj hplaces)

variable (hc : c.Valid) (hdash : c.dashMode = .sequenced)
  (hraw : ∀ k, c.rawOutputFile ≠ Segment.fileName c.streamName k)
  (hlinks : NoLinks w.tree c.outputDir)
include hc hdash hraw hlinks

/-- A move changes the file of an index only if it is the current one, and fills it then.  Part
files and the raw output file are other files, and a rename goes to the name of the current index,
which is no other's. -/
theorem Effect.segment (h : Effect c clock i w t w' t') {k : Nat} {l : Location}
    (hl : w.tree.place c.outputDir (Segment.fileName c.streamName k) = .ok l) :
    w'.tree.get? l = w.tree.get? l ∨ k = w.counter ∧ t'.isUncounted = true := by
  have hplaces := h.samePlaces hc hlinks
  -- a segment is not named like a part file
  have hpart : ∀ {name}, partPlace w.tree c.outputDir name ≠ .ok l := by
    intro name hk
    refine Tree.place_ne (fun he => ?_) hl hk rfl
    have hname := isPartName_fileName c.streamName k
    rw [he, isPartName_partName] at hname
    cases hname
  cases h with
  | still htree _ _ => exact Or.inl (by rw [htree])
  | part _ _ _ _ htouch _ _ => exact Or.inl (htouch.same l hpart)
  | append hs haims hworks hheld hw ht =>
    rename_i plan destination payload reading lock
    subst hw
    refine Or.inl ?_
    show (appendRead payload destination reading w.tree).tree.get? l = _
    rw [haims.tree_appendRead hworks.1]
    refine (appendPayload_touches hc.raw (hlinks.at _) payload).same l fun hplace => ?_
    exact hraw k (Tree.place_injective hplace hl)
  | publish hs haims hchunked hheld hread hk hget hj hw ht =>
    rename_i plan destination reading lock bytes k₀ j
    have hplace := (placement_ok hj).1
    have hseq := isSequenced_of_isChunked hdash haims.planned hchunked
    -- the file that is renamed to, or some other
    by_cases hlj : l = j
    · subst hlj
      refine Or.inr ⟨?_, ?_⟩
      · have hname := Tree.place_injective hplace hl
        cases hm : plan.mode with
        | sequenced hint =>
          rw [hm] at hname
          exact (fileName_injective hname).symm
        | _ => rw [hm] at hseq; cases hseq
      · rw [ht, Task.isUncounted, Task.ticket_at, haims.isSome_ticket, hseq]
        rfl
    · subst hw
      exact Or.inl ((publish_get? bytes hk hplace).2.2 l hlj fun he => hpart (he ▸ hk))

end

/-! ## The segments of a machine -/

namespace Machine

/-- The files of the indices below the counter hold what was committed, the file of the counter may
hold what is about to be, and no other has changed since `tree`. -/
structure Filled (tree : Tree) (m : Machine) (done : List (TaskId × Nat)) : Prop where
  committed : ∀ i k, (i, k) ∈ done → ∃ t, m.tasks[i]? = some t ∧ Fills m.config m.tree k t.request
  uncounted : ∀ (i : TaskId) (t : Task), m.tasks[i]? = some t → t.isUncounted = true →
    Fills m.config m.tree m.counter t.request
  fresh : ∀ k l, m.counter ≤ k →
    m.tree.place m.config.outputDir (Segment.fileName m.config.streamName k) = .ok l →
    m.tree.get? l = tree.get? l ∨
      k = m.counter ∧ ∃ (i : TaskId) (t : Task), m.tasks[i]? = some t ∧ t.isUncounted = true

/-- What a session relies on: chunked uploads are sequenced, and the raw output file is neither a
segment nor the part file of one. -/
structure Sequenced (c : Config) : Prop where
  valid : c.Valid
  dash : c.dashMode = .sequenced
  raw : ∀ k, c.rawOutputFile ≠ Segment.fileName c.streamName k
  part : ∀ k, c.rawOutputFile ≠ partName (Segment.fileName c.streamName k)

/-- Such a raw output file is in the way of no part file. -/
theorem Sequenced.separate {c : Config} (hc : Sequenced c) : Separate c :=
  separate_of_sequenced hc.dash hc.part

section

variable {tree : Tree} {m m' : Machine} {arrived : List TaskId} {done : List (TaskId × Nat)}

/-- At first nothing is committed and nothing has changed. -/
theorem filled_ofIngest (g : Ingest) : Filled g.tree (ofIngest g) [] where
  committed := by simp
  uncounted := by simp [ofIngest]
  fresh := fun _ _ _ _ => Or.inl rfl

/-- Two segments are never in place and uncounted at the same time: both would hold the sequencer.
-/
theorem Inv.uncounted_unique (hinv : m.Inv) {i j : TaskId} {t u : Task} (hi : m.tasks[i]? = some t)
    (hj : m.tasks[j]? = some u) (ht : t.isUncounted = true) (hu : u.isUncounted = true) : j = i := by
  obtain ⟨hticket, hgoing⟩ := Task.ticket_of_isUncounted ht
  obtain ⟨hticket', hgoing'⟩ := Task.ticket_of_isUncounted hu
  have hheld := hinv.ticketed i t hi hticket hgoing
  rw [hinv.ticketed j u hj hticket' hgoing'] at hheld
  exact Option.some.inj hheld

/-- A move keeps the requests of all tasks, so a segment can be told by its request later. -/
theorem Moved.request_eq {i j : TaskId} {t t' u : Task} (hi : m.tasks[i]? = some t)
    (hmv : m.Moved i t t' m') (hj : m.tasks[j]? = some u) :
    ∃ u', m'.tasks[j]? = some u' ∧ u'.request = u.request := by
  by_cases hij : j = i
  · subst hij
    rw [hi, Option.some.injEq] at hj
    subst hj
    exact ⟨t', hmv.self hi, hmv.move.request_eq⟩
  · exact ⟨u, (hmv.others hij).trans hj, rfl⟩

namespace Filled

section

variable {i : TaskId} {t t' : Task} (h : Filled tree m done) (hinv : m.Inv)
  (hi : m.tasks[i]? = some t) (hmv : m.Moved i t t' m')
include h hinv hi hmv

/-- The move that counts a segment. -/
theorem counted (hu : t.isUncounted = true) (hu' : t'.isUncounted = false)
    (htree : m'.tree = m.tree) (hcounter : m'.counter = m.counter + 1) :
    Filled tree m' (done ++ [(i, m.counter)]) := by
  have hi' : m'.tasks[i]? = some t' := hmv.self hi
  constructor
  · intro j k hjk
    rw [hmv.config, htree]
    rcases List.mem_append.mp hjk with hold | hnew
    · obtain ⟨u, hj, hfills⟩ := h.committed j k hold
      obtain ⟨u', hj', hreq⟩ := Moved.request_eq hi hmv hj
      exact ⟨u', hj', by rw [hreq]; exact hfills⟩
    -- the new one, whose file was in place before
    · simp only [List.mem_singleton, Prod.mk.injEq] at hnew
      obtain ⟨rfl, rfl⟩ := hnew
      exact ⟨t', hi', by rw [hmv.move.request_eq]; exact h.uncounted _ t hi hu⟩
  · intro j u hj hju
    rw [hmv.tasks] at hj
    rcases getElem?_set_cases hj with ⟨rfl, rfl⟩ | ⟨hij, hj⟩
    · rw [hu'] at hju
      cases hju
    · exact absurd (hinv.uncounted_unique hi hj hu hju) hij
  · intro k l hk hl
    rw [hcounter] at hk
    rw [hmv.config, htree] at hl
    rw [htree]
    refine Or.inl ((h.fresh k l (by omega) hl).resolve_right fun hcur => ?_)
    omega

variable (hn : m.Numbered arrived done) (hc : Sequenced m.config)
include hn hc

/-- A move that commits nothing leaves the committed segments alone, and may put the next one in
place. -/
theorem kept (hnone : t.committing? = none) (hcounter : m'.counter = m.counter) :
    Filled tree m' done := by
  have hok := hinv.ok i t hi
  have heffect := hmv.move.effect hc.valid hinv.noLinks hok hinv.locked hi
  have hplaces : SamePlaces m.tree m'.tree m.config.outputDir :=
    heffect.samePlaces hc.valid hinv.noLinks
  have hinv' := hinv.moved hc.valid hc.separate hi hmv
  have hi' : m'.tasks[i]? = some t' := hmv.self hi
  -- the only file of an index that may have changed is that of the counter
  have hsegment : ∀ {k l}, m.tree.place m.config.outputDir
      (Segment.fileName m.config.streamName k) = .ok l →
      m'.tree.get? l = m.tree.get? l ∨ k = m.counter ∧ t'.isUncounted = true :=
    fun hl => heffect.segment hc.valid hc.dash hc.raw hinv.noLinks hl
  constructor
  · intro j k hjk
    obtain ⟨u, hu, hfills⟩ := h.committed j k hjk
    obtain ⟨u', hu', hreq⟩ := Moved.request_eq hi hmv hu
    refine ⟨u', hu', ?_⟩
    have hk : k ∈ List.range m.counter := by
      rw [← hn.indices]
      exact List.mem_map_of_mem (f := Prod.snd) hjk
    rw [hmv.config, hreq]
    refine hfills.frame hplaces fun l hl => (hsegment hl).resolve_right fun hcur => ?_
    rw [List.mem_range, hcur.1] at hk
    exact Nat.lt_irrefl _ hk
  · intro j u hj hu
    rw [hmv.config, hcounter]
    have hcases := hj
    rw [hmv.tasks] at hcases
    rcases getElem?_set_cases hcases with ⟨rfl, rfl⟩ | ⟨hij, hold⟩
    -- it was in place before, or has got there with this move
    · rcases hmv.move.fills hc.valid hc.dash hok hplaces hu with ⟨hbefore, hsame⟩ | hfills
      · have hsame : m'.tree = m.tree := hsame
        rw [hsame, hmv.move.request_eq]
        exact h.uncounted _ t hi hbefore
      · rw [hmv.move.request_eq]
        exact hfills
    · -- nobody else gets a segment in place meanwhile
      refine (h.uncounted j u hold hu).frame hplaces fun l hl => ?_
      refine (hsegment hl).resolve_right fun hcur => ?_
      exact hij (hinv'.uncounted_unique hi' hj hcur.2 hu)
  · intro k l hk hl
    rw [hcounter] at hk ⊢
    rw [hmv.config, hplaces.place_eq] at hl
    rcases hsegment hl with hsame | ⟨hcur, hu⟩
    · rw [hsame]
      rcases h.fresh k l hk hl with hold | ⟨hcur, j, u, hj, hu⟩
      · exact Or.inl hold
      · refine Or.inr ⟨hcur, ?_⟩
        by_cases hij : j = i
        · subst hij
          rw [hi, Option.some.injEq] at hj
          subst hj
          -- the move that is not a commit has not lost the segment either
          rcases hmv.move.uncounted hok hu with hu' | hsome
          · exact ⟨j, t', hi', hu'⟩
          · rw [hnone] at hsome
            cases hsome
        · exact ⟨j, u, (hmv.others hij).trans hj, hu⟩
    · exact Or.inr ⟨hcur, i, t', hi', hu⟩

/-- Every move keeps the segments on disk, whether it commits one or not. -/
theorem moved : Filled tree m' (done ++ m.committing m' (.move i)) := by
  have hcommitting : m.committing m' (.move i) =
      (t.committing?.map fun index => (i, index)).toList := by
    rw [committing, hi]
    rfl
  rcases hmv.move.committed hc.dash (hinv.ok i t hi) with ⟨hnone, -, hcounter⟩ |
    ⟨hsome, -, -, hu, hu', hw⟩
  · rw [hcommitting, hnone]
    simpa using h.kept hinv hi hmv hn hc hnone hcounter
  · rw [hcommitting, hsome]
    exact h.counted hinv hi hmv hu hu' (congrArg Shared.tree hw) (congrArg Shared.counter hw)

end

/-- The segments stay on disk, whatever happens. -/
theorem after {e : Happening} (h : Filled tree m done) (hinv : m.Inv)
    (hn : m.Numbered arrived done) (hc : Sequenced m.config) (ha : m.after e = some m') :
    Filled tree m' (done ++ m.committing m' e) := by
  cases happened ha with
  | arrive request =>
    simp only [committing, List.append_nil]
    constructor
    · intro j k hjk
      obtain ⟨t, ht, hfills⟩ := h.committed j k hjk
      exact ⟨t, found_admitTask request ht, hfills⟩
    · intro j t hj hu
      rcases getElem?_concat_cases hj with hj | rfl
      · exact h.uncounted j t hj hu
      · cases hu
    · intro k l hk hl
      rcases h.fresh k l hk hl with hold | ⟨hcur, j, t, hj, hu⟩
      · exact Or.inl hold
      · exact Or.inr ⟨hcur, j, t, found_admitTask request hj, hu⟩
  | move hi hmv => exact h.moved hinv hi hmv hn hc
  | disconnect hi hg hmv =>
    have hmoved := h.moved hinv hi hmv hn hc
    rw [committing_disconnect hc.dash hinv hi hmv] at hmoved
    exact hmoved
  | pass clock hle =>
    simp only [committing, List.append_nil]
    exact ⟨h.committed, h.uncounted, h.fresh⟩

end Filled

/-- The file of a segment that was committed is left alone. -/
theorem segment_after {e : Happening} {k : Nat} {l : Location} (hc : Sequenced m.config)
    (hinv : m.Inv) (ha : m.after e = some m') (hk : k < m.counter)
    (hl : m.tree.place m.config.outputDir (Segment.fileName m.config.streamName k) = .ok l) :
    m'.tree.get? l = m.tree.get? l ∧ m.counter ≤ m'.counter := by
  have hmoved : ∀ {i t t'}, m.tasks[i]? = some t → m.Moved i t t' m' →
      m'.tree.get? l = m.tree.get? l ∧ m.counter ≤ m'.counter := by
    intro i t t' hi hmv
    have hok := hinv.ok i t hi
    have heffect := hmv.move.effect hc.valid hinv.noLinks hok hinv.locked hi
    constructor
    · refine (heffect.segment hc.valid hc.dash hc.raw hinv.noLinks hl).resolve_right fun hcur => ?_
      have hcur : k = m.counter := hcur.1
      omega
    · rcases hmv.move.committed hc.dash hok with ⟨-, -, hcounter⟩ | ⟨-, -, -, -, -, hw⟩
      · exact Nat.le_of_eq hcounter.symm
      · have hcounter : m'.counter = m.counter + 1 := congrArg Shared.counter hw
        omega
  cases happened ha with
  | arrive request => exact ⟨rfl, Nat.le_refl _⟩
  | move hi hmv => exact hmoved hi hmv
  | disconnect hi hg hmv => exact hmoved hi hmv
  | pass clock hle => exact ⟨rfl, Nat.le_refl _⟩

/-- The file of a segment that was committed is left alone for ever. -/
theorem segment_afterAll {hs : List Happening} {k : Nat} {l : Location} (hc : Sequenced m.config)
    (hinv : m.Inv) (ha : m.afterAll hs = some m') (hk : k < m.counter)
    (hl : m.tree.place m.config.outputDir (Segment.fileName m.config.streamName k) = .ok l) :
    m'.tree.get? l = m.tree.get? l := by
  refine (afterAll_keeps (P := fun m' => m'.Inv ∧ m'.config = m.config ∧ k < m'.counter ∧
    SamePlaces m.tree m'.tree m.config.outputDir ∧ m'.tree.get? l = m.tree.get? l) ?_ hs
    ⟨hinv, rfl, hk, SamePlaces.refl _ _, rfl⟩ ha).2.2.2.2
  rintro m₁ m₂ e ⟨hinv₁, hconfig, hk₁, hplaces, hsame⟩ ha₁
  have hc₁ : Sequenced m₁.config := hconfig ▸ hc
  have hl₁ : m₁.tree.place m₁.config.outputDir (Segment.fileName m₁.config.streamName k) = .ok l := by
    rw [hconfig, hplaces.place_eq]
    exact hl
  obtain ⟨hsame₁, hle⟩ := segment_after hc₁ hinv₁ ha₁ hk₁ hl₁
  have hstep := SamePlaces.of_touches (hinv₁.touches hc₁.valid ha₁) fun _ hd => hd
  rw [hconfig] at hstep
  exact ⟨hinv₁.after hc₁.valid hc₁.separate ha₁, (happened ha₁).config_eq.trans hconfig,
    Nat.lt_of_lt_of_le hk₁ hle, hplaces.trans hstep, hsame₁.trans hsame⟩

end

end Machine

/-- Segments are stored in the order of their arrival, in an output directory without links.  In
every reachable state of a session the counter is the number of segments that were committed; these
are the uploads in line for the sequencer that were not rejected, did not fail and were not
cancelled, in the order in which they got in line; the file of each index below the counter holds
the body of its upload and never changes again; and no other index has been touched, except that the
file of the next one may be in place already, while its upload holds the sequencer and is about to
count it. -/
theorem segments_stored_in_order {c : Config} {tree : Tree} {hs : List Machine.Happening} {m : Machine}
    (hvalid : c.validate = .ok ()) (hdash : c.dashMode = .sequenced)
    (hraw : ∀ k, c.rawOutputFile ≠ Segment.fileName c.streamName k ∧
      c.rawOutputFile ≠ partName (Segment.fileName c.streamName k))
    (hlinks : NoLinks tree c.outputDir)
    (hrun : (Machine.ofIngest (.start c tree)).afterAll hs = some m) :
    let commits := (Machine.ofIngest (.start c tree)).commits hs
    let arrivals := (Machine.ofIngest (.start c tree)).arrivals hs
    m.counter = commits.length ∧
      commits.map Prod.fst = arrivals.filter m.hasCommitted ∧
      (∀ i, m.hasCommitted i = true → i ∈ arrivals) ∧
      (∀ k, k < m.counter → ∃ i t, commits[k]? = some (i, k) ∧ m.tasks[i]? = some t ∧
        Fills c m.tree k t.request) ∧
      (∀ hs' m' k l, m.afterAll hs' = some m' → k < m.counter →
        m.tree.place c.outputDir (Segment.fileName c.streamName k) = .ok l →
        m'.tree.get? l = m.tree.get? l) ∧
      ∀ k l, m.counter ≤ k → m.tree.place c.outputDir (Segment.fileName c.streamName k) = .ok l →
        m.tree.get? l = tree.get? l ∨
          k = m.counter ∧ ∃ i t, m.sequencer.holder = some i ∧ m.tasks[i]? = some t ∧
            t.isUncounted = true ∧ Fills c m.tree k t.request := by
  intro commits arrivals
  have hc : Machine.Sequenced c :=
    ⟨Config.valid_of_validate hvalid, hdash, fun k => (hraw k).1, fun k => (hraw k).2⟩
  obtain ⟨⟨hinv, hconfig⟩, hnumbered, hfilled⟩ :=
    Machine.afterAll_gathers (f := Machine.joining) (g := Machine.committing)
      (P := fun m arrived done => (m.Inv ∧ m.config = c) ∧ m.Numbered arrived done ∧
        Machine.Filled tree m done)
      (fun m₁ m₂ e arrived done h ha => by
        obtain ⟨⟨hinv, hconfig⟩, hnumbered, hfilled⟩ := h
        have hc₁ : Machine.Sequenced m₁.config := hconfig ▸ hc
        exact ⟨⟨hinv.after hc₁.valid hc₁.separate ha,
          (Machine.happened ha).config_eq.trans hconfig⟩, hnumbered.after hc₁.dash hinv ha,
          hfilled.after hinv hnumbered hc₁ ha⟩)
      hs ⟨⟨Machine.inv_ofIngest hlinks, rfl⟩, Machine.Numbered.ofIngest _ rfl,
        Machine.filled_ofIngest (.start c tree)⟩ hrun
  rw [List.nil_append] at hnumbered hfilled
  have hnumbered : m.Numbered arrivals commits := hnumbered
  have hfilled : Machine.Filled tree m commits := hfilled
  subst hconfig
  refine ⟨hnumbered.length_eq, hnumbered.committed_eq, fun i hi => ?_, fun k hk => ?_,
    fun hs' m' k l ha hk hl => Machine.segment_afterAll hc hinv ha hk hl, fun k l hk hl => ?_⟩
  · have hmem := (hnumbered.mem i).mpr hi
    rw [hnumbered.committed_eq] at hmem
    exact (List.mem_filter.mp hmem).1
  · have hlt : k < commits.length := hnumbered.length_eq ▸ hk
    have hindex : commits[k].2 = k := by
      have h := congrArg (·[k]?) hnumbered.indices
      simp only [List.getElem?_map, List.getElem?_eq_getElem hlt, Option.map_some] at h
      rw [List.getElem?_range hk] at h
      exact Option.some.inj h
    have hget : commits[k]? = some (commits[k].1, k) := by
      rw [List.getElem?_eq_getElem hlt]
      exact congrArg some (Prod.ext rfl hindex)
    obtain ⟨t, ht, hfills⟩ := hfilled.committed _ k (List.mem_of_getElem? hget)
    exact ⟨_, t, hget, ht, hfills⟩
  · rcases hfilled.fresh k l hk hl with hsame | ⟨hcur, i, t, hi, hu⟩
    · exact Or.inl hsame
    · obtain ⟨hticket, hgoing⟩ := Task.ticket_of_isUncounted hu
      subst hcur
      exact Or.inr ⟨rfl, i, t, hinv.ticketed i t hi hticket hgoing, hi, hu,
        hfilled.uncounted i t hi hu⟩

/-- Raw uploads are stored under another name than segments and their part files, where the names are
the usual ones: the raw output file ends in a letter that no segment ends in, and not in `.part`. -/
theorem rawOutputFile_apart (k : Nat) :
    ({} : Config).rawOutputFile ≠ Segment.fileName ({} : Config).streamName k ∧
      ({} : Config).rawOutputFile ≠ partName (Segment.fileName ({} : Config).streamName k) := by
  constructor
  · intro he
    have hlast := getLast?_fileName ({} : Config).streamName k
    rw [← he, show ({} : Config).rawOutputFile.toList.getLast? = some 'm' by decide] at hlast
    match k with
    | 0 | 1 | k + 2 => simp at hlast
  · intro he
    have hpart := isPartName_partName (Segment.fileName ({} : Config).streamName k)
    rw [← he] at hpart
    exact absurd hpart (by decide +kernel)

/-- Four segments: the first in line ends early, the third gives up waiting, and the last is labelled
as the header. -/
def session : List Machine.Happening :=
  let segment (length : String) (pieces : List Bytes) : Request :=
    .declaring "/dash" "video/webm" length (pieces.map fun bytes => ⟨0, .data bytes⟩)
  let label : Http.HeaderLine := ⟨"x-content-id", Bytes.ofString "live.hdr"⟩
  let header := segment "1" [[7]]
  [.arrive (segment "3" [[1, 2], [3, 4]]), .arrive (segment "3" [[5]]), .arrive (segment "1" [[6]]),
    .arrive { header with headers := label :: header.headers }] ++
    [1, 0, 2, 3, 1, 1, 1, 1].map .move ++ [.disconnect 2] ++
    (List.replicate 8 1 ++ List.replicate 13 0 ++ List.replicate 12 3).map .move

/-- Of the four in line the first has failed and the third has gone away, so the second and the
fourth are committed, as 0 and 1. -/
theorem segments_stored_in_order_session :
    let c : Config := {}
    let start := Machine.ofIngest (.start c Tree.empty)
    c.validate = .ok () ∧ c.dashMode = .sequenced ∧
      (∀ k, c.rawOutputFile ≠ Segment.fileName c.streamName k ∧
        c.rawOutputFile ≠ partName (Segment.fileName c.streamName k)) ∧
      NoLinks Tree.empty c.outputDir ∧
      start.arrivals session = [1, 0, 2, 3] ∧ start.commits session = [(0, 0), (3, 1)] ∧
      ∃ m, start.afterAll session = some m ∧ m.counter = 2 ∧
        [1, 0, 2, 3].filter m.hasCommitted = [0, 3] ∧
        ∀ k, k < m.counter → ∃ i t, [(0, 0), (3, 1)][k]? = some (i, k) ∧ m.tasks[i]? = some t ∧
          Fills c m.tree k t.request := by
  intro c start
  have hvalid : c.validate = .ok () := by decide +kernel
  have hraw : ∀ k, c.rawOutputFile ≠ Segment.fileName c.streamName k ∧
      c.rawOutputFile ≠ partName (Segment.fileName c.streamName k) := rawOutputFile_apart
  have harrivals : start.arrivals session = [1, 0, 2, 3] := by decide +kernel
  have hcommits : start.commits session = [(0, 0), (3, 1)] := by decide +kernel
  have hruns : (start.afterAll session).isSome = true := by decide +kernel
  obtain ⟨m, hm⟩ := Option.isSome_iff_exists.mp hruns
  have hstored := segments_stored_in_order hvalid rfl hraw cleanOutput_empty.noLinks hm
  simp only [start] at harrivals hcommits
  simp only [harrivals, hcommits] at hstored
  obtain ⟨hcounter, horder, -, hfills, -⟩ := hstored
  exact ⟨hvalid, rfl, hraw, cleanOutput_empty.noLinks, harrivals, hcommits, m, hm, hcounter,
    horder.symm, hfills⟩

/-- One segment of three bytes, so many moves on its way. -/
def loneSegment (moves : Nat) : List Machine.Happening :=
  .arrive (.declaring "/dash" "video/webm" "3" [⟨0, .data [1, 2, 3]⟩]) ::
    (List.replicate moves 0).map .move

/-- An empty disk but for a link: the part file of the first segment is the file of the second. -/
def linkedDisk : Tree :=
  Tree.empty.put (Tree.home ++ [partName (Segment.fileName "webmlive" 0)])
    (.link (Segment.fileName "webmlive" 1))

/-- Why the last part of `segments_stored_in_order` makes an exception, and why links are ruled out:
there are files of indices that the counter has not passed.  After its eighth move the upload has
renamed its part file, so the file of index 0 is new, and the counter is still 0; three moves later
it is 1.  Behind a link the upload of index 0 writes to the file of index 1, which stays when it is
over and the counter is 1. -/
theorem segments_stored_ahead :
    let c : Config := {}
    c.validate = .ok () ∧ c.dashMode = .sequenced ∧
      (∀ k, c.rawOutputFile ≠ Segment.fileName c.streamName k ∧
        c.rawOutputFile ≠ partName (Segment.fileName c.streamName k)) ∧
      (∃ m l, (Machine.ofIngest (.start c Tree.empty)).afterAll (loneSegment 8) = some m ∧
        m.counter = 0 ∧ m.tree.place c.outputDir (Segment.fileName c.streamName 0) = .ok l ∧
        Tree.empty.get? l = none ∧ m.tree.get? l = some (.file [1, 2, 3])) ∧
      ∃ m l, (Machine.ofIngest (.start c linkedDisk)).afterAll (loneSegment 13) = some m ∧
        (∀ t ∈ m.tasks, t.stage.isOver = true) ∧
        m.counter = 1 ∧ m.tree.place c.outputDir (Segment.fileName c.streamName 1) = .ok l ∧
        linkedDisk.get? l = none ∧ m.tree.get? l = some (.file [1, 2, 3]) := by
  intro c
  refine ⟨by decide +kernel, rfl, rawOutputFile_apart, ?_, ?_⟩
  · have hstate : ((Machine.ofIngest (.start c Tree.empty)).afterAll (loneSegment 8)).map
        (fun m => (m.counter, m.tree.place c.outputDir (Segment.fileName c.streamName 0),
          m.tree.get? (Tree.home ++ [Segment.fileName c.streamName 0]))) =
        some (0, .ok (Tree.home ++ [Segment.fileName c.streamName 0]), some (.file [1, 2, 3])) := by
      decide +kernel
    obtain ⟨m, hm, hend⟩ := Option.map_eq_some_iff.mp hstate
    simp only [Prod.mk.injEq] at hend
    obtain ⟨hcounter, hplace, hfile⟩ := hend
    exact ⟨m, _, hm, hcounter, hplace, by decide +kernel, hfile⟩
  · have hstate : ((Machine.ofIngest (.start c linkedDisk)).afterAll (loneSegment 13)).map
        (fun m => (m.tasks.all (·.stage.isOver), m.counter,
          m.tree.place c.outputDir (Segment.fileName c.streamName 1),
          m.tree.get? (Tree.home ++ [Segment.fileName c.streamName 1]))) =
        some (true, 1, .ok (Tree.home ++ [Segment.fileName c.streamName 1]),
          some (.file [1, 2, 3])) := by
      decide +kernel
    obtain ⟨m, hm, hend⟩ := Option.map_eq_some_iff.mp hstate
    simp only [Prod.mk.injEq] at hend
    obtain ⟨hover, hcounter, hplace, hfile⟩ := hend
    exact ⟨m, _, hm, List.all_eq_true.mp hover, hcounter, hplace, by decide +kernel, hfile⟩

end LiveIngest.Traffic
