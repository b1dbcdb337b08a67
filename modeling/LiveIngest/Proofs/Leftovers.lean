import LiveIngest.Proofs.Invariant

/-!
# What is left in the output directory

Names that are reserved for files in flight are used for nothing else.  In every reachable state
such a name is free, or its file belongs to an upload that is still in flight (`Machine.Tidy`); so
when all uploads are over no file is left under a reserved name (`Machine.Tidy.none_of_over`).

The invariant goes through `Effect.left`: what a move leaves at a reserved location was there before
and belongs to somebody else, or is the part file of the task that moved.  Nothing else can put a
file there, because a destination is never a reserved name, and neither is the raw output file
(`isPartName c.rawOutputFile = false`).
-/

namespace LiveIngest.Traffic

open LiveIngest.Storage
open LiveIngest.Storage.Path
open LiveIngest.Upload

/-- A file under a reserved name belongs to a task in flight.  What is there is also no directory
and no link, so that its owner can remove it. -/
def Machine.Tidy (m : Machine) : Prop :=
  ∀ k, Reserved m.tree m.config.outputDir k → Tree.Ordinary (m.tree.get? k) ∧
    (m.tree.get? k ≠ none →
      ∃ (i : TaskId) (t : Task), m.tasks[i]? = some t ∧ t.InFlight m.config m.tree m.counter k)

section

variable {c : Config} {clock : Nat} {i : TaskId} {w w' : Shared} {t t' : Task}

/-- What a move leaves at a reserved location: what was there, or its own part file.  The first case
also says that the file was not the one of the task that moves, so its owner is still to be found
among the others. -/
theorem Effect.left (h : Effect c clock i w t w' t') (hc : c.Valid)
    (hraw : isPartName c.rawOutputFile = false) (hlinks : NoLinks w.tree c.outputDir)
    (hok : t.Ok c w.tree w.counter clock) {k : Location} (hk : Reserved w.tree c.outputDir k)
    (hord : Tree.Ordinary (w.tree.get? k)) :
    Tree.Ordinary (w'.tree.get? k) ∧ (w'.tree.get? k ≠ none →
      w.tree.get? k ≠ none ∧ ¬t.InFlight c w.tree w.counter k ∨ t'.InFlight c w'.tree w'.counter k) := by
  have hplaces := h.samePlaces hc hlinks
  -- a task in flight has one part file, the one of its plan
  have hplan : ∀ {plan destination}, t.Aims c w.counter plan destination →
      t.InFlight c w.tree w.counter k →
      partPlace w.tree c.outputDir (plan.mode.target c w.counter) = .ok k := by
    rintro plan destination haims ⟨plan', hflight, hpart⟩
    obtain ⟨destination', l, haims', -, -, -⟩ := hok.flight hflight
    rw [Except.ok.inj (haims.planned.symm.trans haims'.planned)]
    exact hpart
  cases h with
  | still htree hcounter hflight =>
    refine ⟨by rw [htree]; exact hord, fun hne => ?_⟩
    by_cases hin : t.InFlight c w.tree w.counter k
    · obtain ⟨plan, hplan, hpart⟩ := hin
      refine Or.inr ⟨plan, hflight plan hplan, ?_⟩
      rw [htree, hcounter (by rw [hplan]; simp)]
      exact hpart
    · exact Or.inl ⟨by rw [htree] at hne; exact hne, hin⟩
  | part haims hchunked href hheld htouch hleft hcounter =>
    rename_i plan destination l
    by_cases hpart : partPlace w.tree c.outputDir (plan.mode.target c w.counter) = .ok k
    · obtain ⟨hord', hflight⟩ := hleft k hpart hord
      refine ⟨hord', fun hne => Or.inr ⟨plan, hflight hne, ?_⟩⟩
      rw [hcounter, hplaces.partPlace_eq]
      exact hpart
    -- somebody else's reserved name is left alone
    · have hsame : w'.tree.get? k = w.tree.get? k := htouch.same k hpart
      rw [hsame]
      exact ⟨hord, fun hne => Or.inl ⟨hne, fun hin => hpart (hplan haims hin)⟩⟩
  | append hs haims hworks hheld hw ht =>
    rename_i plan destination payload reading l
    have hsame : w'.tree.get? k = w.tree.get? k := by
      subst hw
      rw [haims.tree_appendRead hworks.1]
      exact (appendPayload_touches hc.raw (hlinks.at _) payload).same k fun hplace =>
        not_reserved_place hplace hraw hk
    rw [hsame]
    refine ⟨hord, fun hne => Or.inl ⟨hne, ?_⟩⟩
    rintro ⟨plan', hflight, -⟩
    simp [hs, Stage.flight?] at hflight
  | publish hs haims hchunked hheld hread hpart hget hj hw ht =>
    rename_i plan destination reading l bytes k₀ j
    obtain ⟨-, hgone, hsame⟩ := publish_get? bytes hpart (placement_ok hj).1
    -- renaming takes the part file away and adds a file under a name that is not reserved
    by_cases hk₀ : k = k₀
    · subst hk₀ hw
      exact ⟨Or.inl hgone, fun hne => absurd hgone hne⟩
    · have hkj : k ≠ j := by
        rintro rfl
        exact not_reserved_place (placement_ok hj).1
          (overwrites_target haims.planned hchunked w.counter).isPartName_eq hk
      subst hw
      have hsame' := hsame k hkj hk₀
      show Tree.Ordinary (((w.tree.remove k₀).put j (.file bytes)).get? k) ∧ _
      rw [hsame']
      refine ⟨hord, fun hne => Or.inl ⟨hne, fun hin => ?_⟩⟩
      exact hk₀ (Except.ok.inj ((hplan haims hin).symm.trans hpart))

end

namespace Machine

variable {m m' : Machine}

/-- An endpoint that starts in a clean directory is tidy, since there is nothing under a reserved
name. -/
theorem tidy_ofIngest {g : Ingest} (h : CleanOutput g.tree g.config.outputDir) :
    (ofIngest g).Tidy := fun k hk =>
  ⟨Or.inl (h.noParts k hk), fun hne => absurd (h.noParts k hk) hne⟩

/-- A move keeps the output directory tidy.  The owner of a file that did not move still has the
same part file: either it has no ticket or the counter stands still. -/
theorem Tidy.moved {i : TaskId} {t t' : Task} (htidy : m.Tidy) (hc : m.config.Valid)
    (hraw : isPartName m.config.rawOutputFile = false) (hinv : m.Inv)
    (hi : m.tasks[i]? = some t) (hm : m.Moved i t t' m') : m'.Tidy := by
  have heffect := hm.move.effect hc hinv.noLinks (hinv.ok i t hi) hinv.locked hi
  have hplaces : SamePlaces m.tree m'.tree m.config.outputDir :=
    heffect.samePlaces hc hinv.noLinks
  intro k hk
  rw [hm.config, hplaces.reserved_iff] at hk
  obtain ⟨hord, howner⟩ := htidy k hk
  obtain ⟨hord', hleft⟩ := heffect.left hc hraw hinv.noLinks (hinv.ok i t hi) hk hord
  refine ⟨hord', fun hne => ?_⟩
  rw [hm.config]
  rcases hleft hne with ⟨hbefore, hnot⟩ | hin
  · -- the file belongs to a task that did not move
    obtain ⟨j, u, hj, hin⟩ := howner hbefore
    have hij : j ≠ i := by
      rintro rfl
      rw [hi, Option.some.injEq] at hj
      exact hnot (hj ▸ hin)
    refine ⟨j, u, (hm.others hij).trans hj, ?_⟩
    obtain ⟨plan, hplan, hpart⟩ := hin
    obtain ⟨destination, l, haims, -, -, -⟩ := (hinv.ok j u hj).flight hplan
    have hgoing : u.stage.isOver = false := by
      cases hs : u.stage <;> simp_all [Stage.flight?, Stage.isOver]
    have hcounter : m'.counter = m.counter ∨ u.ticket = none := by
      rcases hinv.counter_eq_or hi hm hj hij with h | h | h
      · exact Or.inl h
      · exact Or.inr h
      · exact absurd (hgoing.symm.trans h) (by simp)
    refine ⟨plan, hplan, ?_⟩
    rw [(haims.frame hcounter).2, hplaces.partPlace_eq]
    exact hpart
  · exact ⟨i, t', hm.self hi, hin⟩

/-- The output directory stays tidy, whatever happens. -/
theorem Tidy.after {h : Happening} (htidy : m.Tidy) (hc : m.config.Valid)
    (hraw : isPartName m.config.rawOutputFile = false) (hinv : m.Inv)
    (ha : m.after h = some m') : m'.Tidy := by
  cases happened ha with
  | arrive request =>
    intro k hk
    obtain ⟨hord, howner⟩ := htidy k hk
    refine ⟨hord, fun hne => ?_⟩
    obtain ⟨j, u, hj, hin⟩ := howner hne
    exact ⟨j, u, found_admitTask request hj, hin⟩
  | move hi hm => exact htidy.moved hc hraw hinv hi hm
  | disconnect hi hg hm => exact htidy.moved hc hraw hinv hi hm
  | pass clock hle => exact htidy

/-- When all uploads are over no file is left under a reserved name: whoever owned it would be in
flight. -/
theorem Tidy.none_of_over (htidy : m.Tidy) (hover : ∀ t ∈ m.tasks, t.stage.isOver = true)
    {k : Location} (hk : Reserved m.tree m.config.outputDir k) : m.tree.get? k = none := by
  refine Classical.byContradiction fun hne => ?_
  obtain ⟨i, t, hi, plan, hplan, -⟩ := (htidy k hk).2 hne
  have hgone := hover t (List.mem_of_getElem? hi)
  cases hs : t.stage <;> simp_all [Stage.flight?, Stage.isOver]

/-! ## Whole runs -/

/-- A run in two halves. -/
theorem afterAll_append (m : Machine) (hs hs' : List Happening) :
    m.afterAll (hs ++ hs') = (m.afterAll hs).bind (·.afterAll hs') := by
  induction hs generalizing m with
  | nil => rfl
  | cons h hs ih =>
    rw [List.cons_append, afterAll, afterAll]
    cases m.after h with
    | none => rfl
    | some m₁ => exact ih m₁

/-- What is known of a configuration and of a machine with it.  Every theorem about whole runs
starts with this, and `Sound.afterAll` gives it for every state of the run. -/
structure Sound (m : Machine) : Prop where
  valid : m.config.Valid
  raw : isPartName m.config.rawOutputFile = false
  inv : m.Inv
  tidy : m.Tidy

/-- A configuration that was validated and a clean output directory are all that is asked for. -/
theorem sound_ofIngest {g : Ingest} (hvalid : g.config.validate = .ok ())
    (hraw : isPartName g.config.rawOutputFile = false)
    (hclean : CleanOutput g.tree g.config.outputDir) : (ofIngest g).Sound :=
  ⟨Config.valid_of_validate hvalid, hraw, inv_ofIngest hclean.noLinks, tidy_ofIngest hclean⟩

/-- What is known stays known, whatever happens: the configuration does not change, and `Inv` and
`Tidy` are invariants. -/
theorem Sound.after {h : Happening} (hm : m.Sound) (ha : m.after h = some m') : m'.Sound := by
  obtain ⟨hvalid, hraw, hinv, htidy⟩ := hm
  have hconfig : m'.config = m.config := (happened ha).config_eq
  exact ⟨hconfig ▸ hvalid, hconfig ▸ hraw, hinv.after hvalid (separate_of_isPartName hraw) ha,
    htidy.after hvalid hraw hinv ha⟩

/-- It is known of every state that a run comes to. -/
theorem Sound.afterAll {hs : List Happening} (hm : m.Sound) (ha : m.afterAll hs = some m') :
    m'.Sound :=
  afterAll_keeps (P := Sound) (fun _ _ _ h ha => h.after ha) hs hm ha

/-- Uploads do not go away, and the clock does not go back.  So a task that was looked up by its
number is found by it later. -/
theorem afterAll_le {hs : List Happening} (ha : m.afterAll hs = some m') :
    m.tasks.length ≤ m'.tasks.length ∧ m.clock ≤ m'.clock := by
  refine afterAll_keeps (P := fun m' => m.tasks.length ≤ m'.tasks.length ∧ m.clock ≤ m'.clock)
    ?_ hs ⟨Nat.le_refl _, Nat.le_refl _⟩ ha
  rintro m₁ m₂ h ⟨hle, hclock⟩ ha₁
  cases happened ha₁ with
  | arrive request =>
    refine ⟨?_, hclock⟩
    show _ ≤ (m₁.tasks ++ [Task.new request]).length
    rw [List.length_append]
    exact Nat.le_add_right_of_le hle
  | move hi hmv => rw [hmv.tasks, List.length_set, hmv.clock]; exact ⟨hle, hclock⟩
  | disconnect hi hg hmv => rw [hmv.tasks, List.length_set, hmv.clock]; exact ⟨hle, hclock⟩
  | pass clock hle' => exact ⟨hle, Nat.le_trans hclock hle'⟩

/-- The part files are apart from the raw output file. -/
theorem Sound.separate (hm : m.Sound) : Separate m.config := separate_of_isPartName hm.raw

end Machine

end LiveIngest.Traffic
