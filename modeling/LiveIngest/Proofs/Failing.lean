import LiveIngest.Proofs.Dispatching
import LiveIngest.Proofs.Leftovers

/-!
# Failed uploads are invisible

An upload that is answered otherwise than 200, or whose client disconnects, leaves everything as it
was.  For an upload that has the endpoint to itself this is `Ingest.dispatch_unchanged`.  Here it is
said of uploads that run at the same time: no move of an upload that fails in the end is seen outside
the names reserved for files in flight (`Machine.failed_hidden`), and of those names none is in use
when all uploads are over.

The other half of the argument is that there is no way back: an upload whose payload is in place will
be answered 200 (`Stage.Stored`, `Move.stored`).  Its client cannot disconnect any more, and the
commit of its index cannot be stale, because nobody else can have moved the counter since.

So a run is judged from its end.  What fails in the end was not stored at any time before, and each
single move of it is one that stores nothing.
-/

namespace LiveIngest.Traffic

open LiveIngest.Body
open LiveIngest.Storage
open LiveIngest.Storage.Path
open LiveIngest.Upload

attribute [local irreducible] dropPart startStreaming Streaming.step publish appendRead partPath

/-! ## No way back -/

/-- The payload of an upload is in place, so that it will be answered 200. -/
def Stage.Stored : Stage → Prop
  | .unlocking _ _ ended _ => ∃ outcome, ended.result = .ok outcome
  | .releasing _ _ ended _ => ∃ outcome, ended.result = .ok outcome
  | .counting _ ended => ∃ outcome, ended.result = .ok outcome
  | .leaving _ ended => ∃ outcome, ended.result = .ok outcome
  | .reporting _ ended => ∃ outcome, ended.result = .ok outcome
  | .finished reply _ _ => reply.status = 200
  | _ => False

/-- An upload that has come to an end without being stored. -/
def Stage.Failed : Stage → Prop
  | .finished reply _ _ => reply.status ≠ 200
  | .cancelled _ => True
  | .broken _ => True
  | _ => False

/-- Whoever has failed does not move any more. -/
theorem Stage.Failed.isOver {s : Stage} (h : s.Failed) : s.isOver = true := by
  cases s <;> simp_all [Failed, Stage.isOver]

/-- The two exclude each other.  An upload that still goes on need not be in either. -/
theorem Stage.Failed.not_stored {s : Stage} (h : s.Failed) : ¬s.Stored := by
  cases s <;> simp_all [Failed, Stored]

section

variable {c : Config} {clock : Nat} {i : TaskId} {w w' : Shared} {t t' : Task} {tasks : List Task}

/-- Whoever is stored stays stored. -/
theorem Move.stored (h : Move c clock i w t w' t') (hok : t.Ok c w.tree w.counter clock)
    (hstored : t.stage.Stored) : t'.stage.Stored := by
  cases h with
  | quiet h =>
    cases h with
    | pass hs hticket => rw [hs] at hstored; exact hstored
    | uncounted hs hticket h =>
      rw [hs] at hstored
      obtain ⟨outcome, hres⟩ := hstored
      exact absurd (h.symm.trans hres) (by simp)
    -- this is the one place where the invariant is needed: the commit is the one expected
    | stale hs hticket h hcommit =>
      rw [(hok.commit_eq hs hticket).2.2] at hcommit
      exact absurd hcommit (by simp)
    | answer hs h =>
      rw [hs] at hstored
      exact (replyTo?_status h).mpr hstored
    | reject hs | skip hs | collect hs | address hs | refuse hs | issue hs | collectOn hs
    | collectFails hs | unfit hs | collected hs => rw [hs] at hstored; exact hstored.elim
  | unlock hs => rw [hs] at hstored; exact hstored
  | release hs => rw [hs] at hstored; exact hstored
  | count hs hticket h hcommit => rw [hs] at hstored; exact hstored
  | leave hs => rw [hs] at hstored; exact hstored
  | enqueue hs | refer hs | ask hs | append hs | create hs | createFails hs | streamOn hs
  | streamed hs | streamFails hs | publish hs | publishFails hs | drop hs =>
    rw [hs] at hstored
    exact hstored.elim
  | vanish h =>
    cases h with
    | unreported hs h =>
      rw [hs] at hstored
      obtain ⟨outcome, hres⟩ := hstored
      rw [hres] at h
      exact absurd h (by simp [replyTo?])
    | queued hs | buffering hs | waiting hs | streaming hs | unstarted hs | uncollected hs
    | uncreated hs | unstreamed hs => rw [hs] at hstored; exact hstored.elim

/-- A task that has an append before it has one that is all or nothing. -/
def Task.AppendsWhole (tree : Tree) (t : Task) : Prop :=
  ∀ plan destination payload reading l,
    t.stage = .waiting plan destination (.append payload reading) l →
      Upload.AppendsWhole tree destination payload

/-- A move that does not store anything is seen nowhere but under reserved names. -/
theorem Move.hidden (h : Move c clock i w t w' t') (heffect : Effect c clock i w t w' t')
    (hwhole : t.AppendsWhole w.tree) (hstored : ¬t'.stage.Stored) :
    (∀ k, ¬Reserved w.tree c.outputDir k → w'.tree.get? k = w.tree.get? k) ∧
      w'.counter = w.counter := by
  refine ⟨fun k hk => ?_, ?_⟩
  · cases heffect with
    | still htree _ _ => rw [htree]
    | part _ _ _ _ htouch _ _ => exact htouch.same k fun hpart => hk (reserved_partPlace hpart)
    | append hs haims hworks hheld hw ht =>
      rename_i plan destination payload reading l
      obtain ⟨hresult, htree, -⟩ := appendRead_result payload destination reading w.tree
      subst hw ht
      show (appendRead payload destination reading w.tree).tree.get? k = _
      rw [htree]
      cases happ : (appendPayload w.tree destination payload).1 with
      | error stop => exact hwhole plan destination payload reading l hs stop happ k
      | ok u => exact absurd ⟨_, by rw [hresult, happ]; rfl⟩ hstored
    -- a rename stores the payload, and so does an append that comes to its end
    | publish hs haims hchunked hheld hread hk hget hj hw ht =>
      rw [ht] at hstored
      exact absurd ⟨_, rfl⟩ hstored
  · cases h with
    | count hs hticket h hcommit => exact absurd ⟨_, h⟩ hstored
    | _ => rfl

end

/-! ## Whole runs -/

namespace Machine

variable {m m' : Machine}

/-- The task that something happens to. -/
def Happening.task? : Happening → Option TaskId
  | .move i => some i
  | .disconnect i => some i
  | _ => none

/-- A task whose payload is in place. -/
def HasStored (m : Machine) (i : TaskId) : Prop :=
  ∃ t, m.tasks[i]? = some t ∧ t.stage.Stored

/-- A task that has failed. -/
def HasFailed (m : Machine) (i : TaskId) : Prop :=
  ∃ t, m.tasks[i]? = some t ∧ t.stage.Failed

/-- All appends that are about to happen are all or nothing. -/
def AppendsWhole (m : Machine) : Prop := ∀ t ∈ m.tasks, t.AppendsWhole m.tree

/-- On a disk that is not short of room all appends are all or nothing. -/
theorem Sound.appendsWhole (hm : m.Sound) (hroom : m.tree.room = none) : m.AppendsWhole := by
  intro t ht plan destination payload reading l hs
  obtain ⟨i, hi⟩ := List.mem_iff_getElem?.mp ht
  have hok := hm.inv.ok i t hi
  unfold Task.Ok at hok
  simp only [hs] at hok
  obtain ⟨haims, hmode, -⟩ := hok
  have hplace := haims.place
  rw [target_of_whole hmode] at hplace
  subst hplace
  have hfits : m.tree.HasRoom payload.length := by
    intro r hr
    rw [hroom] at hr
    cases hr
  exact appendsWhole_of_room hfits hm.valid.raw (hm.inv.noLinks.at _)

/-- A stored upload stays stored, whatever happens. -/
theorem HasStored.after {i : TaskId} {h : Happening} (hm : m.Sound) (hi : m.HasStored i)
    (ha : m.after h = some m') : m'.HasStored i := by
  obtain ⟨t, ht, hstored⟩ := hi
  have hmoved : ∀ {j u u'}, m.tasks[j]? = some u → m.Moved j u u' m' → m'.HasStored i := by
    intro j u u' hj hmv
    by_cases hij : j = i
    · subst hij
      rw [hj, Option.some.injEq] at ht
      subst ht
      exact ⟨u', hmv.self hj, hmv.move.stored (hm.inv.ok j u hj) hstored⟩
    · exact ⟨t, (hmv.others fun he => hij he.symm).trans ht, hstored⟩
  cases happened ha with
  | arrive request => exact ⟨t, found_admitTask request ht, hstored⟩
  | move hj hmv => exact hmoved hj hmv
  | disconnect hj hg hmv => exact hmoved hj hmv
  | pass clock hle => exact ⟨t, ht, hstored⟩

/-- The same of a whole run, by induction along with the soundness that the step needs. -/
theorem HasStored.afterAll {i : TaskId} {hs : List Happening} (hm : m.Sound) (hi : m.HasStored i)
    (ha : m.afterAll hs = some m') : m'.HasStored i := by
  refine (afterAll_keeps (P := fun m => m.Sound ∧ m.HasStored i) ?_ hs ⟨hm, hi⟩ ha).2
  rintro m₁ m₂ h ⟨hm₁, hi₁⟩ ha₁
  exact ⟨hm₁.after ha₁, hi₁.after hm₁ ha₁⟩

/-- A task is found once, so it cannot have failed and be stored. -/
theorem HasFailed.not_stored {i : TaskId} (h : m.HasFailed i) : ¬m.HasStored i := by
  rintro ⟨t, ht, hstored⟩
  obtain ⟨u, hu, hfailed⟩ := h
  rw [ht, Option.some.injEq] at hu
  subst hu
  exact hfailed.not_stored hstored

/-- Two states of a machine that differ at most under reserved names. -/
def LooksLike (m m' : Machine) : Prop :=
  (∀ k, ¬Reserved m.tree m.config.outputDir k → m'.tree.get? k = m.tree.get? k) ∧
    m'.counter = m.counter

/-- What happens to a task that fails in the end is not seen. -/
theorem failed_hidden {last : Machine} {h : Happening} {post : List Happening} (hm : m.Sound)
    (hwhole : m.AppendsWhole) (ha : m.after h = some m') (hpost : m'.afterAll post = some last)
    (hfailed : ∀ i, h.task? = some i → last.HasFailed i) : m.LooksLike m' := by
  have hmoved : ∀ {j u u'}, h.task? = some j → m.tasks[j]? = some u → m.Moved j u u' m' →
      m.LooksLike m' := by
    intro j u u' htask hj hmv
    refine hmv.move.hidden (hmv.move.effect hm.valid hm.inv.noLinks (hm.inv.ok j u hj)
      hm.inv.locked hj) (hwhole u (List.mem_of_getElem? hj)) fun hstored => ?_
    have hj' : m'.HasStored j := ⟨u', hmv.self hj, hstored⟩
    exact (hfailed j htask).not_stored (hj'.afterAll (hm.after ha) hpost)
  cases happened ha with
  | arrive request => exact ⟨fun _ _ => rfl, rfl⟩
  | move hj hmv => exact hmoved rfl hj hmv
  | disconnect hj hg hmv => exact hmoved rfl hj hmv
  | pass clock hle => exact ⟨fun _ _ => rfl, rfl⟩

/-- When every upload has failed, nothing is to be seen of any.  Whatever happens first is not seen,
and what is left over is a run in which all fail, too. -/
theorem looksLike_of_failed {last : Machine} :
    ∀ (hs : List Happening) {m : Machine}, m.Sound →
      (∀ pre m₁, pre <+: hs → m.afterAll pre = some m₁ → m₁.AppendsWhole) →
      m.afterAll hs = some last → (∀ t ∈ last.tasks, t.stage.Failed) → m.LooksLike last
  | [], m, _, _, ha, _ => by
    cases ha
    exact ⟨fun _ _ => rfl, rfl⟩
  | h :: rest, m, hm, hwhole, ha, hfailed => by
    have hlength := (afterAll_le ha).1
    unfold afterAll at ha
    split at ha
    · simp at ha
    · rename_i m₁ h₁
      have htouch := hm.inv.touches hm.valid h₁
      have hplaces := SamePlaces.of_touches htouch fun _ hd => hd
      have hstep : m.LooksLike m₁ := by
        refine failed_hidden hm (hwhole [] m (List.nil_prefix) rfl) h₁ ha fun i hi => ?_
        have hlt : i < m.tasks.length := by
          cases happened h₁ with
          | move hj _ => cases hi; exact (List.getElem?_eq_some_iff.mp hj).1
          | disconnect hj _ _ => cases hi; exact (List.getElem?_eq_some_iff.mp hj).1
          | _ => cases hi
        have hlast : i < last.tasks.length := Nat.lt_of_lt_of_le hlt hlength
        exact ⟨last.tasks[i], List.getElem?_eq_getElem hlast, hfailed _ (List.getElem_mem hlast)⟩
      have hrest : m₁.LooksLike last := by
        refine looksLike_of_failed rest (hm.after h₁) (fun pre m₂ hpre ha₂ => ?_) ha hfailed
        refine hwhole (h :: pre) m₂ (List.cons_prefix_cons.mpr ⟨rfl, hpre⟩) ?_
        rw [afterAll, h₁]
        exact ha₂
      refine ⟨fun k hk => ?_, hrest.2.trans hstep.2⟩
      refine (hrest.1 k fun hk₁ => hk ?_).trans (hstep.1 k hk)
      rw [(happened h₁).config_eq] at hk₁
      exact hplaces.reserved_iff.mp hk₁

end Machine

/-! ## Failed uploads are invisible -/

/-- Failed uploads are invisible, alone and among others.  An upload that is answered otherwise than
200 changes no file and not the counter.  Among others, what happens to an upload that is answered
otherwise than 200 in the end, or whose client disconnects, is not seen; a file in flight is always
one of an upload that still goes on; when all uploads have failed everything is as it was at first;
and the index of a segment that is in place is committed. -/
theorem failed_uploads_invisible {g : Ingest} (hvalid : g.config.validate = .ok ())
    (hraw : isPartName g.config.rawOutputFile = false)
    (hclean : CleanOutput g.tree g.config.outputDir) :
    (∀ request,
      (∀ payload, g.Appends request payload →
        AppendsWhole g.tree g.config.rawOutputPath payload) →
      (∀ reply, (g.dispatch request).reply = some reply → reply.status ≠ 200) →
      (∀ k, (g.dispatch request).ingest.tree.get? k = g.tree.get? k) ∧
        (g.dispatch request).ingest.counter = g.counter) ∧
    ∀ (hs : List Machine.Happening) (m : Machine),
      (Machine.ofIngest g).afterAll hs = some m →
      (∀ pre m₁, pre <+: hs → (Machine.ofIngest g).afterAll pre = some m₁ → m₁.AppendsWhole) →
      (∀ pre h post m₁ m₂, hs = pre ++ h :: post →
        (Machine.ofIngest g).afterAll pre = some m₁ → m₁.after h = some m₂ →
        (∀ i, h.task? = some i → m.HasFailed i) → m₁.LooksLike m₂) ∧
      (∀ k, Reserved g.tree g.config.outputDir k → m.tree.get? k ≠ none →
        ∃ (i : TaskId) (t : Task), m.tasks[i]? = some t ∧ t.InFlight m.config m.tree m.counter k) ∧
      ((∀ t ∈ m.tasks, t.stage.Failed) →
        (∀ k, m.tree.get? k = g.tree.get? k) ∧ m.counter = g.counter) ∧
      ∀ (i : TaskId) (t : Task) (plan : Plan) (ended : Ended) (ticket : Ticket),
        m.tasks[i]? = some t → t.stage = .counting plan ended → t.ticket = some ticket →
        ticket.session.commit ticket.slot.index = .ok ⟨m.counter + 1, some m.counter⟩ := by
  have hsound := Machine.sound_ofIngest hvalid hraw hclean
  refine ⟨fun request hwhole hreply =>
    Ingest.dispatch_unchanged hsound.valid hclean hwhole hreply, fun hs m ha hwhole => ?_⟩
  have hm := hsound.afterAll ha
  have hplaces := (hsound.inv.stays hsound.valid hsound.separate ha).1
  have hconfig := (hsound.inv.afterAll hsound.valid hsound.separate ha).2
  have hreserved : ∀ k, Reserved g.tree g.config.outputDir k →
      Reserved m.tree m.config.outputDir k := fun k hk => by
    rw [hconfig]
    exact hplaces.reserved_iff.mpr hk
  refine ⟨?_, fun k hk hne => (hm.tidy k (hreserved k hk)).2 hne, fun hfailed => ?_, ?_⟩
  · rintro pre h post m₁ m₂ rfl ha₁ ha₂ hfailed
    rw [Machine.afterAll_append, ha₁] at ha
    simp only [Option.bind_some, Machine.afterAll, ha₂] at ha
    exact Machine.failed_hidden (hsound.afterAll ha₁)
      (hwhole pre m₁ (List.prefix_append _ _) ha₁) ha₂ ha hfailed
  · obtain ⟨hsame, hcounter⟩ := Machine.looksLike_of_failed hs hsound hwhole ha hfailed
    refine ⟨fun k => ?_, hcounter⟩
    by_cases hk : Reserved g.tree g.config.outputDir k
    · rw [hclean.noParts k hk]
      exact hm.tidy.none_of_over (fun t ht => (hfailed t ht).isOver) (hreserved k hk)
    · exact hsame k hk
  · intro i t plan ended ticket hi hs hticket
    exact ((hm.inv.ok i t hi).commit_eq hs hticket).2.2

/-- Two segments and a raw upload: one body ends early, one client disconnects in line, one connection
breaks. -/
def cutShort : List Machine.Happening :=
  let segment := Request.declaring "/dash" "video/webm" "3" [⟨0, .data [1, 2]⟩, ⟨0, .finish⟩]
  let raw := Request.declaring "/upload" "video/webm" "3" [⟨0, .data [1, 2]⟩, ⟨0, .fail "reset"⟩]
  [.arrive segment, .arrive segment, .arrive raw] ++ [0, 1, 2, 0, 0, 0, 2, 0, 0].map .move ++
    [.disconnect 1] ++ [2, 2, 0, 0, 0, 0, 0, 0, 0].map .move

/-- All three fail, each in its own way, and the counter and the disk are what they were. -/
theorem failed_uploads_invisible_cutShort :
    let g := Ingest.start {} Tree.empty
    g.config.validate = .ok () ∧ isPartName g.config.rawOutputFile = false ∧
      CleanOutput g.tree g.config.outputDir ∧
      ∃ m, (Machine.ofIngest g).afterAll cutShort = some m ∧ (∀ t ∈ m.tasks, t.stage.Failed) ∧
        (∀ k, m.tree.get? k = g.tree.get? k) ∧ m.counter = g.counter := by
  intro g
  have hvalid : g.config.validate = .ok () := by decide +kernel
  have hraw : isPartName g.config.rawOutputFile = false := by decide +kernel
  have hstages : ((Machine.ofIngest g).afterAll cutShort).map (·.tasks.map (·.stage)) =
      some [.finished ⟨500, "truncated body: received 2 of 3 bytes"⟩ 1 0, .cancelled 0,
        .finished ⟨500, "truncated body: received 2 of 3 bytes (reset)"⟩ 2 0] := by
    decide +kernel
  obtain ⟨m, hm, htasks⟩ := Option.map_eq_some_iff.mp hstages
  have hfailed : ∀ t ∈ m.tasks, t.stage.Failed := by
    intro t ht
    have hmem := List.mem_map_of_mem (f := (·.stage)) ht
    rw [htasks] at hmem
    simp only [List.mem_cons, List.not_mem_nil, or_false] at hmem
    rcases hmem with h | h | h <;> simp [h, Stage.Failed]
  have hsound := Machine.sound_ofIngest hvalid hraw cleanOutput_empty
  have hwhole : ∀ pre m₁, pre <+: cutShort → (Machine.ofIngest g).afterAll pre = some m₁ →
      m₁.AppendsWhole := by
    intro pre m₁ _ ha
    refine (hsound.afterAll ha).appendsWhole ?_
    exact (hsound.inv.stays hsound.valid hsound.separate ha).2.mpr rfl
  obtain ⟨-, hruns⟩ := failed_uploads_invisible hvalid hraw cleanOutput_empty
  obtain ⟨-, -, hsame, -⟩ := hruns cutShort m hm hwhole
  exact ⟨hvalid, hraw, cleanOutput_empty, m, hm, hfailed, hsame hfailed⟩

end LiveIngest.Traffic
