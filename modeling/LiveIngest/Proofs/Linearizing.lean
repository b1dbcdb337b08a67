import LiveIngest.Proofs.Settling
import Mathlib.Data.List.Basic

/-!
# Uploads that run at the same time

Uploads that run at the same time come to what they would come to one at a time.  The order is that
in which they are settled (`Machine.settlings`).  Along a run we keep beside the machine an endpoint
that has dispatched the settled uploads one after the other (`Alongside`): its disk is that of the
machine without the files in flight, its replies are those that the machine has promised, and its
counter is ahead of that of the machine exactly while a segment is in place and not yet counted.

`uploads_linearizable` reads this off at the end of the run, when nothing is in flight any more.  It is
about disks that never fill up.  The room on a disk is shared by all uploads, whatever they lock: where
it is short, an upload can fail because of one that is cancelled later and has no place in the order
(`uploads_crowded_out`).

Each move of a task falls into one of two kinds.  Most go unnoticed (`Alongside.unseen`): they
settle nothing, and what they write is hidden under reserved names.  One move of every upload
settles it, and there the endpoint at the side dispatches it (`Alongside.settles`, by
`Move.settles`).  What makes this possible is that the settling move sees the same destination, the
same counter and the same body as the whole dispatch does.
-/

namespace LiveIngest.Upload.Ingest

/-- Handles uploads one at a time: the replies, and the endpoint afterwards. -/
def dispatchAll (g : Ingest) : List Request → List (Option Reply) × Ingest
  | [] => ([], g)
  | request :: rest =>
    let (replies, last) := (g.dispatch request).ingest.dispatchAll rest
    ((g.dispatch request).reply :: replies, last)

/-- One more upload at the end.  The order of a run grows at its end, while dispatching goes from
the front. -/
theorem dispatchAll_append (g : Ingest) (requests : List Request) (request : Request) :
    g.dispatchAll (requests ++ [request]) =
      ((g.dispatchAll requests).1 ++ [((g.dispatchAll requests).2.dispatch request).reply],
        ((g.dispatchAll requests).2.dispatch request).ingest) := by
  induction requests generalizing g with
  | nil => rfl
  | cons r rest ih =>
    rw [List.cons_append, dispatchAll, ih]
    rfl

end LiveIngest.Upload.Ingest

namespace LiveIngest.Traffic

open LiveIngest.Body
open LiveIngest.Storage
open LiveIngest.Storage.Path
open LiveIngest.Upload

/-- The reply that an upload was given. -/
def Stage.reply? : Stage → Option Reply
  | .finished reply _ _ => some reply
  | _ => none

/-- Whoever is over without having been settled was cancelled or broke down.  And whoever was
settled has got the promised reply. -/
theorem Stage.isSettled_of_over {s : Stage} (h : s.isOver = true) :
    (s.isSettled = true ∧ s.promise? = s.reply? ∧ s.reply?.isSome = true) ∨
      (s.isSettled = false ∧ ∃ time, s = .cancelled time ∨ s = .broken time) := by
  cases s <;> simp_all [isOver, isSettled, ended?, promise?, reply?]

namespace Machine

/-- The request of a task. -/
def request? (m : Machine) (i : TaskId) : Option Request := m.tasks[i]?.map (·.request)

/-- The reply that a task was given or will be given, from the moment when its result is settled. -/
def promise? (m : Machine) (i : TaskId) : Option Reply := m.tasks[i]?.bind (·.stage.promise?)

/-- The reply that a task was given. -/
def reply? (m : Machine) (i : TaskId) : Option Reply := m.tasks[i]?.bind (·.stage.reply?)

/-- Whether the result of a task is settled. -/
def hasSettled (m : Machine) (i : TaskId) : Bool := m.tasks[i]?.any (·.stage.isSettled)

/-- The task that is settled when a happening takes `m` to `m'`, if one is.  Only moves settle: a
disconnection settles nothing. -/
def settling (m m' : Machine) : Happening → List TaskId
  | .move i => if !m.hasSettled i && m'.hasSettled i then [i] else []
  | _ => []

/-- The tasks in the order in which they are settled along a run. -/
def settlings (m : Machine) (hs : List Happening) : List TaskId := m.gather settling hs

/-- What a task is asked about depends on that task only, so a task that did not move has the same
answers. -/
theorem asked_eq {m m' : Machine} {j : TaskId} (h : m'.tasks[j]? = m.tasks[j]?) :
    m'.request? j = m.request? j ∧ m'.promise? j = m.promise? j ∧
      m'.hasSettled j = m.hasSettled j := by
  rw [request?, request?, promise?, promise?, hasSettled, hasSettled, h]
  exact ⟨rfl, rfl, rfl⟩

end Machine

/-! ## No upload breaks down -/

section

variable {c : Config} {clock : Nat} {i : TaskId} {w w' : Shared} {t t' : Task}

/-- A body whose deadlines fit does not break its reader down.  The reading began at some moment up
to now, and at that moment they fitted as well. -/
theorem Task.Reads.ne_overflow {plan : Plan} {reading : Reading}
    (hfit : DeadlinesFit c.readTimeout c.maxUploadBytes clock)
    (hplan : classify c t.request.path t.request.headers = .ok plan)
    (h : t.Reads c clock plan (.error .overflow, reading)) : False := by
  obtain ⟨start, hstart, hread⟩ := h
  have hne := (readBody_timely (hfit.mono (length_le_of_plan hplan) hstart) t.request.body).1
  rw [hread] at hne
  exact hne rfl

/-- Where all deadlines fit, uploads vanish only because their clients disconnect.  The other ways
are a reader that overflows, and a reply that is missing after one has. -/
theorem Gone.cancelled {tree : Tree} {s : Stage} (h : Gone c clock i w t tree s) (hc : c.Valid)
    (hlinks : NoLinks w.tree c.outputDir) (hok : t.Ok c w.tree w.counter clock)
    (hfit : DeadlinesFit c.readTimeout c.maxUploadBytes clock) : s = .cancelled clock := by
  -- with deadlines that fit a reading can be started at any moment
  have hnow : ∀ {plan}, classify c t.request.path t.request.headers = .ok plan →
      startBuffering c.readTimeout plan.length clock t.request.body = _ := fun hplan =>
    (hfit.mono (length_le_of_plan hplan) (Nat.le_refl _)).startBuffering_eq _
  unfold Task.Ok at hok
  cases h with
  | queued | buffering | waiting | streaming => rfl
  | unstarted hs h hmode hstart =>
    rw [hnow h] at hstart
    exact absurd hstart (by simp)
  | uncollected hs h =>
    simp only [hs] at hok
    obtain ⟨hplan, -, -, -, hread⟩ := hok
    rw [Buffering.run_of_done h] at hread
    exact (hread.ne_overflow hfit hplan).elim
  | uncreated hs hheld h =>
    simp only [hs] at hok
    obtain ⟨haims, -, rfl, rfl⟩ := hok
    have hn := isComponent_target hc haims.planned w.counter
    have hplace := haims.place
    subst hplace
    rcases startStreaming_error hn (hlinks.part _) h with ⟨hne, -⟩ | ⟨-, hstart, -⟩
    · exact absurd rfl hne
    · rw [hnow haims.planned] at hstart
      exact absurd hstart (by simp)
  | unstreamed hs h =>
    simp only [hs] at hok
    obtain ⟨haims, -, b, k, hread, hreading, hk, hcarries⟩ := hok
    obtain ⟨-, -, hwhy⟩ := Streaming.step_error_sim (Tree.place_ne_nil hk) hreading hcarries h
    rcases hwhy with hstep | ⟨hne, -⟩
    · rw [Buffering.run_of_done hstep] at hread
      exact (hread.ne_overflow hfit haims.planned).elim
    · exact absurd rfl hne
  | unreported hs h =>
    simp only [hs] at hok
    exact absurd h (replyTo?_ne_none hok.2)

/-- A task that has broken down. -/
def Stage.isBroken : Stage → Bool
  | .broken _ => true
  | _ => false

/-- No task breaks down. -/
theorem Move.unbroken (h : Move c clock i w t w' t') (hc : c.Valid)
    (hlinks : NoLinks w.tree c.outputDir) (hok : t.Ok c w.tree w.counter clock)
    (hfit : DeadlinesFit c.readTimeout c.maxUploadBytes clock) : t'.stage.isBroken = false := by
  cases h with
  | vanish h =>
    rw [Task.stage_at, h.cancelled hc hlinks hok hfit]
    rfl
  | quiet h => cases h <;> rfl
  | _ => rfl

end

/-! ## The endpoint that handles one upload at a time -/

namespace Machine

/-- `a` is what is left of `g` when the uploads of `order` were dispatched one after the other, and
nobody could tell it from the machine.  `counter` says how far the two may differ, and `clock`
bounds the time that the uploads take when none waits while another reads. -/
structure Alongside (g : Ingest) (m : Machine) (order : List TaskId) (a : Ingest) : Prop where
  config : a.config = m.config
  dispatched : g.dispatchAll (order.filterMap m.request?) = (order.map m.promise?, a)
  mirrors : Mirrors m.tree a.tree m.config.outputDir
  counter : a.counter = m.counter + m.tasks.countP Task.isUncounted
  /-- No upload takes longer than the endpoint is patient. -/
  clock : a.clock ≤ m.clock + m.tasks.countP (·.stage.isSettled) * m.config.patience
  nodup : order.Nodup
  mem : ∀ i, i ∈ order ↔ m.hasSettled i = true
  unbroken : ∀ t ∈ m.tasks, t.stage.isBroken = false

namespace Alongside

variable {g a : Ingest} {m m' : Machine} {order : List TaskId}

/-- At the start the two endpoints are the same one, and nothing was dispatched. -/
theorem ofIngest (hclean : CleanOutput g.tree g.config.outputDir) (hroom : g.tree.room = none) :
    Alongside g (Machine.ofIngest g) [] g where
  config := rfl
  dispatched := rfl
  mirrors := ⟨fun _ _ => rfl, hclean.noParts, fun k hk => Or.inl (hclean.noParts k hk), hroom, hroom⟩
  counter := rfl
  clock := by simp [Machine.ofIngest]
  nodup := List.nodup_nil
  mem := by simp [hasSettled, Machine.ofIngest]
  unbroken := by simp [Machine.ofIngest]

/-- As long as the settled tasks keep their requests and promises, the same was dispatched. -/
theorem dispatched_congr (ha : Alongside g m order a)
    (hsame : ∀ i ∈ order, m'.request? i = m.request? i ∧ m'.promise? i = m.promise? i) :
    g.dispatchAll (order.filterMap m'.request?) = (order.map m'.promise?, a) := by
  rw [List.filterMap_congr fun i hi => (hsame i hi).1, List.map_congr_left fun i hi => (hsame i hi).2]
  exact ha.dispatched

/-- A new upload is not settled, so it is not dispatched either. -/
theorem admitTask (ha : Alongside g m order a) (request : Request) :
    Alongside g (m.admitTask request) order a := by
  have hnew : (m.admitTask request).hasSettled m.tasks.length = false := by
    rw [hasSettled, m.getElem?_admitTask_length request]
    rfl
  have hnone : m.hasSettled m.tasks.length = false := by
    rw [hasSettled, List.getElem?_eq_none (Nat.le_refl _)]
    rfl
  refine { ha with dispatched := ha.dispatched_congr fun i hi => ?_, counter := ?_, clock := ?_, mem := fun i => ?_, unbroken := fun t ht => ?_ }
  · have hne : i ≠ m.tasks.length := by
      rintro rfl
      rw [ha.mem, hnone] at hi
      exact absurd hi (by simp)
    obtain ⟨hreq, hpromise, -⟩ := asked_eq (m.getElem?_admitTask request hne)
    exact ⟨hreq, hpromise⟩
  -- whoever has just come is neither counted nor settled
  · show _ = m.counter + (m.tasks ++ [Task.new request]).countP _
    rw [List.countP_append, ha.counter]
    rfl
  · show _ ≤ m.clock + (m.tasks ++ [Task.new request]).countP _ * _
    rw [List.countP_append]
    exact ha.clock
  · rw [ha.mem]
    by_cases hne : i = m.tasks.length
    · rw [hne, hnew, hnone]
    · rw [(asked_eq (m.getElem?_admitTask request hne)).2.2]
  · rcases List.mem_append.mp ht with ht | ht
    · exact ha.unbroken t ht
    · rw [List.mem_singleton.mp ht]
      rfl

/-- Time passes at the machine only. -/
theorem pass (ha : Alongside g m order a) {clock : Nat} (hle : m.clock ≤ clock) :
    Alongside g { m with clock := clock } order a :=
  { ha with clock := Nat.le_trans ha.clock (Nat.add_le_add_right hle _) }

section

variable {i : TaskId} {t t' : Task}

/-- When one task moves, the others are asked in vain for news. -/
theorem asked_moved (hi : m.tasks[i]? = some t) (hmv : m.Moved i t t' m') :
    (∀ j, j ≠ i → m'.request? j = m.request? j ∧ m'.promise? j = m.promise? j ∧
      m'.hasSettled j = m.hasSettled j) ∧
    m.request? i = some t.request ∧ m'.request? i = some t.request ∧
    m.promise? i = t.stage.promise? ∧ m'.promise? i = t'.stage.promise? ∧
    m.hasSettled i = t.stage.isSettled ∧ m'.hasSettled i = t'.stage.isSettled := by
  have hi' : m'.tasks[i]? = some t' := hmv.self hi
  refine ⟨fun j hj => asked_eq (hmv.others hj), ?_⟩
  simp [request?, promise?, hasSettled, hi, hi', hmv.move.request_eq]

/-- Only a segment that is in place makes the counters differ, so they agree for whoever holds the
sequencer and is not settled.  This is why a segment gets the same index in both. -/
theorem counter_eq_of_holder (hm : m.Sound) (ha : Alongside g m order a)
    (hi : m.tasks[i]? = some t) (hsettled : t.stage.isSettled = false)
    (hheld : m.sequencer.holder = some i) : a.counter = m.counter := by
  have hzero : m.tasks.countP Task.isUncounted = 0 := by
    rw [List.countP_eq_zero]
    intro u hu hcounted
    obtain ⟨j, hj⟩ := List.mem_iff_getElem?.mp hu
    obtain ⟨hticket, hover⟩ := Task.ticket_of_isUncounted hcounted
    have hholder := hm.inv.ticketed j u hj hticket hover
    rw [hheld, Option.some.injEq] at hholder
    subst hholder
    rw [hi, Option.some.injEq] at hj
    subst hj
    rw [Task.isUncounted_of_unsettled hsettled] at hcounted
    exact absurd hcounted (by simp)
  rw [ha.counter, hzero, Nat.add_zero]

/-- A move that settles nothing goes unnoticed.  What it may have written is a part file, which
`Mirrors` does not look at, and the counter moves only together with the number of uncounted
segments. -/
theorem unseen (hm : m.Sound) (ha : Alongside g m order a) (hi : m.tasks[i]? = some t)
    (hmv : m.Moved i t t' m') (hunbroken : t'.stage.isBroken = false)
    (hsame : t'.stage.isSettled = t.stage.isSettled)
    (hpromise : t.stage.isSettled = true → t'.stage.promise? = t.stage.promise?)
    (hcounter : m'.counter + (if t'.isUncounted then 1 else 0) =
      m.counter + (if t.isUncounted then 1 else 0)) : Alongside g m' order a := by
  have heffect := hmv.move.effect hm.valid hm.inv.noLinks (hm.inv.ok i t hi) hm.inv.locked hi
  have hplaces : SamePlaces m.tree m'.tree m.config.outputDir :=
    heffect.samePlaces hm.valid hm.inv.noLinks
  obtain ⟨hothers, hreq, hreq', hprom, hprom', hset, hset'⟩ := asked_moved hi hmv
  have huncounted := countP_set_add Task.isUncounted t' hi
  have hsettled := countP_set_add (fun t => t.stage.isSettled) t' hi
  rw [← hmv.tasks] at huncounted hsettled
  constructor
  · rw [ha.config, hmv.config]
  · refine ha.dispatched_congr fun j hj => ?_
    by_cases hji : j = i
    · subst hji
      rw [hreq, hreq', hprom, hprom']
      exact ⟨rfl, hpromise (by rw [← hset]; exact (ha.mem _).mp hj)⟩
    · exact ⟨(hothers j hji).1, (hothers j hji).2.1⟩
  · rw [hmv.config]
    refine ha.mirrors.hidden hplaces (fun k hk => ?_)
      (heffect.touches hm.valid hm.inv.noLinks).room fun k hk => heffect.unseen hsame hk
    exact (heffect.left hm.valid hm.raw hm.inv.noLinks (hm.inv.ok i t hi) hk (hm.tidy k hk).1).1
  · rw [ha.counter]
    omega
  · rw [hmv.clock, hmv.config]
    rw [hsame] at hsettled
    have : m'.tasks.countP (fun t => t.stage.isSettled) = m.tasks.countP (fun t => t.stage.isSettled) := by
      omega
    rw [this]
    exact ha.clock
  · exact ha.nodup
  · intro j
    rw [ha.mem]
    by_cases hji : j = i
    · subst hji
      rw [hset, hset', hsame]
    · rw [(hothers j hji).2.2]
  · intro u hu
    rw [hmv.tasks] at hu
    rcases List.mem_or_eq_of_mem_set hu with hu | rfl
    · exact ha.unbroken u hu
    · exact hunbroken

/-- The move that settles an upload is the moment at which it is dispatched alone.  `Move.settles`
says that disk, reply and counter come out right; the rest is that the upload was not in the order
yet and that all others keep their promises. -/
theorem settles (hm : m.Sound) (ha : Alongside g m order a) (hi : m.tasks[i]? = some t)
    (hmv : m.Moved i t t' m') (hunbroken : t'.stage.isBroken = false)
    (hfit : DeadlinesFit m.config.readTimeout m.config.maxUploadBytes (max m.clock a.clock))
    (hbefore : t.stage.isSettled = false) (hafter : t'.stage.isSettled = true) :
    Alongside g m' (order ++ [i]) (a.dispatch t.request).ingest := by
  have hok := hm.inv.ok i t hi
  have heffect := hmv.move.effect hm.valid hm.inv.noLinks hok hm.inv.locked hi
  obtain ⟨hothers, hreq, hreq', hprom, hprom', hset, hset'⟩ := asked_moved hi hmv
  have huncounted := countP_set_add Task.isUncounted t' hi
  have hsettled := countP_set_add (fun t => t.stage.isSettled) t' hi
  rw [← hmv.tasks, Task.isUncounted_of_unsettled hbefore] at huncounted
  rw [← hmv.tasks, hbefore, hafter] at hsettled
  -- an upload is settled once
  have hnot : i ∉ order := fun hmem => by
    rw [ha.mem, hset, hbefore] at hmem
    exact absurd hmem (by simp)
  have hs := hmv.move.settles ha.config hm.valid hm.raw hm.inv.noLinks ha.mirrors hfit heffect
    (fun k hk => (heffect.left hm.valid hm.raw hm.inv.noLinks hok hk (hm.tidy k hk).1).1) hok
    (ha.counter_eq_of_holder hm hi hbefore) (hm.inv.ticketed i t hi) hbefore hafter
  constructor
  · rw [hs.config, ha.config, hmv.config]
  · have hsame : ∀ j ∈ order, m'.request? j = m.request? j ∧ m'.promise? j = m.promise? j := by
      intro j hj
      have hji : j ≠ i := fun he => hnot (he ▸ hj)
      exact ⟨(hothers j hji).1, (hothers j hji).2.1⟩
    have hold := ha.dispatched_congr hsame
    rw [List.filterMap_append, List.map_append]
    -- the order grows by this upload, and its reply is what was promised
    have hone : [i].filterMap m'.request? = [t.request] := by simp [hreq']
    rw [hone, Ingest.dispatchAll_append, hold]
    simp only [hs.reply, List.map_cons, List.map_nil, hprom']
  · rw [hmv.config, ← ha.config]
    exact hs.mirrors
  · have hsame : m'.counter = m.counter := hmv.move.counter_eq_of_unsettled hbefore
    rw [hs.counter, ha.counter, hsame]
    simp only [Bool.false_eq_true, if_false] at huncounted
    omega
  · have hcount : m'.tasks.countP (·.stage.isSettled) = m.tasks.countP (·.stage.isSettled) + 1 := by
      simpa using hsettled
    have hle := hs.clock
    have hle' := ha.clock
    rw [ha.config] at hle
    rw [hmv.clock, hmv.config, hcount, Nat.add_mul, Nat.one_mul]
    omega
  · rw [List.nodup_append]
    refine ⟨ha.nodup, by simp, fun j hj k hk => ?_⟩
    rw [List.mem_singleton.mp hk]
    rintro rfl
    exact hnot hj
  · intro j
    rw [List.mem_append, List.mem_singleton, ha.mem]
    by_cases hji : j = i
    · subst hji
      rw [hset', hafter]
      exact ⟨fun _ => rfl, fun _ => Or.inr rfl⟩
    · rw [(hothers j hji).2.2]
      exact ⟨fun h => h.resolve_right hji, Or.inl⟩
  · intro u hu
    rw [hmv.tasks] at hu
    rcases List.mem_or_eq_of_mem_set hu with hu | rfl
    · exact ha.unbroken u hu
    · exact hunbroken

/-- Every move of a task is either unnoticed or the moment of its dispatch.  After it is settled its
moves only deliver what was promised. -/
theorem moved (hm : m.Sound) (ha : Alongside g m order a) (hi : m.tasks[i]? = some t)
    (hmv : m.Moved i t t' m')
    (hfit : DeadlinesFit m.config.readTimeout m.config.maxUploadBytes (max m.clock a.clock)) :
    ∃ a', Alongside g m' (order ++ if !m.hasSettled i && m'.hasSettled i then [i] else []) a' := by
  have hok := hm.inv.ok i t hi
  have hunbroken : t'.stage.isBroken = false :=
    hmv.move.unbroken hm.valid hm.inv.noLinks hok (hfit.mono (Nat.le_refl _) (Nat.le_max_left ..))
  obtain ⟨-, -, -, -, -, hset, hset'⟩ := asked_moved hi hmv
  rw [hset, hset']
  cases hbefore : t.stage.isSettled with
  | true =>
    obtain ⟨hafter, hpromise, hcounter⟩ := hmv.move.settled hok hbefore
    refine ⟨a, ?_⟩
    rw [if_neg (by simp), List.append_nil]
    exact ha.unseen hm hi hmv hunbroken (hafter.trans hbefore.symm) (fun _ => hpromise) hcounter
  | false =>
    cases hafter : t'.stage.isSettled with
    | true =>
      refine ⟨(a.dispatch t.request).ingest, ?_⟩
      rw [if_pos (by simp)]
      exact ha.settles hm hi hmv hunbroken hfit hbefore hafter
    | false =>
      refine ⟨a, ?_⟩
      rw [if_neg (by simp), List.append_nil]
      refine ha.unseen hm hi hmv hunbroken (hafter.trans hbefore.symm)
        (fun h => absurd (hbefore.symm.trans h) (by simp)) ?_
      have hsame : m'.counter = m.counter := hmv.move.counter_eq_of_unsettled hbefore
      rw [hsame, Task.isUncounted_of_unsettled hbefore, Task.isUncounted_of_unsettled hafter]

end

/-- Beside every run goes an endpoint that dispatches one upload at a time.  That the deadlines fit
at the end is handed back to each step: the clock and the number of the settled uploads only grow.
-/
theorem afterAll {last : Machine} :
    ∀ (hs : List Happening) {m : Machine} {order : List TaskId} {a : Ingest}, m.Sound →
      Alongside g m order a → m.afterAll hs = some last →
      DeadlinesFit m.config.readTimeout m.config.maxUploadBytes
        (last.clock + last.tasks.length * m.config.patience) →
      ∃ a', Alongside g last (order ++ m.settlings hs) a'
  | [], m, order, a, _, ha, hrun, _ => by
    cases hrun
    exact ⟨a, by rw [settlings, gather, List.append_nil]; exact ha⟩
  | h :: rest, m, order, a, hm, ha, hrun, hfit => by
    obtain ⟨htasks, hclock⟩ := afterAll_le hrun
    -- the time at the side is bounded by what the run comes to in the end
    have hnow : DeadlinesFit m.config.readTimeout m.config.maxUploadBytes
        (max m.clock a.clock) := by
      refine hfit.mono (Nat.le_refl _) ?_
      have hcount : m.tasks.countP (·.stage.isSettled) ≤ last.tasks.length :=
        Nat.le_trans List.countP_le_length htasks
      have := Nat.mul_le_mul_right m.config.patience hcount
      have := ha.clock
      omega
    unfold Machine.afterAll at hrun
    split at hrun
    · simp at hrun
    · rename_i m₁ h₁
      -- one happening, with the order grown by whom it settles
      have hstep : ∃ a', Alongside g m₁ (order ++ m.settling m₁ h) a' := by
        cases happened h₁ with
        | arrive request => exact ⟨a, by simpa [settling] using ha.admitTask request⟩
        | move hi hmv => exact ha.moved hm hi hmv hnow
        | disconnect hi hg hmv =>
          -- whoever can disconnect is not settled, and is not settled by that
          obtain ⟨a', ha'⟩ := ha.moved hm hi hmv hnow
          obtain ⟨-, -, -, -, -, -, hset'⟩ := asked_moved hi hmv
          have hnot : m₁.hasSettled _ = false := hset'
          rw [hnot, Bool.and_false, if_neg (by simp)] at ha'
          exact ⟨a', ha'⟩
        | pass clock hle => exact ⟨a, by simpa [settling] using ha.pass hle⟩
      obtain ⟨a₁, ha₁⟩ := hstep
      have hconfig := (happened h₁).config_eq
      rw [settlings, gather_cons h₁, ← List.append_assoc]
      exact afterAll rest (hm.after h₁) ha₁ hrun (by rw [hconfig]; exact hfit)

end Alongside

end Machine

/-- Uploads are linearizable on a disk that never fills up (`hroom`).  Whatever the order of their steps,
and whoever disconnects on the way: the uploads that are not cancelled are answered, the files are left
and the counter ends up as if these uploads had been dispatched one at a time, in the order in which
they were settled.  The output directory holds no links and no part files at first, and no deadline is
beyond what the clock can represent, also when the uploads have to wait for each other. -/
theorem uploads_linearizable {g : Ingest} {hs : List Machine.Happening} {m : Machine}
    (hvalid : g.config.validate = .ok ()) (hraw : isPartName g.config.rawOutputFile = false)
    (hclean : CleanOutput g.tree g.config.outputDir) (hroom : g.tree.room = none)
    (hrun : (Machine.ofIngest g).afterAll hs = some m)
    (hover : ∀ t ∈ m.tasks, t.stage.isOver = true)
    (hfit : DeadlinesFit g.config.readTimeout g.config.maxUploadBytes
      (m.clock + m.tasks.length * g.config.patience)) :
    let order := (Machine.ofIngest g).settlings hs
    let alone := g.dispatchAll (order.filterMap m.request?)
    order.Nodup ∧
      (∀ i, i ∈ order ↔ ∃ t, m.tasks[i]? = some t ∧ ∀ time, t.stage ≠ .cancelled time) ∧
      (∀ i ∈ order, (m.reply? i).isSome) ∧ alone.1 = order.map m.reply? ∧
      (∀ k, alone.2.tree.get? k = m.tree.get? k) ∧ alone.2.counter = m.counter := by
  intro order alone
  have hsound := Machine.sound_ofIngest hvalid hraw hclean
  obtain ⟨a, ha⟩ := Machine.Alongside.afterAll hs hsound
    (Machine.Alongside.ofIngest hclean hroom) hrun hfit
  rw [List.nil_append] at ha
  have hm := hsound.afterAll hrun
  have halone : alone = (order.map m.promise?, a) := ha.dispatched
  have hcases : ∀ i t, m.tasks[i]? = some t → (m.hasSettled i = true ∧ m.promise? i = m.reply? i ∧
      (m.reply? i).isSome = true ∧ ∀ time, t.stage ≠ .cancelled time) ∨
      (m.hasSettled i = false ∧ ∃ time, t.stage = .cancelled time) := by
    intro i t hi
    have hmem := List.mem_of_getElem? hi
    simp only [Machine.hasSettled, Machine.promise?, Machine.reply?, hi, Option.any_some,
      Option.bind_some]
    rcases Stage.isSettled_of_over (hover t hmem) with ⟨h, hsame, hsome⟩ | ⟨h, time, hs | hs⟩
    · refine Or.inl ⟨h, hsame, hsome, fun time he => ?_⟩
      rw [he] at h
      exact absurd h (by simp [Stage.isSettled, Stage.ended?])
    · exact Or.inr ⟨h, time, hs⟩
    · have := ha.unbroken t hmem
      rw [hs] at this
      exact absurd this (by simp [Stage.isBroken])
  have hsettled : ∀ i ∈ order, m.promise? i = m.reply? i ∧ (m.reply? i).isSome = true := by
    intro i hmem
    have hi := (ha.mem i).mp hmem
    cases ht : m.tasks[i]? with
    | none => rw [Machine.hasSettled, ht] at hi; exact absurd hi (by simp)
    | some t =>
      rcases hcases i t ht with ⟨-, hsame, hsome, -⟩ | ⟨hno, -⟩
      · exact ⟨hsame, hsome⟩
      · exact absurd (hi.symm.trans hno) (by simp)
  refine ⟨ha.nodup, fun i => ?_, fun i hi => (hsettled i hi).2, ?_, fun k => ?_, ?_⟩
  · rw [ha.mem]
    constructor
    · intro hi
      cases ht : m.tasks[i]? with
      | none => rw [Machine.hasSettled, ht] at hi; exact absurd hi (by simp)
      | some t =>
        rcases hcases i t ht with ⟨-, -, -, hnot⟩ | ⟨hno, -⟩
        · exact ⟨t, rfl, hnot⟩
        · exact absurd (hi.symm.trans hno) (by simp)
    · rintro ⟨t, ht, hnot⟩
      rcases hcases i t ht with ⟨hi, -⟩ | ⟨-, time, hs⟩
      · exact hi
      · exact absurd hs (hnot time)
  · rw [halone]
    exact List.map_congr_left fun i hi => (hsettled i hi).1
  · rw [halone]
    by_cases hk : Reserved m.tree m.config.outputDir k
    · rw [hm.tidy.none_of_over hover hk]
      exact ha.mirrors.free k hk
    · exact ha.mirrors.same k hk
  · rw [halone]
    have hzero : m.tasks.countP Task.isUncounted = 0 := by
      rw [List.countP_eq_zero]
      intro u hu hcounted
      have := (Task.ticket_of_isUncounted hcounted).2
      rw [hover u hu] at this
      exact absurd this (by simp)
    have hcounter := ha.counter
    rw [hzero] at hcounter
    exact hcounter

/-- Two segments and a raw upload: the second segment leaves the line, the raw upload overtakes the
first. -/
def overtaken : List Machine.Happening :=
  let segment := Request.declaring "/dash" "video/webm" "2" [⟨0, .data [1]⟩, ⟨3, .data [2, 9]⟩]
  let raw := Request.declaring "/upload" "video/webm" "1" [⟨0, .data [5]⟩]
  [.arrive segment, .arrive segment, .arrive raw] ++
    [0, 1, 2, 0, 2, 0, 0, 2, 2, 2, 2, 0].map .move ++ [.disconnect 1, .pass 3] ++
    [2, 0, 0, 0, 2, 2, 0, 0, 0, 0, 0, 0, 2].map .move

/-- Two of the three are settled, the raw upload first, and dispatching these two alone comes to the
same. -/
theorem uploads_linearizable_overtaken :
    let g := Ingest.start {} Tree.empty
    g.config.validate = .ok () ∧ isPartName g.config.rawOutputFile = false ∧
      CleanOutput g.tree g.config.outputDir ∧ g.tree.room = none ∧
      (Machine.ofIngest g).settlings overtaken = [2, 0] ∧
      ∃ m, (Machine.ofIngest g).afterAll overtaken = some m ∧
        (∀ t ∈ m.tasks, t.stage.isOver = true) ∧
        DeadlinesFit g.config.readTimeout g.config.maxUploadBytes
          (m.clock + m.tasks.length * g.config.patience) ∧
        (g.dispatchAll ([2, 0].filterMap m.request?)).1 = [2, 0].map m.reply? ∧
        (∀ k, (g.dispatchAll ([2, 0].filterMap m.request?)).2.tree.get? k = m.tree.get? k) ∧
        (g.dispatchAll ([2, 0].filterMap m.request?)).2.counter = m.counter := by
  intro g
  have hvalid : g.config.validate = .ok () := by decide +kernel
  have hraw : isPartName g.config.rawOutputFile = false := by decide +kernel
  have horder : (Machine.ofIngest g).settlings overtaken = [2, 0] := by decide +kernel
  have hends : ((Machine.ofIngest g).afterAll overtaken).map
      (fun m => (m.tasks.all (·.stage.isOver), m.clock, m.tasks.length)) = some (true, 3, 3) := by
    decide +kernel
  obtain ⟨m, hm, hend⟩ := Option.map_eq_some_iff.mp hends
  obtain ⟨hall, hclock, hlength⟩ : m.tasks.all (·.stage.isOver) = true ∧ m.clock = 3 ∧
      m.tasks.length = 3 := by simpa using hend
  have hover : ∀ t ∈ m.tasks, t.stage.isOver = true := List.all_eq_true.mp hall
  have hfit : DeadlinesFit g.config.readTimeout g.config.maxUploadBytes
      (m.clock + m.tasks.length * g.config.patience) := by
    rw [hclock, hlength]
    exact .of_last (by decide +kernel)
  have halone := uploads_linearizable hvalid hraw cleanOutput_empty rfl hm hover hfit
  simp only [horder] at halone
  obtain ⟨-, -, -, hreplies, htree, hcounter⟩ := halone
  exact ⟨hvalid, hraw, cleanOutput_empty, rfl, horder, m, hm, hover, hfit, hreplies, htree, hcounter⟩

/-- A labelled upload streams three bytes into its part file, then a raw upload of three bytes comes and
goes, then the client of the first disconnects. -/
def crowded : List Machine.Happening :=
  let labelled := Request.declaring "/dash" "video/webm" "4" [⟨0, .data [1, 2, 3]⟩, ⟨1, .data [4]⟩]
  let label : Http.HeaderLine := ⟨"x-content-id", Bytes.ofString "a"⟩
  let raw := Request.declaring "/upload" "video/webm" "3" [⟨0, .data [5, 6, 7]⟩]
  [.arrive { labelled with headers := label :: labelled.headers }, .arrive raw] ++
    (List.replicate 5 0 ++ List.replicate 10 1).map .move ++ [.disconnect 0]

/-- Why `uploads_linearizable` needs a disk that never fills up: with room for four bytes, the part file
of an upload that is cancelled in the end takes the room of a raw upload, which is refused; alone it
finds room for its three bytes. -/
theorem uploads_crowded_out :
    let g := Ingest.start { dashMode := .contentId } { Tree.empty with room := some 4 }
    g.config.validate = .ok () ∧ isPartName g.config.rawOutputFile = false ∧
      CleanOutput g.tree g.config.outputDir ∧ (Machine.ofIngest g).settlings crowded = [1] ∧
      ∃ m, (Machine.ofIngest g).afterAll crowded = some m ∧
        (∀ t ∈ m.tasks, t.stage.isOver = true) ∧
        DeadlinesFit g.config.readTimeout g.config.maxUploadBytes
          (m.clock + m.tasks.length * g.config.patience) ∧
        (m.reply? 1).map (·.status) = some 500 ∧
        (g.dispatchAll ([1].filterMap m.request?)).1.map (Option.map (·.status)) = [some 200] ∧
        (g.dispatchAll ([1].filterMap m.request?)).1 ≠ [1].map m.reply? := by
  intro g
  have horder : (Machine.ofIngest g).settlings crowded = [1] := by decide +kernel
  have hends : ((Machine.ofIngest g).afterAll crowded).map
      (fun m => (m.tasks.all (·.stage.isOver), m.clock, m.tasks.length, (m.reply? 1).map (·.status),
        (g.dispatchAll ([1].filterMap m.request?)).1.map (Option.map (·.status)))) =
      some (true, 0, 2, some 500, [some 200]) := by decide +kernel
  obtain ⟨m, hm, hend⟩ := Option.map_eq_some_iff.mp hends
  simp only [Prod.mk.injEq] at hend
  obtain ⟨hall, hclock, hlength, htogether, halone⟩ := hend
  refine ⟨by decide +kernel, by decide +kernel, cleanOutput_empty.of_get? fun _ => rfl, horder, m, hm,
    List.all_eq_true.mp hall, ?_, htogether, halone, fun he => ?_⟩
  · rw [hclock, hlength]
    exact .of_last (by decide +kernel)
  · rw [he, List.map_singleton, List.map_singleton, htogether] at halone
    simp at halone

end LiveIngest.Traffic
