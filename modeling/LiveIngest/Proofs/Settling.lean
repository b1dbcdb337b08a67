import LiveIngest.Proofs.Committing
import LiveIngest.Proofs.Leftovers
import LiveIngest.Proofs.Mirroring

/-!
# The moment at which an upload takes effect

At one of its moves the result of an upload is settled: it is rejected or refused, its body fails, it
is appended or renamed into place, or a file operation fails (`Stage.isSettled`).  From then on its
reply is known, and that is what the endpoint would have answered had it dispatched the upload alone
at this very moment (`Move.settles`).  All other moves are seen by nobody (`Move.unseen`).

A segment that is in place is counted a few moves later; in between the counter lags behind by one,
but nobody looks at it, because the sequencer is held.

What an upload comes to alone is written down once for each kind of ending, as `Echoes`.  The
theorems `Settles.appended`, `uncreated`, `unread`, `renamed` and `unrenamed` bring one stage each
to its ending, and `Move.settles` only sorts the moves.
-/

namespace LiveIngest.Traffic

open LiveIngest.Body
open LiveIngest.Storage
open LiveIngest.Storage.Path
open LiveIngest.Upload

attribute [local irreducible] dropPart startStreaming Streaming.step publish appendRead partPath

/-- The plan and the result of an upload, once they are settled. -/
def Stage.ended? : Stage → Option (Plan × Ended)
  | .dropping plan _ ended _ => some (plan, ended)
  | .unlocking plan _ ended _ => some (plan, ended)
  | .releasing plan _ ended _ => some (plan, ended)
  | .counting plan ended => some (plan, ended)
  | .leaving plan ended => some (plan, ended)
  | .reporting plan ended => some (plan, ended)
  | _ => none

/-- The reply that an upload was given or will be given.  It follows from the plan and the result,
so it is there as soon as they are. -/
def Stage.promise? : Stage → Option Reply
  | .finished reply _ _ => some reply
  | s => s.ended?.bind fun (plan, ended) => replyTo? plan.mode ended.result

/-- Whether the result of an upload is settled. -/
def Stage.isSettled : Stage → Bool
  | .finished .. => true
  | s => s.ended?.isSome

section

variable {c : Config} {clock : Nat} {i : TaskId} {w w' : Shared} {t t' : Task}

/-- What is not settled is not in place. -/
theorem Task.isUncounted_of_unsettled (h : t.stage.isSettled = false) : t.isUncounted = false := by
  unfold isUncounted
  cases hs : t.stage <;> simp_all [Stage.isSettled, Stage.ended?]

/-! ## Moves that nobody sees -/

/-- A move that settles nothing is not seen outside the reserved names.  The two cases that write
elsewhere, an append and a rename, both settle their upload. -/
theorem Effect.unseen (h : Effect c clock i w t w' t')
    (hsettled : t'.stage.isSettled = t.stage.isSettled) {k : Location}
    (hk : ¬Reserved w.tree c.outputDir k) : w'.tree.get? k = w.tree.get? k := by
  cases h with
  | still htree _ _ => rw [htree]
  | part _ _ _ _ htouch _ _ => exact htouch.same k fun hpart => hk (reserved_partPlace hpart)
  | append hs haims hworks hheld hw ht =>
    rw [ht, hs] at hsettled
    exact absurd hsettled (by simp [Stage.isSettled, Stage.ended?])
  | publish hs haims hchunked hheld hread hpart hget hj hw ht =>
    rw [ht, hs] at hsettled
    exact absurd hsettled (by simp [Stage.isSettled, Stage.ended?])

/-- What is settled stays settled, and is answered as promised.  The counter may move, but then one
segment fewer is uncounted. -/
theorem Move.settled (h : Move c clock i w t w' t') (hok : t.Ok c w.tree w.counter clock)
    (hsettled : t.stage.isSettled = true) :
    t'.stage.isSettled = true ∧ t'.stage.promise? = t.stage.promise? ∧
      w'.counter + (if t'.isUncounted then 1 else 0) =
        w.counter + (if t.isUncounted then 1 else 0) := by
  cases h with
  | quiet h =>
    cases h with
    | pass hs hticket =>
      have hnot : t.isUncounted = false := Task.isUncounted_of_noTicket hticket
      rw [hnot, hs]
      exact ⟨rfl, rfl, by simp [Task.isUncounted]⟩
    | uncounted hs hticket h =>
      have hnot : t.isUncounted = false := by simp [Task.isUncounted, hs, h, Except.isOk, Except.toBool]
      rw [hnot, hs]
      exact ⟨rfl, rfl, by simp [Task.isUncounted]⟩
    | stale hs hticket h hcommit =>
      -- the ticket is for the current index, so it is never stale
      rw [(hok.commit_eq hs hticket).2.2] at hcommit
      exact absurd hcommit (by simp)
    | answer hs h =>
      have hnot : t.isUncounted = false := by simp [Task.isUncounted, hs]
      rw [hnot, hs]
      -- the reply that is sent is the one that was promised
      refine ⟨rfl, ?_, by simp [Task.isUncounted]⟩
      exact h.symm
    | reject hs | skip hs | collect hs | address hs | refuse hs | issue hs | collectOn hs
    | collectFails hs | unfit hs | collected hs =>
      rw [hs] at hsettled
      exact absurd hsettled (by simp [Stage.isSettled, Stage.ended?])
  | drop hs =>
    unfold Task.Ok at hok
    simp only [hs] at hok
    obtain ⟨-, -, cause, hcause⟩ := hok
    rw [hs]
    refine ⟨rfl, rfl, ?_⟩
    simp [Task.isUncounted, hs, hcause, Except.isOk, Except.toBool]
  | unlock hs => rw [hs]; exact ⟨rfl, rfl, by simp [Task.isUncounted, hs]⟩
  | release hs => rw [hs]; exact ⟨rfl, rfl, by simp [Task.isUncounted, hs]⟩
  | count hs hticket h hcommit =>
    rename_i plan ended ticket outcome session
    rw [(hok.commit_eq hs hticket).2.2, Except.ok.injEq] at hcommit
    subst hcommit
    rw [hs]
    refine ⟨rfl, rfl, ?_⟩
    simp [Task.isUncounted, hs, hticket, h, Except.isOk, Except.toBool]
  | leave hs => rw [hs]; exact ⟨rfl, rfl, by simp [Task.isUncounted, hs]⟩
  | enqueue hs | refer hs | ask hs | append hs | create hs | createFails hs | streamOn hs
  | streamed hs | streamFails hs | publish hs | publishFails hs =>
    rw [hs] at hsettled
    exact absurd hsettled (by simp [Stage.isSettled, Stage.ended?])
  | vanish h =>
    cases h with
    | unreported hs h =>
      unfold Task.Ok at hok
      simp only [hs] at hok
      exact absurd h (replyTo?_ne_none hok.2)
    | queued hs | buffering hs | waiting hs | streaming hs | unstarted hs | uncollected hs
    | uncreated hs | unstreamed hs =>
      rw [hs] at hsettled
      exact absurd hsettled (by simp [Stage.isSettled, Stage.ended?])

/-- Only settled uploads move the counter. -/
theorem Move.counter_eq_of_unsettled (h : Move c clock i w t w' t')
    (hsettled : t.stage.isSettled = false) : w'.counter = w.counter := by
  cases h with
  | count hs =>
    rw [hs] at hsettled
    exact absurd hsettled (by simp [Stage.isSettled, Stage.ended?])
  | _ => rfl

/-! ## The move that settles an upload -/

/-- The upload is settled as the endpoint `a` would have settled it alone.  For a segment the
endpoint at the side counts at once what is still uncounted here. -/
structure Settles (a : Ingest) (t t' : Task) (tree : Tree) : Prop where
  reply : (a.dispatch t.request).reply = t'.stage.promise?
  mirrors : Mirrors tree (a.dispatch t.request).ingest.tree a.config.outputDir
  counter : (a.dispatch t.request).ingest.counter =
    a.counter + (if t'.isUncounted then 1 else 0)
  config : (a.dispatch t.request).ingest.config = a.config
  clock : (a.dispatch t.request).ingest.clock ≤ a.clock + a.config.patience

/-- An ending that echoes what the endpoint comes to alone settles the upload, if the reply that is
promised is the one for this result. -/
theorem Settles.of_echoes {a : Ingest} {tree : Tree} {plan : Plan} (result : Except Stop Outcome)
    (hplan : classify a.config t.request.path t.request.headers = .ok plan)
    (he : Echoes a plan t.request.body result tree)
    (hpromise : t'.stage.promise? = replyTo? plan.mode result)
    (hcounted : t'.isUncounted = (plan.mode.isSequenced && result.isOk)) :
    Settles a t t' tree := by
  obtain ⟨hreply, hingest⟩ := Ingest.dispatch_planned hplan
  refine ⟨?_, ?_, ?_, by rw [hingest], by rw [hingest]; exact he.now⟩
  · rw [hreply, he.came, hpromise]
  · rw [hingest]
    exact he.mirrors
  · rw [hingest]
    simp only [he.counter, hcounted, Bool.and_eq_true]
    split <;> rfl

/-- A rejection is the same at any time, since it only looks at the request. -/
theorem Settles.of_rejected {a : Ingest} {tree : Tree} {rejection : Rejection}
    (h : classify a.config t.request.path t.request.headers = .error rejection)
    (hmir : Mirrors tree a.tree a.config.outputDir)
    (hpromise : t'.stage.promise? =
      some (Reply.failed .classification (Error.classification rejection).message))
    (hcounted : t'.isUncounted = false) : Settles a t t' tree := by
  obtain ⟨hreply, hingest⟩ := Ingest.dispatch_rejected h
  refine ⟨hreply.trans hpromise.symm, by rw [hingest]; exact hmir, ?_, by rw [hingest], ?_⟩
  · rw [hingest, hcounted]
    rfl
  · rw [hingest]
    exact Nat.le_add_right _ _

/-- What a task on its way knows of the endpoint that handles one upload at a time: they agree on
the index, if the upload needs one.  So they agree on the target and on whether the hint is right.
-/
theorem Task.Aims.agrees {a : Ingest} {counter : Nat} {plan : Plan} {destination : String}
    (h : t.Aims c counter plan destination) (hcounter : t.ticket ≠ none → a.counter = counter) :
    plan.mode.target c a.counter = plan.mode.target c counter ∧
      ∀ kind, plan.mode = .sequenced (some kind) → kind = Segment.Kind.ofIndex a.counter := by
  have hfor := h.ticket
  have hindex : ∀ hint, plan.mode = .sequenced hint → a.counter = counter := by
    intro hint hm
    rw [hm] at hfor
    exact hcounter (by rw [hfor.1]; simp)
  refine ⟨Mode.target_eq fun hseq => ?_, fun kind hm => ?_⟩
  · cases hm : plan.mode with
    | sequenced hint => exact hindex hint hm
    | _ => rw [hm] at hseq; exact absurd hseq (by simp [Mode.isSequenced])
  · rw [hindex _ hm]
    rw [hm] at hfor
    exact hfor.2 kind rfl

/-- The length of a plan is one that the deadlines of the endpoint are made for. -/
theorem length_le_of_plan {plan : Plan}
    (h : classify c t.request.path t.request.headers = .ok plan) :
    plan.length ≤ c.maxUploadBytes := declaredLength_le (classify_ok h).2.1

/-- The deadlines of the plan fit on both clocks: that of the endpoint, and any moment at which the
upload may have been started here. -/
theorem fits_of_plan {a : Ingest} {plan : Plan} {start : Nat}
    (hplan : classify a.config t.request.path t.request.headers = .ok plan)
    (hfit : DeadlinesFit a.config.readTimeout a.config.maxUploadBytes (max clock a.clock))
    (hstart : start ≤ clock) :
    DeadlinesFit a.config.readTimeout plan.length a.clock ∧
      DeadlinesFit a.config.readTimeout plan.length start :=
  have hlen := length_le_of_plan hplan
  ⟨hfit.mono hlen (Nat.le_max_right ..), hfit.mono hlen (Nat.le_trans hstart (Nat.le_max_left ..))⟩

/-- An overwrite that has failed is settled when it goes to drop its part file. -/
theorem Settles.of_unstored {a : Ingest} {tree : Tree} {plan : Plan} {destination : String}
    {stop : Stop} {reading : Reading} {l : LockId}
    (hplan : classify a.config t.request.path t.request.headers = .ok plan)
    (he : Echoes a plan t.request.body (.error stop) tree) :
    Settles a t (t.at (.dropping plan destination ⟨.error stop, reading⟩ l)) tree :=
  .of_echoes _ hplan he rfl (by simp [Task.isUncounted, Except.isOk, Except.toBool])

/-- An upload that has written its file, or has failed to append, is settled when it goes to unlock;
a segment is still to be counted then. -/
theorem Settles.of_written {a : Ingest} {tree : Tree} {counter : Nat} {plan : Plan}
    {destination : String} {ended : Ended} {l : LockId}
    (haims : t.Aims a.config counter plan destination)
    (he : Echoes a plan t.request.body ended.result tree) :
    Settles a t (t.at (.unlocking plan destination ended l)) tree := by
  refine .of_echoes _ haims.planned he rfl ?_
  show (t.ticket.isSome && _) = _
  rw [haims.isSome_ticket]
  rfl

section

variable {a : Ingest} {tree : Tree} {plan : Plan} {destination : String} {reading : Reading}
  {l : LockId} (hc : a.config.Valid)
  (hmir : Mirrors w.tree a.tree a.config.outputDir)
  (hfit : DeadlinesFit a.config.readTimeout a.config.maxUploadBytes (max clock a.clock))
  (hok : t.Ok a.config w.tree w.counter clock)
include hc hmir hfit hok

/-- Appending comes to the same on both disks.  What is appended was read before, and the raw output
file is the same file with the same content. -/
theorem Settles.appended (hlinks : NoLinks w.tree a.config.outputDir)
    (hraw : isPartName a.config.rawOutputFile = false) {payload : Bytes}
    (hs : t.stage = .waiting plan destination (.append payload reading) l) :
    Settles a t
      (t.at (.unlocking plan destination
        ⟨(appendRead payload destination reading w.tree).result, reading⟩ l))
      (appendRead payload destination reading w.tree).tree := by
  unfold Task.Ok at hok
  simp only [hs] at hok
  obtain ⟨haims, hmode, h0, bytes, ⟨start, hstart, hread⟩, hpay⟩ := hok
  obtain ⟨hnow, hthen⟩ := fits_of_plan haims.planned hfit hstart
  obtain rfl : destination = join a.config.outputDir a.config.rawOutputFile := by
    rw [haims.place, target_of_whole hmode]
    rfl
  exact .of_written haims (.appended (length_le_of_plan haims.planned) hnow hthen hc hraw hlinks hmir
    hmode h0 hread hpay)

-- from here on the upload may have an index, which the endpoint would give it too
variable (hindex : t.ticket ≠ none → a.counter = w.counter)
include hindex

/-- Where no part file can be created here, none can be created on the mirror. -/
theorem Settles.uncreated (hlinks : NoLinks w.tree a.config.outputDir) {declared : Nat}
    {body : Schedule} {cause : Error}
    (hs : t.stage = .waiting plan destination (.overwrite declared body) l)
    (h : startStreaming a.config.readTimeout declared clock body (partPath destination) w.tree =
      (.error (.failed cause), tree)) :
    Settles a t (t.at (.dropping plan destination ⟨.error (.failed cause), reading⟩ l)) tree := by
  unfold Task.Ok at hok
  simp only [hs] at hok
  obtain ⟨haims, hmode, rfl, rfl⟩ := hok
  obtain ⟨hnow, hthen⟩ := fits_of_plan haims.planned hfit (Nat.le_refl clock)
  obtain ⟨htarget, hagree⟩ := haims.agrees hindex
  have hn := isComponent_target hc haims.planned w.counter
  obtain rfl : destination = join a.config.outputDir _ := haims.place
  rcases startStreaming_error hn (hlinks.part _) h with ⟨-, rfl, e, hcreate, hstop⟩ | ⟨hov, -⟩
  · have hpart := partPlace_of_create_error hn
      (fun k hk => hmir.ordinary k (reserved_partPlace hk)) hcreate
    refine .of_unstored haims.planned (.unstored (length_le_of_plan haims.planned) hnow hthen hc
      haims.planned hmode hagree hmir ?_)
    rw [htarget, overwriteResult_of_part_error hpart, hstop]
  · exact absurd hov (by simp)

/-- A body that fails here fails alone in the same way: the disk has room, and no device stands in for
the part file, so it was the body that failed and not a write. -/
theorem Settles.unread {s : Streaming} {cause : Error}
    (hplaces : SamePlaces w.tree tree a.config.outputDir)
    (hord : ∀ k, Reserved w.tree a.config.outputDir k → Tree.Ordinary (tree.get? k))
    (hroom : tree.room = none ↔ w.tree.room = none)
    (hs : t.stage = .streaming plan destination s l)
    (h : s.step (partPath destination) w.tree = (.done (.error (.failed cause)) reading, tree)) :
    Settles a t (t.at (.dropping plan destination ⟨.error (.failed cause), reading⟩ l)) tree := by
  unfold Task.Ok at hok
  simp only [hs] at hok
  obtain ⟨haims, hmode, b, k, ⟨start, hstart, hread⟩, hreading, hk, hcarries⟩ := hok
  obtain ⟨hnow, hthen⟩ := fits_of_plan haims.planned hfit hstart
  obtain ⟨htarget, hagree⟩ := haims.agrees hindex
  have hplain := hmir.ordinary k (reserved_partPlace hk)
  obtain ⟨htouch, -, hwhy⟩ := Streaming.step_error_sim (Tree.place_ne_nil hk) hreading hcarries h
  have hstep : b.step = .done (.error (.failed cause)) reading := by
    rcases hwhy with hstep | ⟨-, hdevice⟩
    · exact hstep
    · obtain ⟨d, hd⟩ := hdevice hmir.room
      exact absurd hd (hplain.ne_device d)
  rw [Buffering.run_of_done hstep] at hread
  have hmir' : Mirrors tree a.tree a.config.outputDir := hmir.hidden hplaces hord hroom
    fun k' hk' => htouch.same k' fun he => hk' (he ▸ reserved_partPlace hk)
  refine .of_unstored haims.planned (.unstored (length_le_of_plan haims.planned) hnow hthen hc
    haims.planned hmode hagree hmir' ?_)
  rw [htarget, hread]
  exact overwriteResult_of_read_error ((hplaces.partPlace_eq _).trans hk)

/-- A part file that is renamed here holds what the endpoint would have stored.  It reads the same
body, since readings do not depend on when they begin if the deadlines fit. -/
theorem Settles.renamed (hlinks : NoLinks w.tree a.config.outputDir)
    (hs : t.stage = .publishing plan destination reading l)
    (h : publish w.tree (partPath destination) destination = (.ok (), tree)) :
    Settles a t (t.at (.unlocking plan destination ⟨.ok ⟨destination, plan.length⟩, reading⟩ l))
      tree := by
  obtain ⟨haims, hmode, bytes, k, j, ⟨start, hstart, hread⟩, hk, hget, hj, rfl⟩ := hok.renamed hc hs h
  obtain ⟨hnow, hthen⟩ := fits_of_plan haims.planned hfit hstart
  obtain ⟨htarget, hagree⟩ := haims.agrees hindex
  obtain rfl : destination = join a.config.outputDir _ := haims.place
  rw [← htarget] at hk hj
  have hecho := Echoes.stored (length_le_of_plan haims.planned) hnow hthen hc haims.planned hmode hagree
    hmir hlinks hk hget (congrArg Prod.fst hread) hj
  rw [htarget] at hecho
  exact .of_written haims hecho

/-- A part file that cannot be renamed here could not be renamed on the mirror. -/
theorem Settles.unrenamed {stop : Stop} (hs : t.stage = .publishing plan destination reading l)
    (h : publish w.tree (partPath destination) destination = (.error stop, tree)) :
    Settles a t (t.at (.dropping plan destination ⟨.error stop, reading⟩ l)) tree := by
  unfold Task.Ok at hok
  simp only [hs] at hok
  obtain ⟨haims, hmode, bytes, k, ⟨start, hstart, hread⟩, hk, hget⟩ := hok
  obtain ⟨hnow, hthen⟩ := fits_of_plan haims.planned hfit hstart
  obtain ⟨htarget, hagree⟩ := haims.agrees hindex
  have hn := isComponent_target hc haims.planned w.counter
  obtain rfl : destination = join a.config.outputDir _ := haims.place
  obtain ⟨rfl, -⟩ := publish_error h
  rw [publish_part hn hk hget] at h
  split at h
  · rename_i stop' hj
    obtain rfl : stop' = stop := Except.error.inj (congrArg Prod.fst h)
    refine .of_unstored haims.planned (.unstored (length_le_of_plan haims.planned) hnow hthen hc
      haims.planned hmode hagree hmir ?_)
    rw [htarget, hread, overwriteResult_of_read hk, hj]
    rfl
  · exact absurd h (by simp)

end

section

variable {a : Ingest} (hconfig : a.config = c) (hc : c.Valid)
  (hraw : isPartName c.rawOutputFile = false) (hlinks : NoLinks w.tree c.outputDir)
  (hmir : Mirrors w.tree a.tree c.outputDir)
  (hfit : DeadlinesFit c.readTimeout c.maxUploadBytes (max clock a.clock))
include hconfig hc hraw hlinks hmir hfit

/-- The same for the moves that change nothing but the task: a rejection, a body that has failed or
is not fit to be appended, an index that is refused. -/
theorem Quiet.settles (h : Quiet c clock i w t t') (hok : t.Ok c w.tree w.counter clock)
    (hcounter : w.sequencer.holder = some i → a.counter = w.counter)
    (hbefore : t.stage.isSettled = false) (hafter : t'.stage.isSettled = true) :
    Settles a t t' w.tree := by
  subst hconfig
  unfold Task.Ok at hok
  cases h with
  | reject hs h => exact .of_rejected h hmir rfl (by simp [Task.isUncounted])
  | skip hs h hmode hlen =>
    refine .of_echoes _ h (.empty hmir hmode hlen) rfl ?_
    rw [hmode]
    simp [Task.isUncounted, Mode.isSequenced]
  | refuse hs hheld h =>
    simp only [hs] at hok
    obtain ⟨hplan, hmode, -⟩ := hok
    rw [← hcounter hheld] at h
    refine .of_echoes _ hplan (.refused hmir hmode h) rfl ?_
    simp [Task.isUncounted, Except.isOk, Except.toBool]
  | collectFails hs h =>
    simp only [hs] at hok
    obtain ⟨hplan, hmode, h0, -, start, hstart, hread⟩ := hok
    rw [Buffering.run_of_done h] at hread
    obtain ⟨hnow, hthen⟩ := fits_of_plan hplan hfit hstart
    refine .of_echoes _ hplan
      (.uncollected (length_le_of_plan hplan) hnow hthen hmir hmode h0 hread) rfl ?_
    simp [Task.isUncounted, Except.isOk, Except.toBool]
  | unfit hs h hpay =>
    simp only [hs] at hok
    obtain ⟨hplan, hmode, h0, -, start, hstart, hread⟩ := hok
    rw [Buffering.run_of_done h] at hread
    obtain ⟨hnow, hthen⟩ := fits_of_plan hplan hfit hstart
    refine .of_echoes _ hplan
      (.unfit (length_le_of_plan hplan) hnow hthen hmir hmode h0 hread hpay) rfl ?_
    simp [Task.isUncounted, Except.isOk, Except.toBool]
  | collect hs | address hs | issue hs | collectOn hs | collected hs =>
    exact absurd hafter (by simp [Stage.isSettled, Stage.ended?])
  | pass hs | uncounted hs | stale hs | answer hs =>
    rw [hs] at hbefore
    exact absurd hbefore (by simp [Stage.isSettled, Stage.ended?])

/-- The move that settles an upload does what the endpoint alone would have done. -/
theorem Move.settles (h : Move c clock i w t w' t') (heffect : Effect c clock i w t w' t')
    (hord : ∀ k, Reserved w.tree c.outputDir k → Tree.Ordinary (w'.tree.get? k))
    (hok : t.Ok c w.tree w.counter clock)
    (hcounter : w.sequencer.holder = some i → a.counter = w.counter)
    (hholds : t.ticket ≠ none → t.stage.isOver = false → w.sequencer.holder = some i)
    (hbefore : t.stage.isSettled = false) (hafter : t'.stage.isSettled = true) :
    Settles a t t' w'.tree := by
  have hindex : t.stage.isOver = false → t.ticket ≠ none → a.counter = w.counter :=
    fun hover hticket => hcounter (hholds hticket hover)
  have hplaces := heffect.samePlaces hc hlinks
  have hroom := (heffect.touches hc hlinks).room
  subst hconfig
  cases h with
  | quiet h => exact h.settles rfl hc hraw hlinks hmir hfit hok hcounter hbefore hafter
  | append hs hheld => exact .appended hc hmir hfit hok hlinks hraw hs
  | createFails hs hheld h =>
    exact .uncreated hc hmir hfit hok (hindex (by rw [hs]; rfl)) hlinks hs h
  | streamFails hs h =>
    exact .unread hc hmir hfit hok (hindex (by rw [hs]; rfl)) hplaces hord hroom hs h
  | publish hs h => exact .renamed hc hmir hfit hok (hindex (by rw [hs]; rfl)) hlinks hs h
  | publishFails hs h => exact .unrenamed hc hmir hfit hok (hindex (by rw [hs]; rfl)) hs h
  -- the other moves settle nothing, or come after the one that does
  | enqueue hs | refer hs | ask hs | create hs | streamOn hs | streamed hs =>
    exact absurd hafter (by simp [Stage.isSettled, Stage.ended?])
  | drop hs | unlock hs | release hs | count hs | leave hs =>
    rw [hs] at hbefore
    exact absurd hbefore (by simp [Stage.isSettled, Stage.ended?])
  | vanish h =>
    have hover := h.isOver
    cases h <;> exact absurd hafter (by simp [Stage.isSettled, Stage.ended?])

end

end

end LiveIngest.Traffic
