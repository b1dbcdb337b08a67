import LiveIngest.Proofs.Output
import LiveIngest.Traffic.Machine

/-!
# What one upload does

An upload that is handled alone either is stored or leaves no trace.

* `dispatch_stores`: an upload that is answered 200 has changed one file, in the way its mode says,
  and nothing else on disk; the counter has moved exactly if it was a segment.
* `dispatch_unchanged`: an upload that is answered otherwise has changed nothing.

Both rest on closed forms of `Ingest.execute`: uploads that are appended are `collected`, and chunked
uploads are the overwrite of one name.

The frame ("nothing else on disk") comes from these closed forms too.  Both `appendPayload` and
`overwrite` are known to act at the place of one name (`appendPayload_ok`, `Overwritten`), and what
else `execute` does, numbering and replying, is not on the disk.
-/

namespace LiveIngest.Upload

open LiveIngest.Body
open LiveIngest.Storage
open LiveIngest.Storage.Path
open LiveIngest.Traffic.Machine (payloadOf)

-- what an overwrite does is known from its lemmas
attribute [local irreducible] overwrite

/-! ## Closed forms -/

namespace Ingest

/-- An upload that is collected in memory and appended to the raw output file.  Raw bodies and forms
only differ in the payload, which is what `payloadOf` takes from the body. -/
def collected (g : Ingest) (plan : Plan) (body : Schedule) : Writing Outcome :=
  match readBody g.config.readTimeout plan.length g.clock body with
  | (.error stop, reading) => ⟨.error stop, reading, [], g.tree⟩
  | (.ok bytes, reading) =>
    match payloadOf plan.mode bytes with
    | .error rejection => ⟨.error (.failed (.classification rejection)), reading, [], g.tree⟩
    | .ok payload => appendRead payload g.config.rawOutputPath reading g.tree

/-- Whole uploads are collected, if they are not empty.  An empty one opens no file at all, which
`execute_rawEmpty` is about. -/
theorem execute_collected {g : Ingest} {plan : Plan} (hmode : plan.mode.isChunked = false)
    (hlen : plan.length ≠ 0) (body : Schedule) :
    g.execute plan body = { toWriting := g.collected plan body, counter := g.counter } := by
  obtain ⟨mode, length⟩ := plan
  cases mode with
  | rawAppend =>
    unfold execute executeRaw collected write
    simp only [if_neg hlen]
    cases readBody g.config.readTimeout length g.clock body with
    | mk res reading => cases res <;> rfl
  | form boundary field =>
    unfold execute executeForm collected
    cases readBody g.config.readTimeout length g.clock body with
    | mk res reading =>
      cases res with
      | error stop => rfl
      | ok bytes => rfl
  | addressed fileName => exact absurd hmode (by simp [Mode.isChunked])
  | sequenced hint => exact absurd hmode (by simp [Mode.isChunked])

/-- Overwriting one name of the output directory. -/
def overwriting (g : Ingest) (name : String) (length : Nat) (body : Schedule) : Writing Outcome :=
  overwrite g.config.readTimeout length g.clock body (g.config.destination name) g.tree

/-- What overwriting does to the disk, where no part file is in its way. -/
theorem overwritten {g : Ingest} {name : String} {length : Nat} {body : Schedule}
    (hn : IsComponent name)
    (hnone : ∀ k, partPlace g.tree g.config.outputDir name = .ok k → g.tree.get? k = none) :
    Overwritten g.tree g.config.outputDir name g.config.readTimeout length g.clock body
      (g.overwriting name length body) := Upload.overwritten _ _ _ _ hn hnone

/-- A segment is refused, or stored under the name of the current index and counted. -/
theorem execute_sequenced {g : Ingest} {plan : Plan} {hint : Option Segment.Kind}
    (hmode : plan.mode = .sequenced hint) (body : Schedule) :
    (∃ kind, hint = some kind ∧ kind ≠ Segment.Kind.ofIndex g.counter ∧
      g.execute plan body =
        { result := .error (.failed (.sequence
            (.outOfOrder (Segment.Kind.ofIndex g.counter) g.counter kind)))
          reading := g.beginReading plan.length body, events := [], tree := g.tree
          counter := g.counter }) ∨
    ((∀ kind, hint = some kind → kind = Segment.Kind.ofIndex g.counter) ∧
      ∃ events,
        g.execute plan body =
          { g.overwriting (Segment.fileName g.config.streamName g.counter) plan.length body with
            events := events
            counter := match (g.overwriting (Segment.fileName g.config.streamName g.counter)
                plan.length body).result with
              | .ok _ => g.counter + 1
              | .error _ => g.counter }) := by
  obtain ⟨mode, length⟩ := plan
  subst hmode
  unfold execute executeSequenced
  rcases issue_begin g.counter g.config.streamName hint with
    ⟨kind, rfl, hne, hissue⟩ | ⟨hagree, hissue⟩
  · refine Or.inl ⟨kind, rfl, hne, ?_⟩
    simp only [hissue]
  · refine Or.inr ⟨hagree, ?_⟩
    simp only [hissue, write, Segment.Slot.at, ← overwriting.eq_1]
    -- what the overwrite came to is all that matters from here on
    generalize g.overwriting (Segment.fileName g.config.streamName g.counter) length body = w
    obtain ⟨result, reading, events, tree⟩ := w
    cases result with
    | error stop => exact ⟨_, rfl⟩
    | ok outcome =>
      simp only [commit_issued]
      exact ⟨_, rfl⟩

/-- A labelled upload overwrites the name of its label, and leaves the counter alone. -/
theorem execute_addressed {g : Ingest} {plan : Plan} {name : String}
    (hmode : plan.mode = .addressed name) (body : Schedule) :
    g.execute plan body =
      { toWriting := g.overwriting name plan.length body, counter := g.counter } := by
  obtain ⟨mode, length⟩ := plan
  subst hmode
  unfold execute
  simp only [write, overwriting]

/-- An execution that stores what `w` stores, and counts it if it is a segment.  Events are left
out: nothing on the disk and no reply depends on them. -/
structure Executes (g : Ingest) (plan : Plan) (e : Execution) (w : Writing Outcome) : Prop where
  result : e.result = w.result
  reading : e.reading = w.reading
  tree : e.tree = w.tree
  counter : e.counter =
    if plan.mode.isSequenced ∧ w.result.isOk then g.counter + 1 else g.counter

/-- A chunked upload that is not refused is the overwrite of its target.  So what holds of
overwriting holds of both kinds of chunked uploads. -/
theorem execute_chunked {g : Ingest} {plan : Plan} (hmode : plan.mode.isChunked = true)
    (hagree : ∀ kind, plan.mode = .sequenced (some kind) → kind = Segment.Kind.ofIndex g.counter)
    (body : Schedule) :
    Executes g plan (g.execute plan body)
      (g.overwriting (plan.mode.target g.config g.counter) plan.length body) := by
  cases hm : plan.mode with
  | rawAppend => exact absurd hmode (by simp [hm, Mode.isChunked])
  | form boundary field => exact absurd hmode (by simp [hm, Mode.isChunked])
  | addressed name =>
    rw [execute_addressed hm body]
    exact ⟨rfl, rfl, rfl, by rw [hm, if_neg (by simp [Mode.isSequenced])]⟩
  | sequenced hint =>
    have htarget : (Mode.sequenced hint).target g.config g.counter =
        Segment.fileName g.config.streamName g.counter := rfl
    rw [htarget]
    rcases execute_sequenced hm body with ⟨kind, rfl, hne, -⟩ | ⟨-, events, hexec⟩
    · exact absurd (hagree kind hm) hne
    · rw [hexec]
      refine ⟨rfl, rfl, rfl, ?_⟩
      rw [hm]
      generalize g.overwriting (Segment.fileName g.config.streamName g.counter) plan.length body = w
      obtain ⟨result, reading, events', tree⟩ := w
      cases result <;> rfl

/-- Without bytes there is nothing to append, and the raw output file is not even made. -/
theorem execute_rawEmpty {g : Ingest} {plan : Plan} (hmode : plan.mode = .rawAppend)
    (hlen : plan.length = 0) (body : Schedule) :
    g.execute plan body =
      { result := .ok ⟨g.config.rawOutputPath, 0⟩, reading := g.beginReading plan.length body,
        events := [], tree := g.tree, counter := g.counter } := by
  obtain ⟨mode, length⟩ := plan
  subst hmode hlen
  unfold execute executeRaw
  simp only [if_pos]

end Ingest

/-! ## Replies -/

/-- No failure is answered 200. -/
theorem status_failed_ne (kind : ErrorKind) (message : String) :
    (Reply.failed kind message).status ≠ 200 := by
  show statusOf kind ≠ 200
  cases kind <;> decide

/-- And everything that was stored is. -/
theorem status_stored (mode : Option Mode) : (Reply.stored mode).status = 200 := by
  unfold Reply.stored
  split
  · split <;> rfl
  · rfl

/-- A reply of 200 reports that an upload was stored. -/
theorem replyTo?_status {mode : Mode} {result : Except Stop Outcome} {reply : Reply}
    (h : replyTo? mode result = some reply) :
    reply.status = 200 ↔ ∃ outcome, result = .ok outcome := by
  cases result with
  | ok outcome =>
    cases h
    exact ⟨fun _ => ⟨outcome, rfl⟩, fun _ => status_stored _⟩
  | error stop =>
    cases stop with
    | failed cause =>
      cases h
      exact ⟨fun hs => absurd hs (status_failed_ne _ _), by simp⟩
    | overflow => simp [replyTo?] at h

/-- The same as a test, which an upload that is not answered does not pass. -/
theorem replyTo?_any_eq (mode : Mode) (result : Except Stop Outcome) :
    (replyTo? mode result).any (·.status == 200) = result.isOk := by
  cases result with
  | ok outcome => simp [replyTo?, status_stored, Except.isOk, Except.toBool]
  | error stop =>
    cases stop with
    | failed cause => simp [replyTo?, status_failed_ne, Except.isOk, Except.toBool]
    | overflow => rfl

/-- Only an upload whose reader broke down is not answered.  The reader breaks down where a deadline
is no moment any more. -/
theorem replyTo?_ne_none {mode : Mode} {result : Except Stop Outcome}
    (h : result ≠ .error .overflow) : replyTo? mode result ≠ none := by
  cases result with
  | ok outcome => simp [replyTo?]
  | error stop =>
    cases stop with
    | failed cause => simp [replyTo?]
    | overflow => exact absurd rfl h

namespace Ingest

/-- A rejected upload is answered at once and changes nothing. -/
theorem dispatch_rejected {g : Ingest} {request : Request} {rejection : Rejection}
    (h : classify g.config request.path request.headers = .error rejection) :
    (g.dispatch request).reply = some (Reply.failed .classification
        (Error.classification rejection).message) ∧ (g.dispatch request).ingest = g := by
  unfold dispatch
  rw [h]
  exact ⟨rfl, rfl⟩

/-- An upload with a plan is answered by what its execution came to, which is also all that changes.
-/
theorem dispatch_planned {g : Ingest} {request : Request} {plan : Plan}
    (h : classify g.config request.path request.headers = .ok plan) :
    (g.dispatch request).reply = replyTo? plan.mode (g.execute plan request.body).result ∧
      (g.dispatch request).ingest =
        { g with
          tree := (g.execute plan request.body).tree
          counter := (g.execute plan request.body).counter
          clock := (g.execute plan request.body).reading.now } := by
  unfold dispatch
  rw [h]
  exact ⟨rfl, rfl⟩

end Ingest

/-! ## An upload that is stored -/

/-- A request with a content type and a declared length. -/
def Request.declaring (path contentType length : String) (body : Schedule) : Request :=
  ⟨path, [⟨"content-type", Bytes.ofString contentType⟩, ⟨"content-length", Bytes.ofString length⟩],
    body⟩

/-- Two endpoints whose disks differ at most at one location. -/
def SameBut (g g' : Ingest) (l : Location) : Prop := ∀ j, j ≠ l → g'.tree.get? j = g.tree.get? j

/-- What a stored upload of `n` declared bytes did, mode by mode.  Every case says which bytes stand
where, that the rest of the disk is as before, what the counter is and what is reported. -/
inductive Stored (g : Ingest) (r : Request) (n : Nat) (g' : Ingest) : Mode → Outcome → Prop
  /-- No bytes were sent: there is nothing to be seen. -/
  | empty (hn : n = 0) (hpolicy : g.config.emptyRawPost = .accept)
      (hsame : ∀ l, g'.tree.get? l = g.tree.get? l) (hcounter : g'.counter = g.counter) :
      Stored g r n g' .rawAppend ⟨g.config.rawOutputPath, 0⟩
  /-- The first bytes of the body stand behind the old content of the raw output file. -/
  | raw (l : Location) (old : Bytes) (hn : 0 < n)
      (hl : g.tree.place g.config.outputDir g.config.rawOutputFile = .ok l)
      (hold : contentAt g.tree l = some old) (hlong : n ≤ (Schedule.bytes r.body).length)
      (hget : g'.tree.get? l = some (.file (old ++ (Schedule.bytes r.body).take n)))
      (hsame : SameBut g g' l) (hcounter : g'.counter = g.counter) :
      Stored g r n g' .rawAppend ⟨g.config.rawOutputPath, n⟩
  /-- The data of the form field stand behind the old content of the raw output file. -/
  | form (boundary : String) (l : Location) (old : Bytes) (parts : List Form.Part) (part : Form.Part)
      (hboundary : Form.boundaryOf? (r.headers.contentType?.getD "") = some boundary)
      (hl : g.tree.place g.config.outputDir g.config.rawOutputFile = .ok l)
      (hold : contentAt g.tree l = some old) (hlong : n ≤ (Schedule.bytes r.body).length)
      (hparse : Form.parse ((Schedule.bytes r.body).take n) boundary = .ok parts)
      (hpart : Form.field? parts g.config.uploadField = some part)
      (hget : g'.tree.get? l = some (.file (old ++ part.data)))
      (hsame : SameBut g g' l) (hcounter : g'.counter = g.counter) :
      Stored g r n g' (.form boundary g.config.uploadField)
        ⟨g.config.rawOutputPath, part.data.length⟩
  /-- The first bytes of the body are the file of that name. -/
  | addressed (contentId name : String) (l : Location)
      (hid : r.headers.contentId? = some contentId) (hname : fileNameOf contentId = .ok name)
      (hl : g.tree.place g.config.outputDir name = .ok l)
      (hlong : n ≤ (Schedule.bytes r.body).length)
      (hget : g'.tree.get? l = some (.file ((Schedule.bytes r.body).take n)))
      (hsame : SameBut g g' l) (hcounter : g'.counter = g.counter) :
      Stored g r n g' (.addressed name) ⟨g.config.destination name, n⟩
  /-- The first bytes of the body are the next segment. -/
  | sequenced (hint : Option Segment.Kind) (l : Location)
      (hl : g.tree.place g.config.outputDir
        (Segment.fileName g.config.streamName g.counter) = .ok l)
      (hlong : n ≤ (Schedule.bytes r.body).length)
      (hget : g'.tree.get? l = some (.file ((Schedule.bytes r.body).take n)))
      (hsame : SameBut g g' l) (hcounter : g'.counter = g.counter + 1) :
      Stored g r n g' (.sequenced hint)
        ⟨g.config.destination (Segment.fileName g.config.streamName g.counter), n⟩

namespace Ingest

/-- Three bytes in two pieces, and behind them one that was not declared. -/
def threeBytes : Request :=
  .declaring "/dash" "video/webm" "3" [⟨0, .data [1, 2]⟩, ⟨5, .data [3, 4]⟩]

/-- An upload comes as far as appending a payload. -/
def Appends (g : Ingest) (request : Request) (payload : Bytes) : Prop :=
  ∃ plan bytes reading, classify g.config request.path request.headers = .ok plan ∧
    plan.mode.isChunked = false ∧
    readBody g.config.readTimeout plan.length g.clock request.body = (.ok bytes, reading) ∧
    payloadOf plan.mode bytes = .ok payload

/-- A payload that was not stored has left nothing, as long as appending is all or nothing
(`AppendsWhole`). -/
theorem collected_error {g : Ingest} {plan : Plan} {request : Request} {stop : Stop}
    (hplan : classify g.config request.path request.headers = .ok plan)
    (hmode : plan.mode.isChunked = false)
    (hwhole : ∀ payload, g.Appends request payload →
      AppendsWhole g.tree g.config.rawOutputPath payload)
    (h : (g.collected plan request.body).result = .error stop) (l : Location) :
    (g.collected plan request.body).tree.get? l = g.tree.get? l := by
  unfold collected at h ⊢
  cases hread : readBody g.config.readTimeout plan.length g.clock request.body with
  | mk res reading =>
    cases res with
    | error stop => rfl
    | ok bytes =>
      simp only [hread] at h ⊢
      cases hpay : payloadOf plan.mode bytes with
      | error rejection => rfl
      | ok payload =>
        simp only [hpay] at h ⊢
        obtain ⟨hresult, htree, -⟩ :=
          appendRead_result payload g.config.rawOutputPath reading g.tree
        rw [hresult] at h
        rw [htree]
        cases happ : (appendPayload g.tree g.config.rawOutputPath payload).1 with
        | ok u => simp [happ, Except.map] at h
        | error stop' =>
          -- the only way to fail with the file already open
          exact hwhole payload ⟨plan, bytes, reading, hplan, hmode, hread, hpay⟩ stop' happ l

/-- An overwrite that failed has left nothing: its part file is gone again. -/
theorem overwriting_error {g : Ingest} {name : String} {length : Nat} {body : Schedule}
    {stop : Stop} (hn : IsComponent name)
    (hnone : ∀ k, partPlace g.tree g.config.outputDir name = .ok k → g.tree.get? k = none)
    (h : (g.overwriting name length body).result = .error stop) (l : Location) :
    (g.overwriting name length body).tree.get? l = g.tree.get? l := by
  cases (overwritten hn hnone : Overwritten _ _ _ _ length _ body _) with
  | stored k l' bytes hk hl hres hread hget hsame hroom =>
    exact absurd (hres.symm.trans h) (by simp)
  | failed stop' hres why hsame hroom => exact hsame l

/-- An execution that failed has changed nothing.  It starts in a clean directory, so a part file
that is there was made by itself. -/
theorem execute_error {g : Ingest} {plan : Plan} {request : Request} {stop : Stop}
    (hc : g.config.Valid) (hplan : classify g.config request.path request.headers = .ok plan)
    (hclean : CleanOutput g.tree g.config.outputDir)
    (hwhole : ∀ payload, g.Appends request payload →
      AppendsWhole g.tree g.config.rawOutputPath payload)
    (h : (g.execute plan request.body).result = .error stop) :
    (∀ l, (g.execute plan request.body).tree.get? l = g.tree.get? l) ∧
      (g.execute plan request.body).counter = g.counter := by
  obtain ⟨hmode, -, hempty⟩ := classify_ok hplan
  have hnone : ∀ name k, partPlace g.tree g.config.outputDir name = .ok k →
      g.tree.get? k = none := fun _ _ hk => hclean.part_none hk
  cases hm : plan.mode with
  | rawAppend =>
    have hwholeMode : plan.mode.isChunked = false := by rw [hm]; rfl
    by_cases hlen : plan.length = 0
    · rw [execute_rawEmpty hm hlen] at h
      simp at h
    · rw [execute_collected hwholeMode hlen] at h ⊢
      exact ⟨collected_error hplan hwholeMode hwhole h, rfl⟩
  | form boundary field =>
    have hwholeMode : plan.mode.isChunked = false := by rw [hm]; rfl
    rw [hm] at hempty
    have hlen : plan.length ≠ 0 := fun h0 => absurd (hempty h0) (by simp [Mode.takesEmpty])
    rw [execute_collected hwholeMode hlen] at h ⊢
    exact ⟨collected_error hplan hwholeMode hwhole h, rfl⟩
  | addressed name =>
    rw [hm] at hmode
    obtain ⟨-, ⟨contentId, -, hname⟩, -, -⟩ := modeOf_addressed hmode
    have hn := isComponent_of_fileNameOf hname
    rw [execute_addressed hm] at h ⊢
    exact ⟨overwriting_error hn (hnone name) h, rfl⟩
  | sequenced hint =>
    have hn := isComponent_fileName hc.stream g.counter
    rcases execute_sequenced hm request.body with ⟨kind, -, -, hexec⟩ | ⟨-, events, hexec⟩
    · rw [hexec]
      exact ⟨fun _ => rfl, rfl⟩
    · rw [hexec] at h ⊢
      simp only at h ⊢
      refine ⟨overwriting_error hn (hnone _) h, ?_⟩
      simp only [h]

/-- An upload that is answered otherwise than 200, or not at all, has changed no file and not the
counter. -/
theorem dispatch_unchanged {g : Ingest} {request : Request} (hc : g.config.Valid)
    (hclean : CleanOutput g.tree g.config.outputDir)
    (hwhole : ∀ payload, g.Appends request payload →
      AppendsWhole g.tree g.config.rawOutputPath payload)
    (hreply : ∀ reply, (g.dispatch request).reply = some reply → reply.status ≠ 200) :
    (∀ l, (g.dispatch request).ingest.tree.get? l = g.tree.get? l) ∧
      (g.dispatch request).ingest.counter = g.counter := by
  cases hplan : classify g.config request.path request.headers with
  | error rejection =>
    rw [(dispatch_rejected hplan).2]
    exact ⟨fun _ => rfl, rfl⟩
  | ok plan =>
    obtain ⟨hrep, hingest⟩ := dispatch_planned hplan
    rw [hrep] at hreply
    rw [hingest]
    cases hres : (g.execute plan request.body).result with
    | error stop => exact execute_error hc hplan hclean hwhole hres
    | ok outcome => exact absurd (status_stored _) (hreply _ (by rw [hres]; rfl))

end Ingest

end LiveIngest.Upload
