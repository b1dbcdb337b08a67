import LiveIngest.Proofs.Agreement
import LiveIngest.Proofs.Answering
import LiveIngest.Proofs.Confining
import LiveIngest.Proofs.Sequencing

/-!
# Segments under their own names

The server names its segments, and a client may label what it sends.  This file says that the two fit together:
whoever labels the segments with the names that the server gives them is taken at their word.

1. **Names.**  Every name ends in the suffix of its kind, and which kind a label hints at is decided by that
   suffix alone, whatever stands in front of it (`Kind.ofContentId?_of_suffix`).  So a stream may be called
   `manifest` or `live_1.chk`: the suffix is still that of the segment.

2. **Labels on the wire.**  A label arrives as the bytes of a header, which are trimmed, and are no text at all
   when one of them is not visible.  Neither changes what is hinted at, since no suffix holds a blank: the hint is
   that of the name, or there is none (`Headers.Carry.agrees`).

3. **Uploads.**  A sequencer that is asked for segment after segment under their own names issues and commits
   each of them (`answers_uploads`).  An endpoint may fail to store one, so that the same segment is due again;
   but as storing can only fail as a write (`overwrite_fails`), and the counter is the number of uploads that were
   committed, no such upload is ever refused by the sequencer (`Ingest.execute_labelled`).

`segment_names_agree` puts these together.
-/

namespace LiveIngest.Text

/-- A suffix without blanks is not changed by trimming. -/
theorem suffix_trim {s tail : List Char} (hplain : ∀ c ∈ tail, isBlank c = false) (h : tail <:+ s) :
    tail <:+ trim s := by
  -- trimming leaves the middle of three pieces, of which the outer ones are blank
  obtain ⟨lead, trail, hlead, htrail, hs⟩ := exists_blanks_around s
  obtain ⟨init, hinit⟩ := h
  have hnone : ∀ {both : List Char}, (∀ c ∈ both, isBlank c = true) → both ⊆ tail → both = [] :=
    fun hblank hsub => List.eq_nil_iff_forall_not_mem.mpr fun c hc =>
      Bool.false_ne_true ((hplain c (hsub hc)).symm.trans (hblank c hc))
  -- nothing of the suffix is among the blanks behind,
  have hback : tail <:+ lead ++ trim s := by
    rcases List.append_eq_append_iff.mp (hinit.trans hs) with ⟨more, hmore, htail⟩ | ⟨more, -, htail⟩
    · have hempty := hnone htrail (htail ▸ List.subset_append_right more trail)
      rw [hempty, List.append_nil] at htail
      exact ⟨init, by rw [hmore, htail]⟩
    · have hempty : tail = [] := hnone (fun c hc => htrail c (htail ▸ List.mem_append_right more hc)) fun _ => id
      rw [hempty]
      exact List.nil_suffix
  -- nor among those in front
  obtain ⟨init, hinit⟩ := hback
  rcases List.append_eq_append_iff.mp hinit with ⟨more, hmore, htail⟩ | ⟨more, -, htail⟩
  · have hempty := hnone (fun c hc => hlead c (hmore ▸ List.mem_append_right init hc))
      (htail ▸ List.subset_append_left more (trim s))
    rw [hempty, List.nil_append] at htail
    exact ⟨[], htail⟩
  · exact ⟨more, htail.symm⟩

end LiveIngest.Text

namespace LiveIngest.Segment

open LiveIngest.Text

/-! ## Names -/

/-- What the names of a kind end in. -/
def Kind.suffix : Kind → String
  | .manifest => ".mpd"
  | .header => ".hdr"
  | .chunk => ".chk"

/-- A label that ends in the suffix of a kind, in capitals or not, hints at that kind. -/
theorem Kind.ofContentId?_of_suffix {label : String} {kind : Kind}
    (h : kind.suffix.toList <:+ lower label.toList) : Kind.ofContentId? label = some kind := by
  have hlength : ∀ k : Kind, k.suffix.toList.length = 4 := fun k => by cases k <;> rfl
  have hends : ∀ other : Kind, endsWith (lower label.toList) other.suffix.toList = decide (other = kind) := by
    intro other
    rw [Bool.eq_iff_iff, endsWith_iff, decide_eq_true_eq]
    refine ⟨fun hother => ?_, fun he => he ▸ h⟩
    -- of two suffixes of one length there is only one
    have hsame : other.suffix.toList = kind.suffix.toList :=
      (List.suffix_of_suffix_length_le hother h (by rw [hlength, hlength])).eq_of_length
        (by rw [hlength, hlength])
    revert hsame
    cases other <;> cases kind <;> decide
  have hword : lower label.toList ≠ "manifest".toList := by
    intro he
    rw [he] at h
    revert h
    cases kind <;> decide
  have hmanifest := hends .manifest
  have hheader := hends .header
  have hchunk := hends .chunk
  simp only [Kind.suffix] at hmanifest hheader hchunk
  unfold Kind.ofContentId?
  simp only [hword, false_or, hmanifest, hheader, hchunk]
  cases kind <;> rfl

/-- The same of a suffix in small letters.  The names of the server have no others. -/
theorem Kind.ofContentId?_of_ends {label : String} {kind : Kind} (h : kind.suffix.toList <:+ label.toList) :
    Kind.ofContentId? label = some kind := by
  have hsmall : lower kind.suffix.toList = kind.suffix.toList := by cases kind <;> decide
  refine Kind.ofContentId?_of_suffix ?_
  rw [← hsmall]
  exact h.map Char.toLower

/-- Every name ends in the suffix of its kind, with the name of the stream somewhere in front of it.
-/
theorem suffix_fileName (stream : String) (k : Nat) :
    (Kind.ofIndex k).suffix.toList <:+ (fileName stream k).toList := by
  match k with
  | 0 =>
    rw [Upload.toList_fileName_zero]
    exact List.suffix_append _ _
  | 1 =>
    rw [Upload.toList_fileName_one, ← List.cons_append, ← List.append_assoc]
    exact List.suffix_append _ _
  | k + 2 =>
    rw [Upload.toList_fileName_add_two, ← List.cons_append, ← List.append_assoc, ← List.cons_append,
      ← List.append_assoc]
    exact List.suffix_append _ _

/-- The name of a segment hints at its kind, also if it was trimmed. -/
theorem ofContentId?_fileName (stream : String) (k : Nat) :
    Kind.ofContentId? (fileName stream k) = some (Kind.ofIndex k) ∧
      Kind.ofContentId? (String.ofList (trim (fileName stream k).toList)) = some (Kind.ofIndex k) := by
  have hplain : (Kind.ofIndex k).suffix.toList.all (!isBlank ·) = true := by
    cases Kind.ofIndex k <;> decide
  have hend := suffix_fileName stream k
  refine ⟨Kind.ofContentId?_of_ends hend, Kind.ofContentId?_of_ends ?_⟩
  rw [String.toList_ofList]
  exact suffix_trim (fun c hc => by simpa using List.all_eq_true.mp hplain c hc) hend

/-! ## A client of the sequencer -/

/-- What is asked of a sequencer for a segment that is sent under its own name. -/
def upload (stream : String) (k : Nat) : List Request :=
  [.begin, .next (Kind.ofContentId? (fileName stream k)), .commit k, .finish]

/-- What is asked for the first `n` segments, in order. -/
def uploads (stream : String) (n : Nat) : List Request := (List.range n).flatMap (upload stream)

/-- The answers if a segment is taken. -/
def taken (stream : String) (k : Nat) : List Answer :=
  [.done, .issued (Slot.at stream k), .committed (k + 1), .done]

/-- The segment that is due is taken. -/
theorem serveAll_upload (stream : String) (k : Nat) :
    Sequencer.serveAll ⟨stream, k, none⟩ (upload stream k) = (taken stream k, ⟨stream, k + 1, none⟩) := by
  have hissue : (Session.begin k).issue stream (some (Kind.ofIndex k)) =
      .ok (Slot.at stream k, ⟨k, some k⟩) := if_pos rfl
  have hcommit : Session.commit ⟨k, some k⟩ k = .ok ⟨k + 1, some k⟩ := Upload.commit_issued k
  rw [upload, (ofContentId?_fileName stream k).1]
  simp only [Sequencer.serveAll, Sequencer.serve, Sequencer.holding, hissue, hcommit]
  rfl

/-- So are all of them, one after the other. -/
theorem answers_uploads (stream : String) (n : Nat) :
    (Sequencer.start stream).answers (uploads stream n) = (List.range n).flatMap (taken stream) ∧
      (Sequencer.start stream).after (uploads stream n) = ⟨stream, n, none⟩ := by
  induction n with
  | zero => exact ⟨rfl, rfl⟩
  | succ n ih =>
    have hlast := serveAll_upload stream n
    have hsplit : uploads stream (n + 1) = uploads stream n ++ upload stream n := by
      rw [uploads, List.range_succ, List.flatMap_append, List.flatMap_singleton, uploads]
    rw [hsplit, Sequencer.answers_append, Sequencer.after_append, ih.1, ih.2, List.range_succ,
      List.flatMap_append, List.flatMap_singleton, Sequencer.answers, Sequencer.after, hlast]
    exact ⟨rfl, rfl⟩

end LiveIngest.Segment

namespace LiveIngest.Http

open LiveIngest.Text

/-! ## Labels on the wire -/

/-- What can be read of the bytes of a text is that text. -/
theorem eq_of_visibleText?_ofText {s text : List Char} (h : visibleText? (Bytes.ofText s) = some text) :
    text = s := by
  unfold visibleText? at h
  split at h
  case isFalse => cases h
  rename_i hall
  rw [← Option.some.inj h]
  clear h
  induction s with
  | nil => rfl
  | cons c r ih =>
    rw [Bytes.ofText_cons, List.all_append, Bool.and_eq_true] at hall
    rw [Bytes.ofText_cons, List.map_append, ih hall.2]
    -- a visible byte stands for a character of its own
    rcases Bytes.utf8EncodeChar_cases c with ⟨henc, hsmall⟩ | ⟨-, hlarge⟩
    · rw [henc, List.map_singleton, UInt8.toNat_ofNat', Nat.mod_eq_of_lt (by omega), Char.ofNat_toNat]
      rfl
    · -- the bytes of other characters are not visible
      obtain ⟨b, hb⟩ := List.exists_mem_of_ne_nil _ (String.utf8EncodeChar_ne_nil (c := c))
      have hbyte := hlarge b hb
      have hvisible := List.all_eq_true.mp hall.1 b hb
      simp only [isVisible, Bool.or_eq_true, beq_iff_eq, Bool.and_eq_true, decide_eq_true_eq,
        UInt8.lt_iff_toNat_lt] at hvisible
      rcases hvisible with rfl | ⟨-, hlt⟩
      · exact absurd hbyte (by decide)
      · have h127 : (127 : UInt8).toNat = 127 := by decide
        omega

/-- A label that is the name of a segment hints at its kind, if it can be read at all. -/
theorem Headers.Carry.agrees {headers : Headers} {stream : String} {k : Nat}
    (h : headers.Carry "x-content-id" (Segment.fileName stream k)) :
    Segment.Agrees (headers.contentId?.bind Segment.Kind.ofContentId?) k := by
  intro kind hkind
  rw [Headers.contentId?, h.get?_eq] at hkind
  cases htext : visibleText? (Bytes.ofText (Segment.fileName stream k).toList) with
  | none => rw [htext] at hkind; cases hkind
  | some text =>
    rw [htext, eq_of_visibleText?_ofText htext, Option.map_some, Option.bind_some,
      (Segment.ofContentId?_fileName stream k).2] at hkind
    exact (Option.some.inj hkind).symm

end LiveIngest.Http

namespace LiveIngest.Upload

open LiveIngest.Body
open LiveIngest.Storage

/-! ## Uploads -/

/-- A result of what cannot fail in another way than a write does. -/
def FailsAsWrite {α : Type} (result : Except Stop α) : Prop :=
  ∀ cause, result = .error (.failed cause) → ∃ fault, cause = .write fault

/-- A write fails as a write. -/
theorem failsAsWrite_error {α : Type} (fault : WriteFault) :
    FailsAsWrite (.error (.failed (.write fault)) : Except Stop α) := by
  rintro cause ⟨⟩
  exact ⟨fault, rfl⟩

/-- What a step fails with is passed on. -/
theorem FailsAsWrite.passed {α β : Type} {stop : Stop} (h : FailsAsWrite (.error stop : Except Stop α)) :
    FailsAsWrite (.error stop : Except Stop β) := by
  rintro cause ⟨⟩
  exact h cause rfl

/-- These go through an overwrite from the inside out.  Flushing and closing are writes. -/
theorem settle_fails (handle : Handle) (path : String) : FailsAsWrite (settle handle path) := by
  unfold settle
  split
  · exact failsAsWrite_error _
  · split
    · exact failsAsWrite_error _
    · rintro cause ⟨⟩

/-- A rename that fails is a failed write. -/
theorem publish_fails (t : Tree) (part destination : String) :
    FailsAsWrite (publish t part destination).1 := by
  unfold publish
  split
  · exact failsAsWrite_error _
  · rintro cause ⟨⟩

/-- So is a part file that is not created. -/
theorem startStreaming_fails (timeout : Span) (declared start : Nat) (body : Schedule) (part : String)
    (t : Tree) : FailsAsWrite (startStreaming timeout declared start body part t).1 := by
  unfold startStreaming
  split
  · exact failsAsWrite_error _
  · simp only
    split <;> rintro cause ⟨⟩

/-- A turn that is the last one fails as a write, or not at all. -/
theorem Streaming.step_fails {s : Streaming} {part : String} {t t' : Tree} {result : Except Stop Unit}
    {reading : Reading} (h : s.step part t = (.done result reading, t')) : FailsAsWrite result := by
  unfold step at h
  split at h
  · simp only [Prod.mk.injEq, Turn.done.injEq] at h
    rw [← h.1.1]
    exact settle_fails _ _
  · split at h
    · simp only [Prod.mk.injEq, Turn.done.injEq] at h
      rw [← h.1.1]
      rintro cause ⟨⟩
    · simp only [Prod.mk.injEq, Turn.done.injEq] at h
      rw [← h.1.1]
      exact failsAsWrite_error _
    · simp only at h
      split at h
      · simp only [Prod.mk.injEq, Turn.done.injEq] at h
        rw [← h.1.1]
        exact failsAsWrite_error _
      · simp at h

/-- A loop fails as its last turn does. -/
theorem Streaming.run_fails (s : Streaming) (part : String) (t : Tree) :
    FailsAsWrite (s.run part t).1.1 := by
  fun_induction Streaming.run s part t with
  | case1 s t result reading t' hstep => exact step_fails hstep
  | case2 s t s' t' hstep ih => exact ih

/-- An overwrite fails as a write, or not at all.  In particular the sequencer is never to blame for
it. -/
theorem overwrite_fails (timeout : Span) (declared start : Nat) (body : Schedule) (destination : String)
    (t : Tree) : FailsAsWrite (overwrite timeout declared start body destination t).result := by
  have hstream : FailsAsWrite (stream timeout declared start body destination t).1.1 := by
    have hstart := startStreaming_fails timeout declared start body (partPath destination) t
    unfold stream
    simp only
    split
    · rename_i heq
      rw [heq] at hstart
      exact hstart.passed
    · rename_i s t' _
      have hrun := s.run_fails (partPath destination) t'
      split
      · rename_i heq
        rw [heq] at hrun
        exact hrun.passed
      · exact publish_fails _ _ _
  unfold overwrite
  split
  · rintro cause ⟨⟩
  · rename_i heq
    rw [heq] at hstream
    exact hstream.passed

-- what it can fail with is all that matters of it from here on
attribute [local irreducible] overwrite

/-- A segment that is sent under its own name is not refused by the sequencer.  The label hints at
the kind that is due, and the commit is the one of the index that was issued. -/
theorem Ingest.execute_labelled {g : Ingest} {request : Request} {plan : Plan}
    (hdash : g.config.dashMode = .sequenced) (hpath : chunkedPath.toList <+: request.path.toList)
    (hlabel : request.headers.Carry "x-content-id" (Segment.fileName g.config.streamName g.counter))
    (hplan : classify g.config request.path request.headers = .ok plan) (fault : SequenceFault) :
    (g.execute plan request.body).result ≠ .error (.failed (.sequence fault)) := by
  have hmode : plan.mode = .sequenced (request.headers.contentId?.bind Segment.Kind.ofContentId?) := by
    have hmodeOf := (classify_ok hplan).1
    rw [modeOf, if_pos (List.isPrefixOf_iff_prefix.mpr hpath), chunkedMode, hdash] at hmodeOf
    exact (Except.ok.inj hmodeOf).symm
  rcases execute_sequenced hmode request.body with ⟨kind, hkind, hne, -⟩ | ⟨-, events, hexec⟩
  · exact absurd (hlabel.agrees kind hkind) hne
  · have hfails : FailsAsWrite (g.overwriting (Segment.fileName g.config.streamName g.counter)
        plan.length request.body).result := overwrite_fails _ _ _ _ _ _
    rw [hexec]
    intro hresult
    obtain ⟨cause, hcause⟩ := hfails _ hresult
    cases hcause

/-- Different segments of a stream have different names.  Each name hints at the kind of its segment, so a client
that sends segment after segment under these names is not told that they are out of order: a sequencer takes all
of them, and an endpoint, whatever was uploaded before, does not refuse the segment that is due next.  No name is
that of a file in flight, and if the stream has a bare name, so have the segments. -/
theorem segment_names_agree (stream : String) :
    (∀ j k, Segment.fileName stream j = Segment.fileName stream k ↔ j = k) ∧
    (∀ k, Segment.Kind.ofContentId? (Segment.fileName stream k) = some (Segment.Kind.ofIndex k)) ∧
    (∀ n, (Segment.Sequencer.start stream).answers (Segment.uploads stream n) =
      (List.range n).flatMap (Segment.taken stream)) ∧
    (∀ (c : Config) (tree : Tree) (before : List Request) (request : Request) (plan : Plan),
      c.dashMode = .sequenced → c.streamName = stream → chunkedPath.toList <+: request.path.toList →
      request.headers.Carry "x-content-id"
        (Segment.fileName stream ((Ingest.start c tree).committed before)) →
      classify c request.path request.headers = .ok plan →
      ∀ fault, (((Ingest.start c tree).dispatchAll before).2.execute plan request.body).result ≠
        .error (.failed (.sequence fault))) ∧
    (∀ k, isPartName (Segment.fileName stream k) = false) ∧
    (Config.isBareName stream = true → ∀ k, Config.isBareName (Segment.fileName stream k) = true) := by
  refine ⟨fun j k => ⟨fileName_injective, congrArg _⟩, fun k => (Segment.ofContentId?_fileName stream k).1,
    fun n => (Segment.answers_uploads stream n).1, ?_, isPartName_fileName stream, isBareName_fileName⟩
  intro c tree before request plan hdash hstream hpath hlabel hplan fault
  have hconfig : ((Ingest.start c tree).dispatchAll before).2.config = c := Ingest.config_dispatchAll _ _
  have hcounter : ((Ingest.start c tree).dispatchAll before).2.counter =
      (Ingest.start c tree).committed before :=
    (Ingest.counter_dispatchAll _ _).trans (Nat.zero_add _)
  -- the counter is what the label was made for
  refine Ingest.execute_labelled ?_ hpath ?_ ?_ fault
  · rw [hconfig, hdash]
  · rw [hconfig, hcounter, hstream]
    exact hlabel
  · rw [hconfig]
    exact hplan

/-- A stream whose name looks like that of a chunk: its manifest is stored, its header is cut off on the way, and
the header is sent once more. -/
theorem segment_names_agree_resent :
    let stream := "manifest_1.chk"
    let c : Config := { streamName := stream }
    let labelled (k : Nat) (body : Schedule) : Request :=
      ⟨"/dash/up", [⟨"Content-Length", Bytes.ofString "2"⟩,
        ⟨"X-Content-Id", Bytes.ofString (Segment.fileName stream k)⟩], body⟩
    let before := [labelled 0 [⟨0, .data [1, 2]⟩], labelled 1 [⟨0, .data [3]⟩]]
    let request := labelled 1 [⟨0, .data [3, 4]⟩]
    let start := Ingest.start c Tree.empty
    Config.isBareName stream = true ∧ c.dashMode = .sequenced ∧ start.committed before = 1 ∧
      chunkedPath.toList <+: request.path.toList ∧
      request.headers.Carry "x-content-id" (Segment.fileName stream (start.committed before)) ∧
      classify c request.path request.headers = .ok ⟨.sequenced (some .header), 2⟩ ∧
      (∀ fault, ((start.dispatchAll before).2.execute ⟨.sequenced (some .header), 2⟩ request.body).result ≠
        .error (.failed (.sequence fault))) ∧
      ∀ k, Config.isBareName (Segment.fileName stream k) = true := by
  intro stream c labelled before request start
  have hbare : Config.isBareName stream = true := by decide +kernel
  have hcommitted : start.committed before = 1 := by decide +kernel
  have hpath : chunkedPath.toList <+: request.path.toList :=
    List.isPrefixOf_iff_prefix.mp (by decide +kernel)
  have hlabel : request.headers.Carry "x-content-id" (Segment.fileName stream (start.committed before)) := by
    rw [hcommitted]
    exact ⟨[_], _, [], rfl, ⟨by decide +kernel, rfl⟩, by simp⟩
  have hplan : classify c request.path request.headers = .ok ⟨.sequenced (some .header), 2⟩ := by
    decide +kernel
  obtain ⟨-, -, -, hserved, -, hnames⟩ := segment_names_agree stream
  exact ⟨hbare, rfl, hcommitted, hpath, hlabel, hplan,
    hserved c Tree.empty before request _ rfl rfl hpath hlabel hplan, hnames hbare⟩

end LiveIngest.Upload
