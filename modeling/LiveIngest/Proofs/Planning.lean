import LiveIngest.Proofs.Names
import LiveIngest.Upload.Dispatch

/-!
# What plans can be made

A plan carries everything that was checked about a request: its length is within the limit, and the
name it is stored under is one component of a path that no other kind of upload writes to as a file
in flight.

`Mode.target` is the name a plan stores under.  For every chunked mode it is one of the names of
`Overwrites`; a component, by `isComponent_target`; and by `isPartName_eq` no name of a file in
flight.  These three are what the theorems about the disk need to know of `classify`, and nothing
else of it is used there.
-/

namespace LiveIngest

/-- What was checked about a configuration, as far as paths are concerned: both names are single
components. -/
structure Config.Valid (c : Config) : Prop where
  stream : Storage.Path.IsComponent c.streamName
  raw : Storage.Path.IsComponent c.rawOutputFile

/-- A configuration that passes its check is valid in this sense. -/
theorem Config.valid_of_validate {c : Config} (h : c.validate = .ok ()) : c.Valid := by
  unfold validate at h
  split at h
  · simp at h
  · rename_i hstream
    split at h
    · simp at h
    · rename_i hraw
      exact ⟨Upload.isComponent_of_isBareName (by simpa using hstream),
        Upload.isComponent_of_isBareName (by simpa using hraw)⟩

end LiveIngest

namespace LiveIngest.Upload

open LiveIngest.Storage
open LiveIngest.Storage.Path
open LiveIngest.Text

section

variable {c : Config} {path : String} {headers : Http.Headers}

/-- What stands behind a plan: its mode, its declared length, and that only an upload that may be
empty is empty. -/
theorem classify_ok {plan : Plan} (h : classify c path headers = .ok plan) :
    modeOf c path headers = .ok plan.mode ∧ declaredLength c headers = .ok plan.length ∧
      (plan.length = 0 → plan.mode.takesEmpty c = true) := by
  unfold classify at h
  split at h
  · simp at h
  · rename_i mode hmode
    split at h
    · simp at h
    · rename_i length hlength
      split at h
      · simp at h
      · rename_i hempty
        cases h
        exact ⟨hmode, hlength, fun h0 => Classical.byContradiction fun hn => hempty ⟨h0, hn⟩⟩

/-- A declared length is within the limit, since it is compared with it before anything else is
done. -/
theorem declaredLength_le {n : Nat} (h : declaredLength c headers = .ok n) :
    n ≤ c.maxUploadBytes := by
  unfold declaredLength at h
  split at h
  · simp at h
  · split at h
    · simp at h
    · split at h
      · simp at h
      · cases h
        omega

/-- A whole upload is appended raw or is a form with a boundary. -/
theorem wholeMode_ok {mode : Mode} (h : wholeMode c headers = .ok mode) :
    mode = .rawAppend ∨ ∃ boundary, Form.boundaryOf? (headers.contentType?.getD "") = some boundary ∧
      mode = .form boundary c.uploadField := by
  unfold wholeMode at h
  simp only at h
  split at h
  · split at h
    · simp at h
    · rename_i boundary hboundary
      split at h
      · simp at h
      · cases h
        exact Or.inr ⟨boundary, hboundary, rfl⟩
  · split at h
    · cases h
      exact Or.inl rfl
    · simp at h

/-- A label is stored under one component, which is neither the raw output file nor reserved.  Both
are checked where the mode is decided. -/
theorem modeOf_addressed {name : String} (h : modeOf c path headers = .ok (.addressed name)) :
    c.dashMode = .contentId ∧
      (∃ contentId, headers.contentId? = some contentId ∧ fileNameOf contentId = .ok name) ∧
      name ≠ c.rawOutputFile ∧ isPartName name = false := by
  unfold modeOf at h
  split at h
  · unfold chunkedMode at h
    split at h
    · simp at h
    · rename_i hmode
      split at h
      · simp at h
      · rename_i contentId hid
        split at h
        · simp at h
        · rename_i fileName hname
          split at h
          · simp at h
          · rename_i hres
            cases h
            rw [not_or] at hres
            exact ⟨hmode, ⟨contentId, hid, hname⟩, hres.1, by simpa using hres.2⟩
  · rcases wholeMode_ok h with h' | ⟨boundary, -, h'⟩
    · exact absurd h' (by simp)
    · exact absurd h' (by simp)

/-- A sequenced upload brings the hint of its label, if it has one.  The rest of the label is not
looked at. -/
theorem modeOf_sequenced {hint : Option Segment.Kind}
    (h : modeOf c path headers = .ok (.sequenced hint)) :
    c.dashMode = .sequenced ∧ hint = headers.contentId?.bind Segment.Kind.ofContentId? := by
  unfold modeOf at h
  split at h
  · unfold chunkedMode at h
    split at h
    · rename_i hmode
      cases h
      exact ⟨hmode, rfl⟩
    · split at h
      · simp at h
      · split at h
        · simp at h
        · split at h
          · simp at h
          · simp at h
  · rcases wholeMode_ok h with h' | ⟨boundary, -, h'⟩
    · exact absurd h' (by simp)
    · exact absurd h' (by simp)

end

/-! ## Indices -/

/-- What a session that was just opened issues: the current index, unless the hint disagrees.  A new
session has issued nothing yet, so it cannot be asked too often. -/
theorem issue_begin (k : Nat) (stream : String) (hint : Option Segment.Kind) :
    (∃ kind, hint = some kind ∧ kind ≠ Segment.Kind.ofIndex k ∧
      (Segment.Session.begin k).issue stream hint =
        .error (.outOfOrder (Segment.Kind.ofIndex k) k kind)) ∨
    ((∀ kind, hint = some kind → kind = Segment.Kind.ofIndex k) ∧
      (Segment.Session.begin k).issue stream hint =
        .ok (Segment.Slot.at stream k, ⟨k, some k⟩)) := by
  cases hint with
  | none => exact Or.inr ⟨by simp, rfl⟩
  | some kind =>
    by_cases hk : kind = Segment.Kind.ofIndex k
    · subst hk
      refine Or.inr ⟨fun kind h => (Option.some.inj h).symm, ?_⟩
      simp [Segment.Session.issue, Segment.Session.begin, Segment.Slot.at]
    · refine Or.inl ⟨kind, rfl, hk, ?_⟩
      simp [Segment.Session.issue, Segment.Session.begin, Segment.Slot.at, hk]

/-- The session that issued an index can commit it, and is then one further. -/
theorem commit_issued (k : Nat) :
    (⟨k, some k⟩ : Segment.Session).commit k = .ok ⟨k + 1, some k⟩ := by
  simp [Segment.Session.commit]

/-! ## The names that are overwritten -/

/-- The names that chunked uploads are stored under.  In sequenced mode the program makes them, in
the other mode the client chooses among what is allowed. -/
def Overwrites (c : Config) (name : String) : Prop :=
  match c.dashMode with
  | .sequenced => ∃ k, name = Segment.fileName c.streamName k
  | .contentId => IsComponent name ∧ name ≠ c.rawOutputFile ∧ isPartName name = false

/-- Such a name is one component of a path. -/
theorem Overwrites.isComponent {c : Config} (hc : c.Valid) {name : String}
    (h : Overwrites c name) : IsComponent name := by
  unfold Overwrites at h
  split at h
  · obtain ⟨k, rfl⟩ := h
    exact isComponent_fileName hc.stream k
  · exact h.1

/-- It is not the name of a file in flight either: generated names do not begin with a dot, and
labels are checked. -/
theorem Overwrites.isPartName_eq {c : Config} {name : String} (h : Overwrites c name) :
    isPartName name = false := by
  unfold Overwrites at h
  split at h
  · obtain ⟨k, rfl⟩ := h
    exact isPartName_fileName c.streamName k
  · exact h.2.2

/-- The name that an upload of a mode is stored under, at a counter. -/
def Mode.target (c : Config) (counter : Nat) : Mode → String
  | .rawAppend => c.rawOutputFile
  | .form _ _ => c.rawOutputFile
  | .addressed name => name
  | .sequenced _ => Segment.fileName c.streamName counter

/-- Whether an upload becomes the next segment. -/
def Mode.isSequenced : Mode → Bool
  | .sequenced _ => true
  | _ => false

/-- Only a segment's name depends on the counter. -/
theorem Mode.target_eq {mode : Mode} {c : Config} {k k' : Nat}
    (h : mode.isSequenced = true → k' = k) : mode.target c k' = mode.target c k := by
  cases mode with
  | sequenced hint => rw [h rfl]
  | _ => rfl

/-- Whole uploads all go to the raw output file. -/
theorem target_of_whole {mode : Mode} (h : mode.isChunked = false) (c : Config) (counter : Nat) :
    mode.target c counter = c.rawOutputFile := by
  cases mode with
  | rawAppend => rfl
  | form boundary field => rfl
  | addressed name => exact absurd h (by simp [Mode.isChunked])
  | sequenced hint => exact absurd h (by simp [Mode.isChunked])

section

variable {c : Config} {path : String} {headers : Http.Headers} {plan : Plan}

/-- Chunked uploads overwrite, under the names that were set aside for them. -/
theorem overwrites_target (h : classify c path headers = .ok plan) (hm : plan.mode.isChunked = true)
    (counter : Nat) : Overwrites c (plan.mode.target c counter) := by
  have hmode := (classify_ok h).1
  unfold Overwrites
  cases hp : plan.mode with
  | rawAppend => exact absurd hm (by simp [hp, Mode.isChunked])
  | form boundary field => exact absurd hm (by simp [hp, Mode.isChunked])
  | addressed name =>
    rw [hp] at hmode
    obtain ⟨hdash, ⟨contentId, -, hname⟩, hraw, hpart⟩ := modeOf_addressed hmode
    have hn := isComponent_of_fileNameOf hname
    rw [hdash]
    exact ⟨hn, hraw, hpart⟩
  | sequenced hint =>
    rw [hp] at hmode
    rw [(modeOf_sequenced hmode).1]
    exact ⟨counter, rfl⟩

/-- Where chunked uploads are sequenced, those and no others are.  So in this mode the path alone
tells a segment from the rest. -/
theorem isPrefixOf_chunkedPath (hdash : c.dashMode = .sequenced)
    (h : classify c path headers = .ok plan) :
    chunkedPath.toList.isPrefixOf path.toList = plan.mode.isSequenced := by
  have hmode := (classify_ok h).1
  unfold modeOf at hmode
  split at hmode
  · rename_i hpath
    unfold chunkedMode at hmode
    rw [hdash] at hmode
    rw [hpath, ← Except.ok.inj hmode]
    rfl
  · rename_i hpath
    rw [Bool.eq_false_iff.mpr hpath]
    rcases wholeMode_ok hmode with hm | ⟨boundary, -, hm⟩ <;> rw [hm] <;> rfl

/-- Where chunked uploads are sequenced there is no other kind of them. -/
theorem isSequenced_of_isChunked (hdash : c.dashMode = .sequenced)
    (h : classify c path headers = .ok plan) (hm : plan.mode.isChunked = true) :
    plan.mode.isSequenced = true := by
  have hmode := (classify_ok h).1
  cases hp : plan.mode with
  | sequenced hint => rfl
  | addressed name =>
    rw [hp] at hmode
    exact absurd (hdash.symm.trans (modeOf_addressed hmode).1) (by simp)
  | rawAppend => rw [hp] at hm; cases hm
  | form boundary field => rw [hp] at hm; cases hm

/-- Whatever an upload is stored under is one component of a path, so it stays in the output
directory. -/
theorem isComponent_target (hc : c.Valid) (h : classify c path headers = .ok plan) (counter : Nat) :
    IsComponent (plan.mode.target c counter) := by
  cases hm : plan.mode.isChunked with
  | true => exact (overwrites_target h hm counter).isComponent hc
  | false =>
    rw [target_of_whole hm]
    exact hc.raw

end

/-- The raw output file is not in the way of any file in flight. -/
def Separate (c : Config) : Prop := ∀ name, Overwrites c name → c.rawOutputFile ≠ partName name

/-- A name that is not reserved is in nobody's way. -/
theorem separate_of_isPartName {c : Config} (h : isPartName c.rawOutputFile = false) :
    Separate c := by
  intro name _ he
  rw [he, isPartName_partName] at h
  exact absurd h (by simp)

/-- Where chunked uploads are sequenced, only part files of segments are to be kept clear of.  A
name may then be reserved and still do no harm. -/
theorem separate_of_sequenced {c : Config} (hdash : c.dashMode = .sequenced)
    (h : ∀ k, c.rawOutputFile ≠ partName (Segment.fileName c.streamName k)) : Separate c := by
  intro name hover
  unfold Overwrites at hover
  rw [hdash] at hover
  obtain ⟨k, rfl⟩ := hover
  exact h k

end LiveIngest.Upload
