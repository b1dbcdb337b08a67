import LiveIngest.Proofs.Writers

/-!
# Uploads stay in the output directory

Whatever is uploaded, and whatever the requests say about its name, serving it works on files of the
output directory only, and on few of those: the raw output file, the files of segments, the files of
labels that are accepted, and the part files of the latter two.

1. **Names.**  All these are bare names: no separator of either style, no dot name, not empty.  They
   come from the checks of the configuration, from taking labels apart, and from what is put around
   them (`isBareName_fileName`, `isBareName_of_fileNameOf`, `isBareName_partName`).

2. **Paths.**  A destination is the output directory joined with its name.  Its part file has a path
   that is made from that by replacing the last name, which is the output directory joined with the
   name of the part file, up to separators and `.` components that do not count (`Path.Same`).

3. **Operations.**  `Task.operations` lists the file operations of a move, and `Move.tree_eq` says that
   the disk afterwards is what they make of it: nothing else happens to the disk.

`uploads_confined` is the main result; it says where the operations of a whole run go, on paper and on
disk.

That the paths are right on paper and the writes are right on disk are two statements.  The first is
about texts, by `Task.Within.paths`; the second is about locations, by `Deed.touches`.  They are
carried along a run together, as `Machine.Traced`.
-/

namespace LiveIngest.Storage.Path

open LiveIngest.Text

/-! ## Paths that are the same -/

/-- The components that count: a `.` does so only at the front of a path that does not start at the
root. -/
def counting (path : String) : List String :=
  if isAbsolute path then (components path).filter (· ≠ ".")
  else (components path).take 1 ++ ((components path).drop 1).filter (· ≠ ".")

/-- Two texts of one path.  Separators at the end and in a row, and `.` components that do not
count, are all they differ in. -/
structure Same (p q : String) : Prop where
  isAbsolute : isAbsolute p = isAbsolute q
  counting : counting p = counting q

/-- Every path is the same as itself. -/
theorem Same.refl (p : String) : Same p p := ⟨rfl, rfl⟩

/-- A path that is not empty and does not start at the root starts with a component. -/
theorem components_ne_nil {path : String} (habs : isAbsolute path = false)
    (hne : path.toList ≠ []) : components path ≠ [] := by
  cases hp : path.toList with
  | nil => exact absurd hp hne
  | cons c rest =>
    have hc : c ≠ '/' := by
      rintro rfl
      simp [isAbsolute, hp] at habs
    rw [components_eq_pieces, hp, pieces, splitOn]
    cases hs : splitOn (· = '/') rest with
    | nil => exact absurd hs (splitOn_ne_nil _ _)
    | cons piece more => simp [hc, extendHead]

/-- Only of an empty path nothing is left without its tail.  The first character of a path is never
trimmed. -/
theorem components_eq_nil_of_dirOf {dir : String} (h : (dirOf dir).toList = []) :
    components dir = [] := by
  rw [dirOf, String.toList_ofList, List.reverse_eq_nil_iff] at h
  have hlast := getLast?_trimTail (stem dir).reverse
  rw [h, List.getLast?_nil, eq_comm, List.getLast?_eq_none_iff, List.reverse_eq_nil_iff] at hlast
  rw [← pieces_stem, hlast, pieces_nil]

/-- Without its tail a directory joins to the same path.  The `.` components that were taken off
stand behind others, where they do not count. -/
theorem same_join_dirOf {dir name : String} (h : IsComponent name) :
    Same (join (dirOf dir) name) (join dir name) := by
  have habs : isAbsolute (join (dirOf dir) name) = isAbsolute (join dir name) := by
    rw [isAbsolute_join h, isAbsolute_join h, isAbsolute_dirOf]
  refine ⟨habs, ?_⟩
  obtain ⟨n, hn⟩ := components_dirOf dir
  rw [counting, counting, habs, components_join h, components_join h, hn, isAbsolute_join h]
  split
  · simp [List.filter_append]
  · rename_i hrel
    cases hd : components (dirOf dir) with
    | cons first rest => simp [List.filter_append]
    | nil =>
      -- a directory of which nothing is left was empty before, so no `.` was taken off
      have hempty : (dirOf dir).toList = [] := Classical.byContradiction fun hne =>
        components_ne_nil (by rw [isAbsolute_dirOf]; simpa using hrel) hne hd
      have hdir := components_eq_nil_of_dirOf hempty
      rw [hdir, hd, List.nil_append] at hn
      rw [← hn]
      rfl

end LiveIngest.Storage.Path

namespace LiveIngest.Upload

open LiveIngest.Body
open LiveIngest.Storage
open LiveIngest.Storage.Path
open LiveIngest.Text

/-! ## Bare names -/

/-- A bare name is a component that holds no backslash. -/
theorem isBareName_iff {name : String} :
    Config.isBareName name = true ↔ IsComponent name ∧ '\\' ∉ name.toList := by
  refine ⟨fun h => ⟨isComponent_of_isBareName h, ?_⟩, fun ⟨h, hback⟩ => ?_⟩
  · simp only [Config.isBareName, Bool.and_eq_true, Bool.not_eq_true'] at h
    simpa using h.2
  · have hslash := h.no_slash
    simp [Config.isBareName, h.ne_empty, h.ne_dot, h.ne_dots, hslash, hback]

/-- The name of a part file is bare, since what is put around the name is. -/
theorem isBareName_partName {name : String} (h : Config.isBareName name = true) :
    Config.isBareName (partName name) = true := by
  obtain ⟨hn, hback⟩ := isBareName_iff.mp h
  refine isBareName_iff.mpr ⟨isComponent_partName hn, fun hmem => ?_⟩
  rw [toList_partName] at hmem
  rcases List.mem_cons.mp hmem with he | hmem
  · exact absurd he (by decide)
  · rcases List.mem_append.mp hmem with hmem | hmem
    · exact hback hmem
    · exact absurd hmem (by decide)

/-- A label is taken apart at separators of either style. -/
theorem isBareName_of_fileNameOf {label name : String} (h : fileNameOf label = .ok name) :
    Config.isBareName name = true :=
  isBareName_iff.mpr ⟨isComponent_of_fileNameOf h, fun hback =>
    absurd (not_isSeparator_of_fileNameOf h _ hback) (by decide)⟩

/-- Segments of a bare stream name have bare names: an underscore, digits and an extension are
added. -/
theorem isBareName_fileName {stream : String} (h : Config.isBareName stream = true) (k : Nat) :
    Config.isBareName (Segment.fileName stream k) = true := by
  obtain ⟨hn, hback⟩ := isBareName_iff.mp h
  refine isBareName_iff.mpr ⟨isComponent_fileName hn k, fun hmem => ?_⟩
  match k with
  | 0 =>
    rw [toList_fileName_zero] at hmem
    rcases List.mem_append.mp hmem with hmem | hmem
    · exact hback hmem
    · exact absurd hmem (by decide)
  | 1 =>
    rw [toList_fileName_one] at hmem
    simp [hback] at hmem
  | k + 2 =>
    have hdigits : '\\' ∉ Nat.toDigits 10 (k + 1) := fun hmem =>
      absurd (Nat.isDigit_of_mem_toDigits (by decide) (by decide) hmem) (by decide)
    rw [toList_fileName_add_two] at hmem
    simp [hback, hdigits] at hmem

end LiveIngest.Upload

namespace LiveIngest

open LiveIngest.Upload

/-- What was checked about a configuration, with both styles of separators. -/
structure Config.Bare (c : Config) : Prop where
  stream : isBareName c.streamName = true
  raw : isBareName c.rawOutputFile = true

/-- Both names of a configuration are checked for this. -/
theorem Config.bare_of_validate {c : Config} (h : c.validate = .ok ()) : c.Bare := by
  unfold validate at h
  split at h
  · simp at h
  · rename_i hstream
    split at h
    · simp at h
    · rename_i hraw
      exact ⟨by simpa using hstream, by simpa using hraw⟩

/-- The names that chunked uploads are stored under: those of segments, or the labels that are
accepted, as the mode of chunked uploads is. -/
inductive Config.Accepts (c : Config) : String → Prop
  | segment (hdash : c.dashMode = .sequenced) (k : Nat) : c.Accepts (Segment.fileName c.streamName k)
  | label {label name : String} (hdash : c.dashMode = .contentId)
      (hname : fileNameOf label = .ok name) (hraw : name ≠ c.rawOutputFile)
      (hpart : isPartName name = false) : c.Accepts name

/-- The names that serving uploads works on. -/
inductive Config.Serves (c : Config) : String → Prop
  | raw : c.Serves c.rawOutputFile
  | chunked {name : String} (h : c.Accepts name) : c.Serves name
  | part {name : String} (h : c.Accepts name) : c.Serves (partName name)

namespace Config

variable {c : Config} {name : String}

/-- What is accepted for chunked uploads is bare, in both modes. -/
theorem Accepts.isBareName (hc : c.Bare) (h : c.Accepts name) : isBareName name = true := by
  cases h with
  | segment hdash k => exact isBareName_fileName hc.stream k
  | label hdash hname hraw hpart => exact isBareName_of_fileNameOf hname

/-- So every name that is worked on is bare. -/
theorem Serves.isBareName (hc : c.Bare) (h : c.Serves name) : isBareName name = true := by
  cases h with
  | raw => exact hc.raw
  | chunked h => exact h.isBareName hc
  | part h => exact isBareName_partName (h.isBareName hc)

/-- Chunked uploads are stored under names that are accepted, whatever the counter. -/
theorem accepts_target {path : String} {headers : Http.Headers} {plan : Plan}
    (h : classify c path headers = .ok plan) (hmode : plan.mode.isChunked = true) (k : Nat) :
    c.Accepts (plan.mode.target c k) := by
  have hof := (classify_ok h).1
  cases hm : plan.mode with
  | addressed name =>
    rw [hm] at hof
    obtain ⟨hdash, ⟨label, -, hname⟩, hraw, hpart⟩ := modeOf_addressed hof
    exact .label hdash hname hraw hpart
  | sequenced hint =>
    rw [hm] at hof
    exact .segment (modeOf_sequenced hof).1 k
  | _ => rw [hm] at hmode; cases hmode

end Config

end LiveIngest

namespace LiveIngest.Traffic

open LiveIngest.Body
open LiveIngest.Storage
open LiveIngest.Storage.Path
open LiveIngest.Upload

/-- The names of an endpoint: it appends to its raw output file and overwrites what it accepts. -/
def Names.ofConfig (c : Config) (hc : c.Bare) : Names where
  appended := (· = c.rawOutputFile)
  overwritten := c.Accepts
  component h := by
    rcases h with rfl | h
    · exact isComponent_of_isBareName hc.raw
    · exact isComponent_of_isBareName (h.isBareName hc)

/-- Whatever may come in keeps to these names. -/
theorem Names.admits_ofConfig (c : Config) (hc : c.Bare) : (Names.ofConfig c hc).Admits c :=
  ⟨rfl, Config.accepts_target⟩

/-! ## File operations -/

/-- What is done to the disk, with the paths that it is done to. -/
inductive FileOperation
  /-- Opens a file, which is made if it is missing, and writes at its end. -/
  | append (path : String) (payload : Bytes)
  /-- Opens a file, which is made if it is missing and emptied otherwise. -/
  | create (path : String)
  /-- Writes to the file of that path, which is open. -/
  | write (path : String) (handle : Handle) (bytes : Bytes)
  | rename (source target : String)
  | remove (path : String)

namespace FileOperation

/-- The paths of an operation.  Only a rename has two. -/
def paths : FileOperation → List String
  | append path _ => [path]
  | create path => [path]
  | write path _ _ => [path]
  | rename source target => [source, target]
  | remove path => [path]

/-- The disk after an operation, also if it fails.  An append that fails may have written something,
and so may a write. -/
def perform (t : Tree) : FileOperation → Tree
  | append path payload => (appendPayload t path payload).2
  | create path =>
    match t.create path with
    | .error _ => t
    | .ok (_, t') => t'
  | write _ handle bytes => (handle.write t bytes).2
  | rename source target =>
    match t.rename source target with
    | .error _ => t
    | .ok t' => t'
  | remove path =>
    match t.unlink path with
    | .error _ => t
    | .ok t' => t'

end FileOperation

/-- The disk after a list of operations. -/
def performAll (t : Tree) (ops : List FileOperation) : Tree := ops.foldl FileOperation.perform t

/-- Operations one after the other. -/
theorem performAll_append (t : Tree) (ops ops' : List FileOperation) :
    performAll t (ops ++ ops') = performAll (performAll t ops) ops' := List.foldl_append ..

/-- The operations of a turn of streaming: none at the end of the body, and none if no piece comes.
-/
def turnOperations (s : Streaming) (part : String) : List FileOperation :=
  if s.reading.remaining = 0 then []
  else
    match s.reading.await with
    | .piece bytes after => [.write part s.handle (after.accept bytes).1]
    | _ => []

/-- The operations of whoever starts to stream and comes to a stage by that.  A reading that breaks
down at once has made its part file and removes it. -/
def startOperations (part : String) : Stage → List FileOperation
  | .streaming .. => [.create part]
  | .dropping .. => [.create part]
  | .broken _ => [.create part, .remove part]
  | _ => []

/-- The operations of whoever streams and comes to a stage by that. -/
def streamOperations (s : Streaming) (part : String) : Stage → List FileOperation
  | .cancelled _ => [.remove part]
  | .broken _ => turnOperations s part ++ [.remove part]
  | _ => turnOperations s part

/-- The operations of whoever appends, which are none if it is cancelled before. -/
def appendOperations (destination : String) (payload : Bytes) : Stage → List FileOperation
  | .cancelled _ => []
  | _ => [.append destination payload]

/-- The operations of a task that goes on to another stage.  Where it goes matters only for those
that are cancelled or break down, as they clean up instead. -/
def Task.operations (t : Task) (next : Stage) : List FileOperation :=
  match t.stage with
  | .waiting _ d (.append payload _) _ => appendOperations d payload next
  | .waiting _ d (.overwrite _ _) _ => startOperations (partPath d) next
  | .streaming _ d s _ => streamOperations s (partPath d) next
  | .publishing _ d _ _ => [.rename (partPath d) d]
  | .dropping _ d _ _ => [.remove (partPath d)]
  | _ => []

/-- The operations of one happening.  Only tasks that move have any. -/
def Machine.operations (m m' : Machine) : Machine.Happening → List FileOperation
  | .move i | .disconnect i =>
    match m.tasks[i]?, m'.tasks[i]? with
    | some t, some t' => t.operations t'.stage
    | _, _ => []
  | _ => []

/-! ## Nothing else happens to the disk -/

/-- Starting to stream creates the part file and does nothing else, also if it fails. -/
theorem tree_startStreaming {timeout : Span} {declared start : Nat} {body : Schedule}
    {part : String} {t t' : Tree} {r : Except Stop Streaming}
    (h : startStreaming timeout declared start body part t = (r, t')) :
    t' = performAll t [.create part] := by
  unfold startStreaming at h
  show t' = FileOperation.perform t (.create part)
  unfold FileOperation.perform
  split at h
  · rename_i e he
    simp only [he]
    exact (Prod.mk.inj h).2.symm
  · rename_i target t₁ he
    simp only [he]
    simp only at h
    split at h <;> exact (Prod.mk.inj h).2.symm

/-- A turn of streaming writes the piece that came, if one did. -/
theorem tree_step {s : Streaming} {part : String} {t t' : Tree} {r : Turn Streaming Unit}
    (h : s.step part t = (r, t')) : t' = performAll t (turnOperations s part) := by
  unfold Streaming.step at h
  unfold turnOperations
  split at h
  · rename_i hrem
    rw [if_pos hrem]
    exact (Prod.mk.inj h).2.symm
  · rename_i hrem
    rw [if_neg hrem]
    split at h
    · rename_i ha
      simp only [ha]
      exact (Prod.mk.inj h).2.symm
    · rename_i fault after ha
      simp only [ha]
      exact (Prod.mk.inj h).2.symm
    · rename_i bytes after ha
      simp only [ha]
      simp only at h
      show t' = (s.handle.write t (after.accept bytes).1).2
      split at h
      · rename_i e t₁ hw
        rw [hw, (Prod.mk.inj h).2]
      · rename_i handle t₁ hw
        rw [hw, (Prod.mk.inj h).2]

/-- Publishing is a rename. -/
theorem tree_publish {part destination : String} {t t' : Tree} {r : Except Stop Unit}
    (h : publish t part destination = (r, t')) :
    t' = performAll t [.rename part destination] := by
  unfold publish at h
  show t' = FileOperation.perform t (.rename part destination)
  unfold FileOperation.perform
  split at h
  · rename_i e he
    simp only [he]
    exact (Prod.mk.inj h).2.symm
  · rename_i t₁ he
    simp only [he]
    exact (Prod.mk.inj h).2.symm

/-- Dropping is a removal.  That the file may be gone already is no error, but it is an operation
all the same. -/
theorem tree_dropPart (t : Tree) (part : String) :
    (dropPart t part).1 = performAll t [.remove part] := by
  show _ = match t.unlink part with
    | .error _ => t
    | .ok t' => t'
  unfold dropPart
  cases t.unlink part with
  | ok t' => rfl
  | error e => cases e <;> rfl

section

variable {n : Names} {c : Config} {clock : Nat} {i : TaskId} {w w' : Shared} {t t' : Task}

-- what the file operations do is told by their lemmas
attribute [local irreducible] dropPart startStreaming Streaming.step publish appendRead partPath

/-- The operations of whoever vanishes are all that happens to the disk: its part file is removed,
if it has one. -/
theorem Gone.tree_eq {tree : Tree} {s : Stage} (h : Gone c clock i w t tree s) :
    tree = performAll w.tree (t.operations s) := by
  unfold Task.operations
  cases h with
  | waiting hs =>
    rename_i plan d work l
    cases work <;> simp only [hs] <;> rfl
  | queued hs | buffering hs | unstarted hs | uncollected hs | unreported hs =>
    simp only [hs]
    rfl
  | streaming hs =>
    simp only [hs]
    exact tree_dropPart _ _
  | uncreated hs hheld h =>
    simp only [hs]
    rw [tree_dropPart, tree_startStreaming h, ← performAll_append]
    rfl
  | unstreamed hs h =>
    simp only [hs]
    rw [tree_dropPart, tree_step h, ← performAll_append]
    rfl

/-- The operations of a move are all that happens to the disk.  Each case is the closed form of one
function of the writer. -/
theorem Move.tree_eq (h : Move c clock i w t w' t') :
    w'.tree = performAll w.tree (t.operations t'.stage) := by
  cases h with
  | quiet h =>
    have hnone : t.operations t'.stage = [] := by
      unfold Task.operations
      cases h <;> simp_all
    rw [hnone]
    rfl
  | vanish h => exact h.tree_eq
  | append hs =>
    unfold Task.operations
    simp only [hs]
    exact (appendRead_result _ _ _ w.tree).2.1
  | create hs hheld h | createFails hs hheld h =>
    unfold Task.operations
    simp only [hs]
    exact tree_startStreaming h
  | streamOn hs h | streamed hs h | streamFails hs h =>
    unfold Task.operations
    simp only [hs]
    exact tree_step h
  | publish hs h | publishFails hs h =>
    unfold Task.operations
    simp only [hs]
    exact tree_publish h
  | drop hs =>
    unfold Task.operations
    simp only [hs]
    exact tree_dropPart _ _
  | enqueue hs | refer hs | ask hs | unlock hs | release hs | count hs | leave hs =>
    unfold Task.operations
    simp only [hs]
    rfl

/-! ## Where operations go -/

/-- A path is that of a name, or of its part file if the name is overwritten. -/
inductive Names.Path (n : Names) (c : Config) : String → Prop
  | appended {name} (h : n.appended name) : n.Path c (c.destination name)
  | overwritten {name} (h : n.overwritten name) : n.Path c (c.destination name)
  | part {name} (h : n.overwritten name) : n.Path c (partPath (c.destination name))

/-- All operations of a list are on one path. -/
def WorksOn (path : String) (ops : List FileOperation) : Prop :=
  ∀ op ∈ ops, ∀ p ∈ op.paths, p = path

/-- No operation is on no path. -/
theorem worksOn_nil (path : String) : WorksOn path [] := by
  intro op hop
  exact absurd hop List.not_mem_nil

/-- One more operation on that path. -/
theorem worksOn_cons {path : String} {op : FileOperation} {ops : List FileOperation}
    (hop : op.paths = [path]) (hops : WorksOn path ops) : WorksOn path (op :: ops) := by
  intro op' hop' p hp
  rcases List.mem_cons.mp hop' with rfl | hop'
  · rw [hop] at hp
    exact List.mem_singleton.mp hp
  · exact hops op' hop' p hp

/-- Two lists of operations on that path. -/
theorem WorksOn.append {path : String} {ops ops' : List FileOperation} (h : WorksOn path ops)
    (h' : WorksOn path ops') : WorksOn path (ops ++ ops') := by
  intro op hop
  rcases List.mem_append.mp hop with hop | hop
  · exact h op hop
  · exact h' op hop

/-- Who starts to stream works on the part file. -/
theorem worksOn_startOperations (part : String) (next : Stage) :
    WorksOn part (startOperations part next) := by
  cases next with
  | streaming | dropping => exact worksOn_cons rfl (worksOn_nil part)
  | broken => exact worksOn_cons rfl (worksOn_cons rfl (worksOn_nil part))
  | _ => exact worksOn_nil part

/-- A turn of streaming works on the part file. -/
theorem worksOn_turnOperations (s : Streaming) (part : String) :
    WorksOn part (turnOperations s part) := by
  unfold turnOperations
  split
  · exact worksOn_nil part
  · split
    · exact worksOn_cons rfl (worksOn_nil part)
    · exact worksOn_nil part

/-- Who streams works on the part file. -/
theorem worksOn_streamOperations (s : Streaming) (part : String) (next : Stage) :
    WorksOn part (streamOperations s part next) := by
  have hremove : WorksOn part [.remove part] := worksOn_cons rfl (worksOn_nil part)
  cases next with
  | cancelled => exact hremove
  | broken => exact (worksOn_turnOperations s part).append hremove
  | _ => exact worksOn_turnOperations s part

/-- Who appends works on the destination. -/
theorem worksOn_appendOperations (destination : String) (payload : Bytes) (next : Stage) :
    WorksOn destination (appendOperations destination payload next) := by
  cases next with
  | cancelled => exact worksOn_nil destination
  | _ => exact worksOn_cons rfl (worksOn_nil destination)

/-- A task that keeps to the names works on their paths.  Only the four stages at which something is
done to the disk are to be looked at. -/
theorem Task.Within.paths {tree : Tree} {next : Stage} (h : t.Within n c tree) {op : FileOperation}
    (hop : op ∈ t.operations next) {path : String} (hpath : path ∈ op.paths) : n.Path c path := by
  unfold Within at h
  unfold operations at hop
  cases hs : t.stage with
  | waiting plan d work l =>
    simp only [hs] at h
    obtain ⟨name, rfl, hname⟩ := h
    cases work with
    | append payload reading =>
      simp only [hs] at hop
      rw [worksOn_appendOperations _ payload next op hop path hpath]
      exact .appended hname
    | overwrite declared body =>
      simp only [hs] at hop
      rw [worksOn_startOperations _ next op hop path hpath]
      exact .part hname
  | streaming plan d s l =>
    simp only [hs] at h hop
    obtain ⟨name, k, rfl, hname, -⟩ := h
    rw [worksOn_streamOperations s _ next op hop path hpath]
    exact .part hname
  | publishing plan d reading l =>
    simp only [hs] at h hop
    obtain ⟨name, k, rfl, hname, -⟩ := h
    rw [List.mem_singleton.mp hop] at hpath
    rcases List.mem_cons.mp hpath with rfl | hpath
    · exact .part hname
    · rw [List.mem_singleton.mp hpath]
      exact .overwritten hname
  | dropping plan d ended l =>
    simp only [hs] at h hop
    obtain ⟨name, rfl, hname⟩ := h
    rw [List.mem_singleton.mp hop] at hpath
    rw [List.mem_singleton.mp hpath]
    exact .part hname
  | _ => simp [hs] at hop

end

namespace Machine

variable {n : Names} {m m' : Machine} {h : Happening}

/-- The operations of a happening are all that happens to the disk, and they go where the names
are. -/
theorem Happened.operations (ha : m.Happened h m') (hm : m.Confined n) :
    m'.tree = performAll m.tree (m.operations m' h) ∧
      ∀ op ∈ m.operations m' h, ∀ path ∈ op.paths, n.Path m.config path := by
  have hmoved : ∀ {i t t'}, m.tasks[i]? = some t → m.Moved i t t' m' →
      (m'.tree = performAll m.tree (t.operations t'.stage) ∧
        ∀ op ∈ t.operations t'.stage, ∀ path ∈ op.paths, n.Path m.config path) ∧
        m'.tasks[i]? = some t' := by
    intro i t t' hi hmv
    refine ⟨⟨hmv.move.tree_eq, fun op hop path hpath => ?_⟩, hmv.self hi⟩
    exact (hm.within t (List.mem_of_getElem? hi)).paths hop hpath
  unfold Machine.operations
  cases ha with
  | arrive request => exact ⟨rfl, by simp⟩
  | move hi hmv =>
    obtain ⟨hops, hi'⟩ := hmoved hi hmv
    simp only [hi, hi']
    exact hops
  | disconnect hi hg hmv =>
    obtain ⟨hops, hi'⟩ := hmoved hi hmv
    simp only [hi, hi']
    exact hops
  | pass clock hle => exact ⟨rfl, by simp⟩

/-- A machine that has come from an endpoint by the operations listed.  `touches` is kept with
regard to the first disk, which works because no place ever moves. -/
structure Traced (n : Names) (g : Ingest) (m : Machine) (ops : List FileOperation) : Prop where
  config : m.config = g.config
  confined : m.Confined n
  tree : m.tree = performAll g.tree ops
  paths : ∀ op ∈ ops, ∀ path ∈ op.paths, n.Path g.config path
  touches : g.tree.Touches m.tree (n.Places g.tree g.config.outputDir)

/-- At first nothing was done. -/
theorem traced_ofIngest {g : Ingest} (hlinks : NoLinks g.tree g.config.outputDir) :
    (ofIngest g).Traced n g [] :=
  ⟨rfl, ⟨hlinks, fun t ht => absurd ht List.not_mem_nil⟩, rfl, by simp, Tree.Touches.refl _ _⟩

/-- One more happening adds its operations. -/
theorem Traced.after {g : Ingest} {ops : List FileOperation} (hm : m.Traced n g ops)
    (hadmits : n.Admits g.config) (ha : m.after h = some m') :
    m'.Traced n g (ops ++ m.operations m' h) := by
  obtain ⟨hconfig, hconfined, htree, hpaths, htouch⟩ := hm
  obtain ⟨hafter, htouch'⟩ := hconfined.after (fun _ _ => hconfig ▸ hadmits) ha
  obtain ⟨htree', hpaths'⟩ := (happened ha).operations hconfined
  rw [hconfig] at htouch' hpaths'
  refine ⟨(happened ha).config_eq.trans hconfig, hafter, ?_, fun op hop => ?_, ?_⟩
  · rw [performAll_append, ← htree]
    exact htree'
  · rcases List.mem_append.mp hop with hop | hop
    · exact hpaths op hop
    · exact hpaths' op hop
  -- the names stand for the same locations as at first
  · have hplaces := SamePlaces.of_touches htouch fun _ hl => hl.dirAt
    exact htouch.trans (htouch'.mono fun l hl => (Names.Places.congr hplaces).mp hl)

/-- The operations along a run. -/
def operationsAlong (m : Machine) (hs : List Happening) : List FileOperation :=
  m.gather Machine.operations hs

/-- Along a run all operations are listed. -/
theorem Traced.afterAll {g : Ingest} :
    ∀ (hs : List Happening) {m m' : Machine} {ops : List FileOperation}, m.Traced n g ops →
      n.Admits g.config → m.afterAll hs = some m' → m'.Traced n g (ops ++ m.operationsAlong hs)
  | [], m, m', ops, hm, _, h => by
    cases h
    rw [operationsAlong, gather, List.append_nil]
    exact hm
  | e :: rest, m, m', ops, hm, hadmits, h => by
    unfold Machine.afterAll at h
    split at h
    · simp at h
    · rename_i m₁ h₁
      rw [operationsAlong, gather_cons h₁, ← List.append_assoc]
      exact afterAll rest (hm.after hadmits h₁) hadmits h

end Machine

/-! ## Uploads stay in the output directory -/

section

variable {c : Config} {path : String}

/-- What an endpoint works on is its output directory joined with a bare name. -/
theorem Names.Path.served (hc : c.Bare) (h : (Names.ofConfig c hc).Path c path) :
    ∃ name, c.Serves name ∧ Config.isBareName name = true ∧
      Path.Same path (Path.join c.outputDir name) := by
  cases h with
  | appended h =>
    cases h
    exact ⟨_, .raw, hc.raw, Path.Same.refl _⟩
  | overwritten h =>
    have hname : c.Accepts _ := h
    exact ⟨_, .chunked hname, hname.isBareName hc, Path.Same.refl _⟩
  | part h =>
    rename_i name
    have hname : c.Accepts name := h
    have hn := isComponent_of_isBareName (hname.isBareName hc)
    refine ⟨partName name, .part hname, isBareName_partName (hname.isBareName hc), ?_⟩
    rw [Config.destination, partPath_join hn]
    exact Path.same_join_dirOf (isComponent_partName hn)

/-- The places of an endpoint are entries of its output directory. -/
theorem Names.Places.served {tree : Tree} {l : Location} (hc : c.Bare)
    (h : (Names.ofConfig c hc).Places tree c.outputDir l) :
    ∃ d name, tree.dirAt c.outputDir = .ok d ∧ c.Serves name ∧ l = d ++ [name] := by
  rcases h with ⟨name, rfl, hplace⟩ | ⟨name, hname, hplace | hpart⟩
  · obtain ⟨d, hd, rfl⟩ := Tree.dirAt_of_place hplace
    exact ⟨d, _, hd, .raw, rfl⟩
  · obtain ⟨d, hd, rfl⟩ := Tree.dirAt_of_place hplace
    exact ⟨d, name, hd, .chunked hname, rfl⟩
  · obtain ⟨d, hd, rfl⟩ := Tree.dirAt_of_place hpart
    exact ⟨d, partName name, Tree.dirAt_dirOf.mp hd, .part hname, rfl⟩

end

/-- Whatever is uploaded, every path that is created, written, renamed or removed for it is the output
directory joined with a bare name: that of the raw output file, one that is accepted for chunked
uploads, or the part file of such a one.  The disk is what these operations make of it, and it
differs at most in such entries of the output directory. -/
theorem uploads_confined {g : Ingest} {hs : List Machine.Happening} {m : Machine}
    (hvalid : g.config.validate = .ok ()) (hlinks : NoLinks g.tree g.config.outputDir)
    (hrun : (Machine.ofIngest g).afterAll hs = some m) :
    (∀ op ∈ (Machine.ofIngest g).operationsAlong hs, ∀ path ∈ op.paths,
      ∃ name, g.config.Serves name ∧ Config.isBareName name = true ∧
        Path.Same path (Path.join g.config.outputDir name)) ∧
      m.tree = performAll g.tree ((Machine.ofIngest g).operationsAlong hs) ∧
      ∀ l, m.tree.get? l ≠ g.tree.get? l →
        ∃ d name, g.tree.dirAt g.config.outputDir = .ok d ∧ g.config.Serves name ∧
          l = d ++ [name] := by
  have hc := Config.bare_of_validate hvalid
  have htraced := Machine.Traced.afterAll hs
    (Machine.traced_ofIngest (n := Names.ofConfig g.config hc) hlinks)
    (Names.admits_ofConfig g.config hc) hrun
  rw [List.nil_append] at htraced
  refine ⟨fun op hop path hpath => (htraced.paths op hop path hpath).served hc, htraced.tree,
    fun l hl => ?_⟩
  have hplace : (Names.ofConfig g.config hc).Places g.tree g.config.outputDir l :=
    Classical.byContradiction fun hnot => hl (htraced.touches.same l hnot)
  exact hplace.served hc

/-- A label that leads out of the output directory, as it seems, is stored in it. -/
theorem uploads_confined_label :
    let c : Config := { dashMode := .contentId }
    let g := Ingest.start c Tree.empty
    let labelled : Request := ⟨"/dash",
      [⟨"x-content-id", Bytes.ofString "..\\..\\../etc/passwd "⟩,
        ⟨"content-length", Bytes.ofString "1"⟩], [⟨0, .data [7]⟩]⟩
    let hs := Machine.Happening.arrive labelled :: List.replicate 8 (.move 0)
    c.validate = .ok () ∧ NoLinks g.tree c.outputDir ∧
      ∃ m, (Machine.ofIngest g).afterAll hs = some m ∧
        ((Machine.ofIngest g).operationsAlong hs).flatMap FileOperation.paths =
          ["./.passwd.part", "./.passwd.part", "./.passwd.part", "./passwd"] ∧
        ∀ op ∈ (Machine.ofIngest g).operationsAlong hs, ∀ path ∈ op.paths,
          ∃ name, c.Serves name ∧ Config.isBareName name = true ∧
            Path.Same path (Path.join c.outputDir name) := by
  intro c g labelled hs
  have hvalid : c.validate = .ok () := by decide +kernel
  have hlinks : NoLinks g.tree c.outputDir := cleanOutput_empty.noLinks
  have hsome : ((Machine.ofIngest g).afterAll hs).isSome = true := by decide +kernel
  have hpaths : ((Machine.ofIngest g).operationsAlong hs).flatMap FileOperation.paths =
      ["./.passwd.part", "./.passwd.part", "./.passwd.part", "./passwd"] := by decide +kernel
  obtain ⟨m, hm⟩ := Option.isSome_iff_exists.mp hsome
  have hconf := uploads_confined (g := g) hvalid hlinks hm
  exact ⟨hvalid, hlinks, m, hm, hpaths, hconf.1⟩

end LiveIngest.Traffic
