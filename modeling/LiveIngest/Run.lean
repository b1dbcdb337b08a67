import LiveIngest.CommandLine.Basic
import LiveIngest.CommandLine.Help
import LiveIngest.Environment.File
import LiveIngest.Journal.Basic

/-!
# A run of the program

A run reads its variables, its command line and its settings, sets up the journal, prepares the
output directory and listens until it is interrupted.  Each of these can be the end of it.  What a
run leaves behind is an exit code, two texts, the file of the day, and the disk.

A command line that asks for help or for the version, or that has a fault, ends the run before the
journal is set up.  A failure after that ends it with a report: what was being done, and a list of
causes, each with its number if there are several.

The time, the date and the port that the system assigns come from outside; they are texts here, and
every line has the same time.
-/

namespace LiveIngest.Run

open LiveIngest.CommandLine
open LiveIngest.Journal
open LiveIngest.Storage
open LiveIngest.Upload

/-- What a run is started with. -/
structure Launch where
  words : List String
  environment : Environment
  disk : Tree

/-- What a run finds outside: texts for the time, the date, and the port it listens on. -/
structure Outside where
  time : String
  date : String
  port : String

/-- What a run leaves behind. -/
structure Report where
  exitCode : Nat
  output : String := ""
  errors : String := ""
  /-- The lines of the file of the day, if there is one. -/
  daily : Option (List String) := none
  /-- Whether the run came to listen. -/
  listened : Bool := false
  disk : Tree

/-! ## Failures -/

/-- A failure that ends a run, with what was being done. -/
structure Failure where
  doing : Option String
  cause : Error

/-- What is behind a failure. -/
def sourceText? : Error → Option String
  | .io _ _ errno => some errno.message
  | _ => none

/-- The texts of a failure, each the cause of the one before. -/
def Failure.chain (f : Failure) : List String :=
  f.doing.toList ++ [f.cause.message] ++ (sourceText? f.cause).toList

/-- A text whose further lines stand below its first one, with a mark in front. -/
def hanging (mark : String) (text : String) : String :=
  let gap := List.replicate mark.length ' '
  mark ++ String.ofList (text.toList.flatMap fun c => if c = '\n' then '\n' :: gap else [c])

/-- The causes of a failure, numbered if there are several. -/
def causeLines : List String → List String
  | [] => []
  | [cause] => [hanging "    " cause]
  | causes => causes.zipIdx.map fun (cause, n) => hanging ("    " ++ toString n ++ ": ") cause

/-- The report of a failure. -/
def Failure.text (f : Failure) : String :=
  match f.chain with
  | [] => ""
  | [only] => "Error: " ++ only ++ "\n"
  | first :: causes =>
    "Error: " ++ first ++ "\n\nCaused by:\n" ++ "\n".intercalate (causeLines causes) ++ "\n"

/-- A failure has at least one cause per report, its own. -/
theorem Failure.chain_ne_nil (f : Failure) : f.chain ≠ [] := by
  simp [Failure.chain]

/-! ## Stages -/

/-- How far a run came before it ended: what was logged, the failure if there was one, and the
disk. -/
structure Course where
  events : List Event
  failure : Option Failure
  listened : Bool
  disk : Tree

/-- Listens until it is interrupted. -/
def listen (o : Outside) (e : Net.Endpoint) (before : List Event) (disk : Tree) : Course :=
  match e.socketAddr with
  | .error cause => ⟨before, some ⟨none, cause⟩, false, disk⟩
  | .ok address =>
    ⟨before ++ [.listening (address.hostText ++ ":" ++ o.port), .interrupted, .shuttingDown,
      .stopped], none, true, disk⟩

/-- Checks the settings, prepares the output directory, and listens. -/
def serve (o : Outside) (options : Options) (disk : Tree) : Course :=
  let first := [Event.starting version]
  match options.config.validate with
  | .error fault => ⟨first, some ⟨some "invalid ingest configuration", .configuration fault⟩,
      false, disk⟩
  | .ok () =>
    match (Ingest.start options.config disk).prepare with
    | (.error cause, g) =>
      ⟨first, some ⟨some "failed to prepare output directory", cause⟩, false, g.tree⟩
    | (.ok events, g) => listen o options.endpoint (first ++ events) g.tree

/-- The variables of a run: those that are set, and those of the file of variables. -/
def Launch.variablesSet (l : Launch) : Environment :=
  match l.disk.content? Environment.fileName with
  | none => l.environment
  | some file => l.environment.addFile file

/-- The lines as a text, each with its end. -/
def linesText (lines : List String) : String := String.join (lines.map (· ++ "\n"))

/-- The disk with lines written to the file of the day. -/
def writeDaily (disk : Tree) (path : String) (lines : List String) : Tree :=
  (appendPayload disk path (Bytes.ofString (linesText lines))).2

/-- What a course leaves behind. -/
def Course.report (c : Course) (o : Outside) (filter : Filter) (daily : Option String) : Report :=
  let lines := lines filter o.time c.events
  { exitCode := if c.failure.isSome then 1 else 0
    output := linesText lines
    errors := (c.failure.map Failure.text).getD ""
    daily := daily.map fun _ => lines
    listened := c.listened
    disk :=
      match daily with
      | none => c.disk
      | some path => writeDaily c.disk path lines }

/-- A run of the program. -/
def Launch.run (l : Launch) (o : Outside) : Report :=
  let known := l.variablesSet
  match Options.ofWords known l.words with
  | .error (.help long) => { exitCode := 0, output := helpText long known, disk := l.disk }
  | .error .version => { exitCode := 0, output := versionText, disk := l.disk }
  | .error (.fault cause) => { exitCode := 2, errors := cause.text, disk := l.disk }
  | .ok options =>
    match setUp false l.disk options.logDir o.date with
    | (.error cause, disk) =>
      { exitCode := 1, errors := Failure.text ⟨none, cause⟩, disk := disk }
    | (.ok daily, disk) =>
      let filter := Filter.ofText? (known.get? Filter.envName)
      (serve o options disk).report o filter daily

end LiveIngest.Run
