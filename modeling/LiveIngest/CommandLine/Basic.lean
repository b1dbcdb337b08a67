import LiveIngest.CommandLine.Fault
import LiveIngest.Environment.Basic

/-!
# Reading a command line

The words of a command line are read from left to right.  A setting takes its value from the same
word, behind a `=` or directly behind the short flag, or from the next word if that does not look
like a flag.  A value in a word of its own is looked at only when the next flag comes or the line
ends: a word that cannot be understood is reported before it.

A flag for help or for the version ends the reading at once.  After the last word the settings
that were not given are taken from the environment, in the order of their list, and what is in
neither place keeps its default.

Main statement: `Scan.assign_given`, an assignment that succeeds adds its setting to those given,
so the environment cannot override the command line.
-/

namespace LiveIngest.CommandLine

open LiveIngest.Text

/-- A command line, partly read. -/
structure Scan where
  options : Options
  /-- The settings given so far, in order. -/
  given : List Setting
  /-- A setting whose value is still awaited, or in a word that was not looked at yet. -/
  pending : Option (Setting × Option String)
deriving DecidableEq, Repr

/-- Why a command line does not lead to a run. -/
inductive Detour
  /-- Help is wanted, in full or in short. -/
  | help (long : Bool)
  | version
  | fault (cause : UsageFault)
deriving DecidableEq, Repr

namespace Scan

/-- A command line of which nothing was read. -/
def start : Scan := ⟨{}, [], none⟩

/-- The flags of the settings given so far. -/
def flags (s : Scan) : List Flag := s.given.map .setting

/-- Gives a setting its value. -/
def assign (s : Scan) (x : Setting) (value : Option String) : Scan × Option UsageFault :=
  match value with
  | none => (s, some (.missingValue x))
  | some text =>
    if x ∈ s.given then ({ s with given := s.given.erase x }, some (.repeated x))
    else
      let s := { s with given := s.given ++ [x] }
      match s.options.set x text with
      | .ok options => ({ s with options := options }, none)
      | .error .missing => (s, some (.missingValue x))
      | .error why => (s, some (.invalidValue x text why))

/-- An assignment that succeeds adds its setting to those given. -/
theorem assign_given {s s' : Scan} {x : Setting} {value : Option String}
    (h : s.assign x value = (s', none)) : s'.given = s.given ++ [x] := by
  unfold assign at h
  split at h
  · simp at h
  · split at h
    · simp at h
    · dsimp only at h
      split at h
      · simp only [Prod.mk.injEq, and_true] at h
        rw [← h]
      · simp at h
      · simp at h

/-- Gives the pending setting its value. -/
def settle (s : Scan) : Scan × Option UsageFault :=
  match s.pending with
  | none => (s, none)
  | some (x, value) => { s with pending := none }.assign x value

/-- Goes on unless there was a fault. -/
def orFault : Scan × Option UsageFault → Except Detour Scan
  | (s, none) => .ok s
  | (_, some fault) => .error (.fault fault)

/-- A word that cannot be understood. -/
def refuse {α : Type} (word : String) (similar : Option Flag) (given : List Flag) :
    Except Detour α :=
  .error (.fault (.unknown word similar given))

/-- A flag of a setting, with the value in the same word if there is one. -/
def takeSetting (s : Scan) (x : Setting) (value : Option String) : Except Detour Scan :=
  match orFault s.settle with
  | .error detour => .error detour
  | .ok s =>
    match value with
    | none => .ok { s with pending := some (x, none) }
    | some text => orFault (s.assign x (some text))

/-- A flag that ends the reading. -/
def stopFor (s : Scan) (detour : Detour) : Except Detour Scan :=
  match orFault s.settle with
  | .error earlier => .error earlier
  | .ok _ => .error detour

/-- A word that starts with two dashes. -/
def takeLong (s : Scan) (name : String) (value : Option String) : Except Detour Scan :=
  match Flag.ofLong? name, value with
  | some (.setting x), _ => s.takeSetting x value
  | some flag, some text => .error (.fault (.surplusValue flag text (s.flags ++ [flag])))
  | some .help, none => s.stopFor (.help true)
  | some .version, none => s.stopFor .version
  | none, _ =>
    let understood := s.settle.1.flags
    match Flag.similar? name with
    | none => refuse ("--" ++ name) none understood
    | some flag =>
      refuse ("--" ++ name) (some flag)
        (if flag ∈ understood then understood else understood ++ [flag])

/-- The value behind a short flag in the same word. -/
def attached : List Char → Option String
  | [] => none
  | '=' :: r => some (String.ofList r)
  | r => some (String.ofList r)

/-- A word that starts with one dash. -/
def takeShort (s : Scan) (c : Char) (rest : List Char) : Except Detour Scan :=
  match Flag.ofShort? c with
  | some (.setting x) => s.takeSetting x (attached rest)
  | some .help => s.stopFor (.help false)
  | some .version => s.stopFor .version
  | none => refuse (String.ofList ['-', c]) none []

/-- A word without a dash, or a lone dash. -/
def takePlain (s : Scan) (word : String) : Except Detour Scan :=
  match s.pending with
  | some (x, none) => .ok { s with pending := some (x, some word) }
  | _ => refuse word none []

/-- One word of a command line. -/
def takeWord (s : Scan) (word : String) : Except Detour Scan :=
  match word.toList with
  | '-' :: '-' :: r =>
    match cut '=' r with
    | some (name, value) => s.takeLong (String.ofList name) (some (String.ofList value))
    | none => s.takeLong (String.ofList r) none
  | '-' :: c :: r => s.takeShort c r
  | _ => s.takePlain word

/-- All words of a command line; behind two dashes there must be none. -/
def takeWords (s : Scan) : List String → Except Detour Scan
  | [] => orFault s.settle
  | word :: rest =>
    if word = "--" then
      match rest with
      | [] => orFault s.settle
      | next :: _ => refuse next none []
    else
      match s.takeWord word with
      | .error detour => .error detour
      | .ok s => s.takeWords rest

/-- A setting that was not given is taken from the environment. -/
def consult (e : Environment) (s : Scan) (x : Setting) : Except Detour Scan :=
  if x ∈ s.given then .ok s
  else
    match e.get? x.envName with
    | none => .ok s
    | some text => orFault (s.assign x (some text))

/-- A setting that was given is left as it is. -/
theorem consult_of_given {e : Environment} {s : Scan} {x : Setting} (h : x ∈ s.given) :
    consult e s x = .ok s := by
  simp [consult, h]

end Scan

/-- The options that a command line and an environment amount to. -/
def Options.ofWords (e : Environment) (words : List String) : Except Detour Options :=
  match Scan.start.takeWords words with
  | .error detour => .error detour
  | .ok s => (Setting.all.foldlM (Scan.consult e) s).map Scan.options

end LiveIngest.CommandLine
