import LiveIngest.Text.Ascii
import LiveIngest.Text.Blank
import LiveIngest.Text.Decimal
import LiveIngest.Text.Split
import LiveIngest.Upload.Event

/-!
# What gets into the journal

A filter is a list of directives with commas between them.  A directive is a level, a target, or a
target with a level, `webm_ingest=info`; it may also name a span and fields in brackets,
`webm_ingest[upload{bytes}]=debug`.  A target alone lets everything through, and so does a missing
level.

Of the directives that speak about a record, the most specific one decides: first the one with the
longest target, then the one with the most fields.  A directive speaks about a record if its target
starts the target of the record and the record has all its fields.  Directives that name a span, or
the value of a field, speak about records inside of spans only, and there are none of these here.

A filter without any directive lets errors through.
-/

namespace LiveIngest.Journal

open LiveIngest.Text
open LiveIngest.Upload

/-- How much is let through, from nothing to everything. -/
abbrev Verbosity := Nat

/-- The verbosity that lets everything through. -/
def everything : Verbosity := 5

/-- The least verbosity that lets a level through. -/
def verbosityFor : Level → Verbosity
  | .error => 1
  | .warn => 2
  | .info => 3
  | .debug => 4

/-- The names of verbosities, from nothing to everything. -/
def verbosityNames : List String := ["off", "error", "warn", "info", "debug", "trace"]

/-- The verbosity with a name, in letters of either case, or with a number. -/
def verbosity? (text : List Char) : Option Verbosity :=
  match parseUpTo everything text with
  | .ok n => some n
  | .error _ => verbosityNames.findIdx? fun name => sameFolded name.toList text

/-- One directive of a filter. -/
structure Directive where
  target : Option (List Char)
  verbosity : Verbosity
  /-- The fields that a record must have. -/
  fields : List (List Char)
  /-- Whether it speaks about records inside of spans only. -/
  inSpan : Bool
deriving DecidableEq, Repr

namespace Directive

/-- The level behind a target; nothing stands for everything. -/
def readVerbosity (text : List Char) : Option Verbosity :=
  if text = [] then some everything else verbosity? text

/-- The verbosity behind the brackets of a directive. -/
def readTail : List Char → Option Verbosity
  | [] => some everything
  | '=' :: r => readVerbosity r
  | _ => none

/-- The names in braces, and whether one of them comes with a value. -/
def readFields (text : List Char) : Option (List (List Char) × Bool) :=
  let pieces := splitOn (· = ',') text
  if pieces.any (·.isEmpty) then none
  else some (pieces.map fun p => p.takeWhile (· ≠ '='), pieces.any fun p => p.contains '=')

/-- A directive whose brackets start with `text`. -/
def readBrackets (target : Option (List Char)) (text : List Char) : Option Directive :=
  let span := text.takeWhile fun c => c ≠ ']' && c ≠ '\x7b'
  match text.dropWhile fun c => c ≠ ']' && c ≠ '\x7b' with
  | ']' :: tail => (readTail tail).map fun v => ⟨target, v, [], true⟩
  | '\x7b' :: inner =>
    match cut '\x7d' inner with
    | some (names, ']' :: tail) =>
      match readFields names, readTail tail with
      | some (fields, withValue), some v => some ⟨target, v, fields, !span.isEmpty || withValue⟩
      | _, _ => none
    | _ => none
  | _ => none

/-- Whether a target may start with a character. -/
def startsTarget (c : Char) : Bool :=
  c.isAlphanum || c == '-' || c == ':' || c == '_' || 128 ≤ c.toNat

/-- Reads a directive. -/
def read (text : List Char) : Option Directive :=
  let text := trim text
  let target := text.takeWhile fun c => c ≠ '=' && c ≠ '['
  match text with
  | [] => none
  | '[' :: r => readBrackets none r
  | c :: _ =>
    if ¬startsTarget c then none
    else
      match text.dropWhile fun c => c ≠ '=' && c ≠ '[' with
      | '=' :: level => (readVerbosity level).map fun v => ⟨some target, v, [], false⟩
      | '[' :: r => readBrackets (some target) r
      | _ =>
        match verbosity? target with
        | some v => some ⟨none, v, [], false⟩
        | none => some ⟨some target, everything, [], false⟩

/-- Whether a directive speaks about a record. -/
def concerns (d : Directive) (r : Record) : Bool :=
  !d.inSpan && (d.target.all fun t => t.isPrefixOf r.target.toList)
    && d.fields.all fun f => f == "message".toList || r.fields.any fun field => field.1.toList == f

/-- Whether a directive is at least as specific as another. -/
def atLeast (d e : Directive) : Bool :=
  let size := fun (x : Directive) =>
    match x.target with
    | none => 0
    | some t => (String.ofList t).utf8ByteSize + 1
  size e < size d || (size e == size d && e.fields.length ≤ d.fields.length)

end Directive

/-- The directives of a filter. -/
abbrev Filter := List Directive

namespace Filter

/-- The filter of a run that is not told otherwise. -/
def standard : Filter :=
  [⟨some "webm_ingest".toList, 3, [], false⟩, ⟨some "tower_http".toList, 3, [], false⟩]

/-- The filter that lets errors through. -/
def errorsOnly : Filter := [⟨none, 1, [], false⟩]

/-- Reads the directives of a filter; empty ones do not count. -/
def read (text : String) : Option Filter :=
  let pieces := (splitOn (· = ',') text.toList).filter fun p => !p.isEmpty
  match pieces.mapM Directive.read with
  | none => none
  | some [] => some errorsOnly
  | some directives => some directives

/-- The name of the variable that holds the filter. -/
def envName : String := "RUST_LOG"

/-- The filter that a variable asks for; one that cannot be read counts for nothing. -/
def ofText? : Option String → Filter
  | none => standard
  | some text => (read text).getD standard

/-- The directive that decides about a record; of equally specific ones the last. -/
def decisive? (f : Filter) (r : Record) : Option Directive :=
  (f.filter (·.concerns r)).foldl
    (fun best d =>
      match best with
      | none => some d
      | some b => if d.atLeast b then some d else some b) none

/-- Whether a record gets into the journal. -/
def passes (f : Filter) (r : Record) : Bool :=
  match f.decisive? r with
  | none => false
  | some d => verbosityFor r.level ≤ d.verbosity

/-- Nothing passes where nothing is let through. -/
theorem passes_off (r : Record) : passes [⟨none, 0, [], false⟩] r = false := by
  cases h : r.level <;> simp [passes, decisive?, Directive.concerns, verbosityFor, h]

end Filter

end LiveIngest.Journal
