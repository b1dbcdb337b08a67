import LiveIngest.Journal.Filter
import LiveIngest.Storage.Operations
import LiveIngest.Upload.Dispatch

/-!
# The journal of a run

What happens during a run is written down line by line: the time, the level, the part of the
program, the message and the fields.  The lines go to the standard output, and to a file of the day
as well if a directory for it was named; that directory is made if it is missing.

Only what the filter lets through is written.  A process has one journal: to set up a second one
fails, though only after its file was made.
-/

namespace LiveIngest.Journal

open LiveIngest.Storage
open LiveIngest.Upload

/-! ## Lines -/

/-- The level in capitals, set to the right of five columns. -/
def levelText : Level → String
  | .debug => "DEBUG"
  | .info => " INFO"
  | .warn => " WARN"
  | .error => "ERROR"

/-- The digits of a number in hexadecimal. -/
def hexText (n : Nat) : List Char := Nat.toDigits 16 n

/-- A character between quotes: the two that would end or escape are escaped, and so are line ends,
tabs and the other control characters. -/
def quotedChar (c : Char) : List Char :=
  if c = '"' then ['\\', '"']
  else if c = '\\' then ['\\', '\\']
  else if c = '\n' then ['\\', 'n']
  else if c = '\r' then ['\\', 'r']
  else if c = '\t' then ['\\', 't']
  else if c.toNat = 0 then ['\\', '0']
  else if c.toNat < 0x20 ∨ (0x7F ≤ c.toNat ∧ c.toNat < 0xA0) then
    "\\u\x7b".toList ++ hexText c.toNat ++ ['\x7d']
  else [c]

/-- A text between quotes. -/
def quotedText (text : String) : String :=
  "\"" ++ String.ofList (text.toList.flatMap quotedChar) ++ "\""

/-- The value of a field, as it is written down. -/
def fieldText : FieldValue → String
  | .number n => toString n
  | .shown text => text
  | .quoted text => quotedText text

/-- A record as it is written down at a time. -/
def lineText (time : String) (r : Record) : String :=
  let fields := r.fields.map fun (name, value) => " " ++ name ++ "=" ++ fieldText value
  time ++ " " ++ levelText r.level ++ " " ++ r.target ++ ": " ++ r.message ++ String.join fields

/-- The lines of what happened, as far as the filter lets it through. -/
def lines (f : Filter) (time : String) (events : List Event) : List String :=
  ((events.map Event.record).filter f.passes).map (lineText time)

/-! ## The file of the day -/

/-- The name of the file of a day. -/
def dailyName (date : String) : String := "webm-ingest.log." ++ date

/-- Makes the file of the day in a directory, with the directory; what is in the file stays. -/
def openDaily (t : Tree) (dir date : String) : Except Error String × Tree :=
  match Ingest.ensureDir .creatingLogDirectory t dir with
  | (.error e, t) => (.error e, t)
  | (.ok (), t) =>
    let path := Path.join dir (dailyName date)
    match t.openAppend path with
    | .ok (_, t) => (.ok path, t)
    | .error e => (.error (.io .creatingLogDirectory path e), t)

/-- Sets up the journal of a process, which may have one already; what is returned is the file of
the day, if a directory was named. -/
def setUp (taken : Bool) (t : Tree) (dir : Option String) (date : String) :
    Except Error (Option String) × Tree :=
  let finish := fun (file : Option String) (t : Tree) =>
    if taken then (Except.error Error.loggerTaken, t) else (Except.ok file, t)
  match dir with
  | none => finish none t
  | some dir =>
    match openDaily t dir date with
    | (.error e, t) => (.error e, t)
    | (.ok path, t) => finish (some path) t

end LiveIngest.Journal
