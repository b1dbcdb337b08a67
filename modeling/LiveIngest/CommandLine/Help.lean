import LiveIngest.CommandLine.Fault
import LiveIngest.Environment.Basic

/-!
# The text of help

Help lists every flag with what it is for, the environment variable it can be set by, with the
value that this has at the moment, and its default.  In full, these are paragraphs with a blank
line between the flags; in short, one line behind the other.

Every line below the line of a flag is indented, also one that is empty.
-/

namespace LiveIngest.CommandLine

/-- What the program is, in one line. -/
def about : String := "HTTP ingest endpoint for live WebM/DASH encoder uploads"

/-- What stands in front of each line below the line of a flag. -/
def helpIndent : String := "          "

/-- A text with every line end followed by the indent. -/
def indented (text : String) : String :=
  helpIndent ++ String.ofList (text.toList.flatMap fun c =>
    if c = '\n' then '\n' :: helpIndent.toList else [c])

/-- What a setting can be set by, and what it is otherwise. -/
def Setting.notes (s : Setting) (e : Environment) : List String :=
  let source := "[env: " ++ s.envName ++ "=" ++ (e.get? s.envName).getD "" ++ "]"
  match ({} : Options).text? s with
  | none => [source]
  | some text => [source, "[default: " ++ text ++ "]"]

namespace Flag

/-- What the flag is for. -/
def summary (long : Bool) : Flag → String
  | .setting s => s.summary
  | .help => if long then "Print help (see a summary with '-h')" else
    "Print help (see more with '--help')"
  | .version => "Print version"

def details? : Flag → Option String
  | .setting s => s.details?
  | _ => none

def notes (f : Flag) (e : Environment) : List String :=
  match f with
  | .setting s => s.notes e
  | _ => []

/-- The line of a flag. -/
def heading (f : Flag) : String :=
  let short := match f.short? with
    | some c => String.ofList ['-', c, ',', ' ']
    | none => "    "
  "  " ++ short ++ f.usage

/-- The paragraphs below the line of a flag. -/
def longText (f : Flag) (e : Environment) : String :=
  let notes := match f.notes e with
    | [] => []
    | notes => ["\n".intercalate notes]
  "\n\n".intercalate ([f.summary true] ++ f.details?.toList ++ notes)

/-- The one line below the line of a flag. -/
def shortText (f : Flag) (e : Environment) : String :=
  " ".intercalate (f.summary false :: f.notes e)

/-- The entry of a flag. -/
def entry (f : Flag) (long : Bool) (e : Environment) : String :=
  f.heading ++ "\n" ++ indented (if long then f.longText e else f.shortText e)

end Flag

/-- The whole text of help. -/
def helpText (long : Bool) (e : Environment) : String :=
  let gap := if long then "\n\n" else "\n"
  about ++ "\n\n" ++ usageLine [] ++ "\n\nOptions:\n"
    ++ gap.intercalate (Flag.all.map fun f => f.entry long e) ++ "\n"

/-- The text of the version. -/
def versionText : String := programName ++ " " ++ version ++ "\n"

end LiveIngest.CommandLine
