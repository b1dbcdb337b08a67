import LiveIngest.CommandLine.Setting
import LiveIngest.Text.Similarity

/-!
# Faults on the command line

A command line that cannot be understood is answered by a text: what is wrong, for a mistyped flag
the one that may have been meant, for words that do not belong there a line of usage, and where to
find help.

The line of usage repeats the flags that were understood so far, and if there are none it says
that there are options.
-/

namespace LiveIngest.CommandLine

open LiveIngest.Text

/-- The name under which the program is started. -/
def programName : String := "webm-ingest"

/-- The version of the program. -/
def version : String := "0.1.0"

/-- A flag: a setting, or one of the two flags that take no value. -/
inductive Flag
  | setting (s : Setting)
  | help
  | version
deriving DecidableEq, Repr

namespace Flag

/-- The flags in the order in which they are listed. -/
def all : List Flag := Setting.all.map .setting ++ [.help, .version]

/-- The long form without its dashes. -/
def long : Flag → String
  | .setting s => s.flag
  | .help => "help"
  | .version => "version"

/-- The short form without its dash. -/
def short? : Flag → Option Char
  | .setting s => s.short?
  | .help => some 'h'
  | .version => some 'V'

/-- How the flag is written on a command line. -/
def usage : Flag → String
  | .setting s => s.usage
  | f => "--" ++ f.long

/-- The flag with a long form. -/
def ofLong? (name : String) : Option Flag := all.find? fun f => f.long == name

/-- The flag with a short form. -/
def ofShort? (c : Char) : Option Flag := all.find? fun f => f.short? == some c

/-- A word must be more alike to a flag than this to be taken for a mistyped one. -/
def likenessNeeded : Likeness := ⟨7, 10⟩

/-- The flag that a mistyped long form is most alike to, if it is alike to any; of equally alike
ones the last. -/
def similar? (name : String) : Option Flag :=
  let scored := all.map fun f => (f, likeness name.toList f.long.toList)
  let better := fun (best : Option (Flag × Likeness)) (f : Flag × Likeness) =>
    if ¬f.2.exceeds likenessNeeded then best
    else
      match best with
      | none => some f
      | some b => if b.2.exceeds f.2 then best else some f
  (scored.foldl better none).map (·.1)

end Flag

/-- What is wrong with a command line. -/
inductive UsageFault
  /-- A word that is no flag and no value. -/
  | unknown (word : String) (similar : Option Flag) (given : List Flag)
  | missingValue (s : Setting)
  | invalidValue (s : Setting) (value : String) (why : ValueFault)
  | repeated (s : Setting)
  /-- A value for a flag that takes none. -/
  | surplusValue (flag : Flag) (value : String) (given : List Flag)
deriving DecidableEq, Repr

namespace UsageFault

/-- What is wrong, in one sentence. -/
def sentence : UsageFault → String
  | .unknown word _ _ => "unexpected argument '" ++ word ++ "' found"
  | .missingValue s => "a value is required for '" ++ s.usage ++ "' but none was supplied"
  | .invalidValue s value why =>
    "invalid value '" ++ value ++ "' for '" ++ s.usage ++ "': " ++ why.message
  | .repeated s => "the argument '" ++ s.usage ++ "' cannot be used multiple times"
  | .surplusValue flag value _ =>
    "unexpected value '" ++ value ++ "' for '" ++ flag.usage ++ "' found; no more were expected"

/-- What may have been meant. -/
def tip? : UsageFault → Option String
  | .unknown _ (some flag) _ => some ("a similar argument exists: '--" ++ flag.long ++ "'")
  | _ => none

/-- The flags that the line of usage repeats, if the fault shows one. -/
def usageFlags? : UsageFault → Option (List Flag)
  | .unknown _ _ given => some given
  | .surplusValue _ _ given => some given
  | .repeated _ => some []
  | _ => none

end UsageFault

/-- The line of usage with some flags. -/
def usageLine (flags : List Flag) : String :=
  let words := if flags = [] then ["[OPTIONS]"] else flags.map Flag.usage
  "Usage: " ++ " ".intercalate (programName :: words)

/-- The whole answer to a command line with a fault. -/
def UsageFault.text (f : UsageFault) : String :=
  let tip := match f.tip? with
    | some tip => "\n\n  tip: " ++ tip
    | none => ""
  let usage := match f.usageFlags? with
    | some flags => "\n\n" ++ usageLine flags
    | none => ""
  "error: " ++ f.sentence ++ tip ++ usage ++ "\n\nFor more information, try '--help'.\n"

end LiveIngest.CommandLine
