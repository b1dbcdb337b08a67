import LiveIngest.Bytes
import LiveIngest.Environment.Basic
import LiveIngest.Text.Blank

/-!
# Variables from a file

A file of variables has one assignment per line, `KEY=value`, possibly behind the word `export`.
Blank lines and lines that start with `#` count for nothing.

A value is read character by character.  Between single quotes everything stands for itself.
Between double quotes, and outside of quotes, a backslash makes the next character stand for
itself (`n` for a line end), and `$name` or `${name}` for the value of a variable.  Outside of
quotes a blank ends the value, and only a comment may follow.  A quote that is left open, or any
other character that does not belong where it stands, is a fault, and reading stops there; what was
read up to then counts.

A line goes on behind its end while a quote is open.  Finding the ends of lines is therefore a scan
of its own, which knows quotes and comments but not variables.
-/

namespace LiveIngest.Environment

open LiveIngest.Text

/-! ## Lines -/

/-- Where the scan for the end of a line stands. -/
inductive LineState
  /-- Outside of quotes. -/
  | plain
  /-- Outside of quotes, behind a blank. -/
  | blank
  /-- Behind a backslash outside of quotes. -/
  | escape
  | single
  | singleEscape
  | double
  | doubleEscape
  /-- Behind a `#` that starts a comment. -/
  | comment
deriving DecidableEq, Repr

namespace LineState

/-- What a character outside of quotes leads to. -/
def onPlain (c : Char) : LineState :=
  if c = '\\' then .escape
  else if c = '"' then .double
  else if c = '\'' then .single
  else .plain

/-- What a character leads to. -/
def next : LineState → Char → LineState
  | .plain, c => if isBlank c ∧ c ≠ '\n' ∧ c ≠ '\r' then .blank else onPlain c
  | .blank, c => if c = '#' then .comment else onPlain c
  | .escape, _ => .plain
  | .single, c => if c = '\\' then .singleEscape else if c = '\'' then .plain else .single
  | .singleEscape, _ => .single
  | .double, c => if c = '\\' then .doubleEscape else if c = '"' then .plain else .double
  | .doubleEscape, _ => .double
  | .comment, _ => .comment

end LineState

/-- Scans one physical line; what is returned is where the scan stands, and the text in front of a
comment. -/
def scanLine (s : LineState) : List Char → LineState × List Char
  | [] => (s, [])
  | c :: r =>
    match s.next c with
    | .comment => (.comment, [])
    | s' => let (last, kept) := scanLine s' r; (last, c :: kept)

/-- A line without the end of line. -/
def withoutLineEnd (line : List Char) : List Char :=
  match line.reverse with
  | '\n' :: '\r' :: r => r.reverse
  | '\n' :: r => r.reverse
  | _ => line

/-- Joins physical lines, with their ends, to logical ones: `open?` is where the scan of an
unfinished line stands, with its text so far.  Nothing stands for a line that never ends. -/
def logicalLines (unfinished : Option (LineState × List Char)) :
    List (List Char) → List (Option (List Char))
  | [] => if unfinished.isSome then [none] else []
  | line :: rest =>
    let (state, before) := unfinished.getD (.plain, [])
    if (trimStart (before ++ line)).head? = some '#' then some [] :: logicalLines none rest
    else
      match scanLine state line with
      | (.plain, kept) => some (withoutLineEnd (before ++ kept)) :: logicalLines none rest
      | (.comment, kept) => some (before ++ kept) :: logicalLines none rest
      | (state', kept) => logicalLines (some (state', before ++ kept)) rest

/-! ## Values -/

/-- Where the reading of a value stands. -/
inductive ValueState
  | plain
  | single
  | double
  /-- Behind a backslash, possibly between double quotes. -/
  | escape (inDouble : Bool)
  /-- In the name of a variable, possibly between double quotes. -/
  | name (inDouble : Bool) (name : List Char)
  /-- In the name of a variable in braces. -/
  | braced (inDouble : Bool) (name : List Char)
  /-- Behind the value. -/
  | ended
deriving DecidableEq, Repr

/-- The state outside of escapes and names. -/
def ValueState.base (inDouble : Bool) : ValueState := if inDouble then .double else .plain

/-- Whether a character belongs to the name of a variable: letters and digits do, and beyond ASCII
whatever is not blank. -/
def isVariableChar (c : Char) : Bool := c.isAlphanum || (128 ≤ c.toNat && !isBlank c)

/-- What a character behind a backslash stands for. -/
def escaped? (c : Char) : Option Char :=
  if c = 'n' then some '\n'
  else if c ∈ ['\\', '\'', '"', '$', ' '] then some c
  else none

/-- The value of a variable, empty if it is not set. -/
def valueOf (e : Environment) (name : List Char) : List Char :=
  ((e.get? (String.ofList name)).getD "").toList

/-- Reads a value from where the reading stands. -/
def readValue (e : Environment) : ValueState → List Char → Option (List Char)
  | .plain, [] => some []
  | .ended, [] => some []
  | .escape inDouble, [] => if inDouble then none else some []
  | .name inDouble name, [] => if inDouble then none else some (valueOf e name)
  | .single, [] => none
  | .double, [] => none
  | .braced .., [] => none
  | .ended, c :: r =>
    if c = ' ' ∨ c = '\t' then readValue e .ended r else if c = '#' then some [] else none
  | .escape inDouble, c :: r =>
    match escaped? c with
    | none => none
    | some d => (readValue e (.base inDouble) r).map (d :: ·)
  | .single, c :: r =>
    if c = '\'' then readValue e .plain r else (readValue e .single r).map (c :: ·)
  | .name inDouble name, c :: r =>
    if isVariableChar c then readValue e (.name inDouble (name ++ [c])) r
    else if c = '\x7b' ∧ name = [] then readValue e (.braced inDouble []) r
    else if c = '$' then (readValue e (.name inDouble []) r).map (valueOf e name ++ ·)
    else (readValue e (.base inDouble) r).map (valueOf e name ++ c :: ·)
  | .braced inDouble name, c :: r =>
    if c = '\x7d' then (readValue e (.base inDouble) r).map (valueOf e name ++ ·)
    else readValue e (.braced inDouble (name ++ [c])) r
  | .double, c :: r =>
    if c = '$' then readValue e (.name true []) r
    else if c = '"' then readValue e .plain r
    else if c = '\\' then readValue e (.escape true) r
    else (readValue e .double r).map (c :: ·)
  | .plain, c :: r =>
    if c = '$' then readValue e (.name false []) r
    else if c = '\'' then readValue e .single r
    else if c = '"' then readValue e .double r
    else if c = '\\' then readValue e (.escape false) r
    else if c = ' ' ∨ c = '\t' then readValue e .ended r
    else (readValue e .plain r).map (c :: ·)

/-! ## Assignments -/

/-- Whether a key may start with a character. -/
def startsKey (c : Char) : Bool := c.isAlpha || c == '_'

/-- Whether a character may stand in a key. -/
def inKey (c : Char) : Bool := c.isAlphanum || c == '_' || c == '.'

/-- Takes a key and the blanks behind it from the front of a text. -/
def takeKey (s : List Char) : Option (List Char × List Char) :=
  match s with
  | [] => none
  | c :: _ =>
    if startsKey c then some (s.takeWhile inKey, trimStart (s.dropWhile inKey)) else none

/-- What stands behind an equals sign and blanks. -/
def behindEquals : List Char → Option (List Char)
  | '=' :: r => some (trimStart r)
  | _ => none

/-- The key of an assignment, and the text of its value; the word `export` may come first, unless
it is the key itself. -/
def splitAssignment (line : List Char) : Option (List Char × List Char) :=
  match takeKey line with
  | none => none
  | some (key, rest) =>
    match behindEquals rest with
    | some value => some (key, value)
    | none =>
      if key = "export".toList then
        match takeKey rest with
        | none => none
        | some (key, rest) => (behindEquals rest).map fun value => (key, value)
      else none

/-- The environment after one line; nothing if the line has a fault. -/
def takeLine (e : Environment) (line : List Char) : Option Environment :=
  let text := trim line
  if text = [] ∨ text.head? = some '#' then some e
  else
    match splitAssignment text with
    | none => none
    | some (key, value) =>
      if value = [] ∨ value.head? = some '#' then some (e.supply (String.ofList key) "")
      else
        (readValue e .plain value).map fun v => e.supply (String.ofList key) (String.ofList v)

/-- The environment after lines, up to the first that has a fault. -/
def takeLines (e : Environment) : List (Option (List Char)) → Environment
  | [] => e
  | none :: _ => e
  | some line :: rest =>
    match takeLine e line with
    | none => e
    | some e' => takeLines e' rest

/-! ## Files -/

/-- The physical lines of a file, each with its end. -/
def physicalLines : Bytes → List Bytes
  | [] => []
  | b :: r =>
    if b = 10 then [b] :: physicalLines r
    else
      match physicalLines r with
      | [] => [[b]]
      | line :: rest => (b :: line) :: rest

/-- A file without a byte order mark in front. -/
def withoutMark : Bytes → Bytes
  | 0xEF :: 0xBB :: 0xBF :: r => r
  | bytes => bytes

/-- The text of lines, up to the first that is no text. -/
def readable : List Bytes → List (List Char)
  | [] => []
  | line :: rest =>
    match Bytes.text? line with
    | none => []
    | some text => text :: readable rest

/-- The environment with the variables of a file; what is set already stays. -/
def addFile (e : Environment) (file : Bytes) : Environment :=
  e.takeLines (logicalLines none (readable (physicalLines (withoutMark file))))

/-- The name of the file of variables. -/
def fileName : String := ".env"

end LiveIngest.Environment
