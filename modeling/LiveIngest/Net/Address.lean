import LiveIngest.Error
import LiveIngest.Text.Decimal

/-!
# Socket addresses

The address to listen on is a text: four decimal bytes and a port, `127.0.0.1:8000`, or eight
hexadecimal groups in brackets, `[::1]:8000`, possibly with a numeric scope behind a `%`.  A byte
has no leading zero.  A run of zero groups may be left out once, and the last two groups may be
written as four decimal bytes.

`SocketAddr.parse?` reads the whole text or nothing.  `SocketAddr.text` writes the one canonical
form: small hexadecimal digits, the first longest run of at least two zero groups left out, and
decimal bytes for an address that maps one of four bytes.

Readers return what they read together with the text behind it.
-/

namespace LiveIngest.Net

open LiveIngest.Text

/-- A reader of the front of a text. -/
abbrev Reader (α : Type) := List Char → Option (α × List Char)

/-- The value of a digit of the given base. -/
def digit? (base : Nat) (c : Char) : Option Nat :=
  let value :=
    if c.isDigit then some (c.toNat - '0'.toNat)
    else if 'a' ≤ c ∧ c ≤ 'z' then some (c.toNat - 'a'.toNat + 10)
    else if 'A' ≤ c ∧ c ≤ 'Z' then some (c.toNat - 'A'.toNat + 10)
    else none
  value.filter (· < base)

/-- The digits at the front of a text, as values. -/
def digits (base : Nat) : List Char → List Nat × List Char
  | [] => ([], [])
  | c :: r =>
    match digit? base c with
    | none => ([], c :: r)
    | some d => let (ds, rest) := digits base r; (d :: ds, rest)

/-- How a number is written: its base, its largest value, and limits on its digits. -/
structure NumberForm where
  base : Nat
  limit : Nat
  maxDigits : Option Nat
  leadingZero : Bool

/-- Reads as many digits as there are; the number they make must have the given form. -/
def number (form : NumberForm) : Reader Nat := fun s =>
  let (ds, rest) := digits form.base s
  let value := ds.foldl (fun n d => n * form.base + d) 0
  let wellFormed := !ds.isEmpty && form.maxDigits.all (ds.length ≤ ·)
    && (form.leadingZero || ds.length == 1 || ds.head? != some 0)
  if wellFormed && value ≤ form.limit then some (value, rest) else none

/-- Reads one given character. -/
def expect (c : Char) : Reader Unit
  | [] => none
  | d :: r => if d = c then some ((), r) else none

/-- A byte in decimal. -/
def byteForm : NumberForm := ⟨10, 255, some 3, false⟩

/-- Four decimal bytes with dots between them. -/
def fourBytes : Reader (List Nat) := fun s => do
  let (a, s) ← number byteForm s
  let (_, s) ← expect '.' s
  let (b, s) ← number byteForm s
  let (_, s) ← expect '.' s
  let (c, s) ← number byteForm s
  let (_, s) ← expect '.' s
  let (d, s) ← number byteForm s
  return ([a, b, c, d], s)

/-- A reader behind a colon, except in first place. -/
def behindColon {α : Type} (first : Bool) (r : Reader α) : Reader α := fun s =>
  if first then r s
  else do
    let (_, s) ← expect ':' s
    r s

/-- A group of four hexadecimal digits. -/
def groupForm : NumberForm := ⟨16, 65535, some 4, true⟩

/-- Reads at most `room` groups; the flag tells whether they end in decimal bytes. -/
def groups (first : Bool) : Nat → List Char → List Nat × Bool × List Char
  | 0, s => ([], false, s)
  | room + 1, s =>
    let bytes := if room = 0 then none else behindColon first fourBytes s
    match bytes with
    | some ([a, b, c, d], rest) => ([a * 256 + b, c * 256 + d], true, rest)
    | _ =>
      match behindColon first (number groupForm) s with
      | none => ([], false, s)
      | some (g, rest) =>
        let (gs, mapped, rest) := groups false room rest
        (g :: gs, mapped, rest)

/-- Eight groups, one run of zeros possibly left out. -/
def eightGroups : Reader (List Nat) := fun s =>
  let (head, mapped, rest) := groups true 8 s
  if head.length = 8 then some (head, rest)
  else if mapped then none
  else do
    let (_, rest) ← expect ':' rest
    let (_, rest) ← expect ':' rest
    let (tail, _, rest) := groups true (7 - head.length) rest
    return (head ++ List.replicate (8 - head.length - tail.length) 0 ++ tail, rest)

/-- An address and a port. -/
inductive SocketAddr
  | v4 (bytes : List Nat) (port : Nat)
  | v6 (groups : List Nat) (scope port : Nat)
deriving DecidableEq, Repr

/-- A port number behind a colon. -/
def port : Reader Nat := fun s => do
  let (_, s) ← expect ':' s
  number ⟨10, 65535, none, true⟩ s

/-- A numeric scope behind a `%`, zero when there is none. -/
def scope : Reader Nat := fun s =>
  match expect '%' s with
  | none => some (0, s)
  | some (_, r) => (number ⟨10, UInt32.size - 1, none, true⟩ r).orElse fun _ => some (0, s)

def socketV4 : Reader SocketAddr := fun s => do
  let (bytes, s) ← fourBytes s
  let (p, s) ← port s
  return (.v4 bytes p, s)

def socketV6 : Reader SocketAddr := fun s => do
  let (_, s) ← expect '[' s
  let (gs, s) ← eightGroups s
  let (scopeId, s) ← scope s
  let (_, s) ← expect ']' s
  let (p, s) ← port s
  return (.v6 gs scopeId p, s)

/-! ## The canonical form -/

/-- A group in hexadecimal, without leading zeros. -/
def groupText (g : Nat) : String := String.ofList (Nat.toDigits 16 g)

/-- The zeros that a list of groups starts with. -/
def leadingZeros (gs : List Nat) : Nat := (gs.takeWhile (· = 0)).length

/-- Start and length of the first longest run of zero groups. -/
def longestZeros (gs : List Nat) : Nat × Nat :=
  (List.range gs.length).foldl
    (fun best i => let n := leadingZeros (gs.drop i); if best.2 < n then (i, n) else best) (0, 0)

def groupsText (gs : List Nat) : String := ":".intercalate (gs.map groupText)

def bytesText (bs : List Nat) : String := ".".intercalate (bs.map toString)

/-- The text of eight groups. -/
def addressText (gs : List Nat) : String :=
  match gs with
  | [0, 0, 0, 0, 0, 0xffff, a, b] =>
    "::ffff:" ++ bytesText [a / 256, a % 256, b / 256, b % 256]
  | _ =>
    let (start, length) := longestZeros gs
    if 1 < length then groupsText (gs.take start) ++ "::" ++ groupsText (gs.drop (start + length))
    else groupsText gs

namespace SocketAddr

/-- The text of an address without its port. -/
def hostText : SocketAddr → String
  | .v4 bytes _ => bytesText bytes
  | .v6 gs scopeId _ =>
    let zone := if scopeId = 0 then "" else "%" ++ toString scopeId
    "[" ++ addressText gs ++ zone ++ "]"

def port : SocketAddr → Nat
  | .v4 _ p => p
  | .v6 _ _ p => p

/-- The canonical text of an address. -/
def text (a : SocketAddr) : String := a.hostText ++ ":" ++ toString a.port

/-- Reads a whole text as a socket address. -/
def parse? (s : String) : Option SocketAddr :=
  match (socketV4 s.toList).orElse fun _ => socketV6 s.toList with
  | some (address, []) => some address
  | _ => none

end SocketAddr

/-- Where a server listens. -/
structure Endpoint where
  bindAddress : String := "0.0.0.0"
  port : Nat := 8000
deriving DecidableEq, Repr

/-- The socket address of an endpoint. -/
def Endpoint.socketAddr (e : Endpoint) : Except Error SocketAddr :=
  match SocketAddr.parse? (e.bindAddress ++ ":" ++ toString e.port) with
  | some address => .ok address
  | none => .error (.api .invalidAddress)

end LiveIngest.Net
