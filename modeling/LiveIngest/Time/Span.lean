/-!
# Lengths of time

A span is a whole number of nanoseconds.  In reports it is written in the largest unit of s, ms,
µs and ns in which it is at least one, with as many decimal places as it needs: `1.5s`, `100ms`,
`1.000000001s`, `1ns`.
-/

namespace LiveIngest

/-- A length of time in nanoseconds. -/
structure Span where
  nanos : Nat
deriving DecidableEq, Repr

namespace Span

def nanosPerSecond : Nat := 1000000000

def nanosPerMilli : Nat := 1000000

def ofSeconds (s : Nat) : Span := ⟨nanosPerSecond * s⟩

def ofMillis (ms : Nat) : Span := ⟨nanosPerMilli * ms⟩

instance : Add Span := ⟨fun a b => ⟨a.nanos + b.nanos⟩⟩

/-- The whole seconds of a span. -/
def seconds (t : Span) : Nat := t.nanos / nanosPerSecond

/-- What is left of a span behind its whole seconds, in nanoseconds. -/
def subsecond (t : Span) : Nat := t.nanos % nanosPerSecond

/-- The first whole millisecond that is not before the end of the span. -/
def ceilMillis (t : Span) : Nat := (t.nanos + (nanosPerMilli - 1)) / nanosPerMilli

/-- `part` as the decimal places of a unit that has `10 ^ places` of them, shortened. -/
def decimals (places part : Nat) : List Char :=
  let digits := (toString part).toList
  let padded := List.replicate (places - digits.length) '0' ++ digits
  (padded.reverse.dropWhile (· = '0')).reverse

/-- A number of units with its decimal places. -/
def inUnit (nanos places : Nat) (unit : String) : String :=
  let scale := Nat.pow 10 places
  let whole := toString (nanos / scale)
  match decimals places (nanos % scale) with
  | [] => whole ++ unit
  | ds => whole ++ "." ++ String.ofList ds ++ unit

/-- The text of a span in reports. -/
def text (t : Span) : String :=
  if nanosPerSecond ≤ t.nanos then inUnit t.nanos 9 "s"
  else if nanosPerMilli ≤ t.nanos then inUnit t.nanos 6 "ms"
  else if 1000 ≤ t.nanos then inUnit t.nanos 3 "µs"
  else inUnit t.nanos 0 "ns"

end Span

end LiveIngest
