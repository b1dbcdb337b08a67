/-!
# Decimal numbers

A number on the wire or on the command line is a run of the digits `0` to `9`, optionally behind
a plus sign; leading zeros are free.  Reading it fails for one of four reasons, and the first one
met from left to right is reported: a text that is empty, a character that is no digit, a value
beyond the largest representable one, and, for signed numbers, a value below the smallest.

`parseUpTo` reads an unsigned number, `parseBetween` one that may carry a minus sign.
-/

namespace LiveIngest.Text

/-- Why a text is no number of the wanted range. -/
inductive NumberFault
  | empty
  | badDigit
  | tooLarge
  | tooSmall
deriving DecidableEq, Repr

/-- The wording of a refused number. -/
def NumberFault.message : NumberFault → String
  | .empty => "cannot parse integer from empty string"
  | .badDigit => "invalid digit found in string"
  | .tooLarge => "number too large to fit in target type"
  | .tooSmall => "number too small to fit in target type"

/-- The value of a digit. -/
def digitValue (c : Char) : Nat := c.toNat - '0'.toNat

/-- Reads digits behind the value `acc`; a value above `limit` is the fault `beyond`. -/
def digitsUpTo (limit : Nat) (beyond : NumberFault) : Nat → List Char → Except NumberFault Nat
  | acc, [] => .ok acc
  | acc, c :: r =>
    if ¬c.isDigit then .error .badDigit
    else if acc * 10 + digitValue c ≤ limit then digitsUpTo limit beyond (acc * 10 + digitValue c) r
    else .error beyond

/-- Reads an unsigned number of at most `limit`. -/
def parseUpTo (limit : Nat) : List Char → Except NumberFault Nat
  | [] => .error .empty
  | ['+'] => .error .badDigit
  | '+' :: r => digitsUpTo limit .tooLarge 0 r
  | s => digitsUpTo limit .tooLarge 0 s

/-- Reads a number from `-lowest` to `highest`. -/
def parseBetween (lowest highest : Nat) : List Char → Except NumberFault Int
  | [] => .error .empty
  | ['+'] => .error .badDigit
  | ['-'] => .error .badDigit
  | '-' :: r => (digitsUpTo lowest .tooSmall 0 r).map fun n => -(n : Int)
  | s => (parseUpTo highest s).map Int.ofNat

/-- The largest 64-bit word. -/
def maxWord : Nat := UInt64.size - 1

end LiveIngest.Text
