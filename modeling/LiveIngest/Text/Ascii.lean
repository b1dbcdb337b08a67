/-!
# Letter case of ASCII text

Media types, header names, parameter names and segment suffixes are compared without regard to
case.  Case here is that of ASCII: `É` and `é` differ, and so do `K` and the Kelvin sign.  Core's
`Char.toLower` maps exactly the letters `A` to `Z`, so folding a text is mapping it.
-/

namespace LiveIngest.Text

/-- The text with its ASCII capitals made small. -/
def lower (s : List Char) : List Char := s.map Char.toLower

/-- Equality up to the case of ASCII letters. -/
def sameFolded (a b : List Char) : Bool := lower a == lower b

/-- Whether a text ends in `tail`. -/
def endsWith (s tail : List Char) : Bool := tail.reverse.isPrefixOf s.reverse

theorem sameFolded_iff {a b : List Char} : sameFolded a b = true ↔ lower a = lower b := by
  simp [sameFolded]

theorem endsWith_iff {s tail : List Char} : endsWith s tail = true ↔ tail <:+ s := by
  simp [endsWith, List.isPrefixOf_iff_prefix, List.reverse_prefix]

end LiveIngest.Text
