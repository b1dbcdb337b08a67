/-!
# Byte strings

Bodies, header values and file contents are byte strings, kept as lists so that every reader of
them is a recursion on the data.

Two things are done with bytes besides cutting them: looking for the first occurrence of a
pattern (`find?`), and reading them as text (`text?`), which succeeds exactly on well-formed
UTF-8.  Main statements: `find?_bound`, an occurrence lies wholly inside the searched bytes, and
`text?_ofText`, text written as bytes reads back.
-/

namespace LiveIngest

/-- A string of bytes. -/
abbrev Bytes := List UInt8

namespace Bytes

/-- Carriage return and line feed. -/
def crlf : Bytes := [13, 10]

/-- The UTF-8 form of a string. -/
def ofString (s : String) : Bytes := s.toByteArray.data.toList

/-- The UTF-8 form of a text. -/
def ofText (s : List Char) : Bytes := ofString (String.ofList s)

/-- The text that the bytes are the UTF-8 form of, if they are one. -/
def text? (bs : Bytes) : Option (List Char) := (ByteArray.mk bs.toArray).utf8Decode?.map Array.toList

/-- The position of the first occurrence of `pattern`, counted from `i`. -/
def findFrom (pattern : Bytes) : Nat → Bytes → Option Nat
  | i, [] => if pattern.isEmpty then some i else none
  | i, b :: r => if pattern.isPrefixOf (b :: r) then some i else findFrom pattern (i + 1) r

/-- The position of the first occurrence of `pattern`. -/
def find? (pattern bs : Bytes) : Option Nat := findFrom pattern 0 bs

/-! ## What a search finds -/

theorem findFrom_bound {pattern : Bytes} :
    ∀ (bs : Bytes) (i n : Nat), findFrom pattern i bs = some n →
      i ≤ n ∧ n + pattern.length ≤ i + bs.length
  | [], i, n, h => by
    rw [findFrom] at h
    split at h
    · rename_i he
      simp only [List.isEmpty_iff] at he
      simp only [Option.some.injEq] at h
      subst he h
      simp
    · simp at h
  | b :: r, i, n, h => by
    rw [findFrom] at h
    split at h
    · rename_i hp
      simp only [Option.some.injEq] at h
      subst h
      have := (List.isPrefixOf_iff_prefix.1 hp).length_le
      exact ⟨Nat.le_refl _, by omega⟩
    · have := findFrom_bound r (i + 1) n h
      simp only [List.length_cons]
      omega

/-- An occurrence lies wholly inside the searched bytes. -/
theorem find?_bound {pattern bs : Bytes} {n : Nat} (h : find? pattern bs = some n) :
    n + pattern.length ≤ bs.length := by
  have := findFrom_bound bs 0 n h
  omega

/-! ## Text as bytes -/

theorem ofText_toList (s : String) : ofText s.toList = ofString s := by
  rw [ofText, String.ofList_toList]

/-- Text written as bytes reads back. -/
theorem text?_ofText (s : List Char) : text? (ofText s) = some s := by
  have h : (String.ofList s).toByteArray = s.utf8Encode := by
    rw [← String.utf8Encode_toList, String.toList_ofList]
  rw [text?, ofText, ofString, Array.toArray_toList, h]
  show (s.utf8Encode.utf8Decode?).map Array.toList = some s
  rw [List.utf8Decode?_utf8Encode]
  simp

end Bytes

end LiveIngest
