/-!
# Blank characters and trimming

Header values, form parameters and client-chosen names all pass through the same trimming, and
what counts as blank there is the Unicode property `White_Space`, not the handful of characters
of the ASCII class: a no-break space or an ideographic space around a name is dropped too, while a
zero-width space or a byte-order mark is kept.

`isBlank` is the table of that property.  `trim` drops the blanks at both ends.  The two lemmas at
the end say what a trimmed text looks like: it neither starts nor ends with a blank.
-/

namespace LiveIngest.Text

/-- The code points with the Unicode property `White_Space`. -/
def isBlank (c : Char) : Bool :=
  let n := c.toNat
  (9 ≤ n && n ≤ 13) || n == 0x20 || n == 0x85 || n == 0xA0 || n == 0x1680
    || (0x2000 ≤ n && n ≤ 0x200A) || n == 0x2028 || n == 0x2029 || n == 0x202F || n == 0x205F
    || n == 0x3000

/-- Drops the blanks in front. -/
def trimStart (s : List Char) : List Char := s.dropWhile isBlank

/-- Drops the blanks behind. -/
def trimEnd (s : List Char) : List Char := (s.reverse.dropWhile isBlank).reverse

/-- Drops the blanks at both ends; blanks inside stay. -/
def trim (s : List Char) : List Char := trimEnd (trimStart s)

theorem head_dropWhile_not {p : Char → Bool} :
    ∀ (s : List Char) (c : Char), (s.dropWhile p).head? = some c → p c = false
  | [], _, h => by simp at h
  | a :: r, c, h => by
    by_cases ha : p a = true
    · rw [List.dropWhile_cons_of_pos ha] at h
      exact head_dropWhile_not r c h
    · rw [List.dropWhile_cons_of_neg ha] at h
      simp only [List.head?_cons, Option.some.injEq] at h
      subst h
      simpa using ha

/-- The first character of a trimmed text is not blank. -/
theorem head?_trim {s : List Char} {c : Char} (h : (trim s).head? = some c) : isBlank c = false := by
  have hfront : trim s <+: trimStart s := by
    rw [← List.reverse_suffix, trim, trimEnd, List.reverse_reverse]
    exact List.dropWhile_suffix _
  obtain ⟨rest, hrest⟩ := hfront
  refine head_dropWhile_not s c ?_
  rw [← trimStart, ← hrest, List.head?_append, h]
  rfl

/-- The last character of a trimmed text is not blank. -/
theorem getLast?_trim {s : List Char} {c : Char} (h : (trim s).getLast? = some c) :
    isBlank c = false := by
  rw [trim, trimEnd, List.getLast?_reverse] at h
  exact head_dropWhile_not _ _ h

end LiveIngest.Text
