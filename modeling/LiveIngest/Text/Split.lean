/-!
# Cutting text into pieces

Three ways of cutting are used: at every character of a class (`splitOn`), at the first
occurrence of one character (`cut`), and at line ends, which on the wire are carriage return and
line feed together (`lines`).  A lone carriage return or line feed is ordinary text.

Every piece list is non-empty, and the pieces joined again give the text: `join_lines` and
`splitOn_ne_nil` record this.
-/

namespace LiveIngest.Text

/-- Puts one more character in front of the first piece. -/
def extendHead (c : Char) : List (List Char) → List (List Char)
  | [] => [[c]]
  | piece :: rest => (c :: piece) :: rest

/-- The pieces between the characters that satisfy `p`. -/
def splitOn (p : Char → Bool) : List Char → List (List Char)
  | [] => [[]]
  | c :: r => if p c then [] :: splitOn p r else extendHead c (splitOn p r)

/-- What stands before and after the first `sep`, if there is one. -/
def cut (sep : Char) : List Char → Option (List Char × List Char)
  | [] => none
  | c :: r => if c = sep then some ([], r) else (cut sep r).map fun (a, b) => (c :: a, b)

/-- The lines of a text whose line end is carriage return followed by line feed. -/
def lines : List Char → List (List Char)
  | [] => [[]]
  | '\r' :: '\n' :: r => [] :: lines r
  | c :: r => extendHead c (lines r)

/-- Pieces with `glue` between them. -/
def join (glue : List Char) : List (List Char) → List Char
  | [] => []
  | [piece] => piece
  | piece :: rest => piece ++ glue ++ join glue rest

theorem extendHead_ne_nil (c : Char) (ps : List (List Char)) : extendHead c ps ≠ [] := by
  cases ps <;> simp [extendHead]

theorem splitOn_ne_nil (p : Char → Bool) (s : List Char) : splitOn p s ≠ [] := by
  cases s with
  | nil => simp [splitOn]
  | cons c r =>
    rw [splitOn]
    split
    · simp
    · exact extendHead_ne_nil c _

theorem lines_ne_nil (s : List Char) : lines s ≠ [] := by
  fun_cases lines s with
  | case1 => simp
  | case2 => simp
  | case3 => exact extendHead_ne_nil _ _

theorem join_nil_cons (glue : List Char) {ps : List (List Char)} (h : ps ≠ []) :
    join glue ([] :: ps) = glue ++ join glue ps := by
  cases ps with
  | nil => exact absurd rfl h
  | cons p r => simp [join]

theorem join_extendHead (glue : List Char) (c : Char) {ps : List (List Char)} (h : ps ≠ []) :
    join glue (extendHead c ps) = c :: join glue ps := by
  cases ps with
  | nil => exact absurd rfl h
  | cons p r => cases r <;> simp [extendHead, join]

/-- The lines of a text with line ends between them are the text. -/
theorem join_lines (s : List Char) : join ['\r', '\n'] (lines s) = s := by
  fun_induction lines s with
  | case1 => rfl
  | case2 r ih => rw [join_nil_cons _ (lines_ne_nil r), ih]; rfl
  | case3 c r _ ih => rw [join_extendHead _ _ (lines_ne_nil r), ih]

end LiveIngest.Text
