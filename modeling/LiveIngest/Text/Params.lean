import LiveIngest.Text.Split

/-!
# Parameter lists

A structured header value is a head followed by parameters, all separated by `;`.  A `;` inside a
quoted string is part of that string, so the splitter carries a state: outside quotes, inside
them, or directly behind a backslash inside them.  A backslash outside quotes is an ordinary
character.

`Quoting.after` is the state reached after a text, and `split` cuts at the separators met in the
state `outside`.  Main statement: `join_split`, the pieces with `;` between them are the text.
-/

namespace LiveIngest.Text

/-- Where in a header value the scanner stands. -/
inductive Quoting
  | outside
  | inside
  | escaped
deriving DecidableEq, Repr

/-- The state behind one more character. -/
def Quoting.next : Quoting → Char → Quoting
  | .outside, c => if c = '"' then .inside else .outside
  | .inside, c => if c = '"' then .outside else if c = '\\' then .escaped else .inside
  | .escaped, _ => .inside

/-- The state behind a whole text. -/
def Quoting.after (q : Quoting) (s : List Char) : Quoting := s.foldl Quoting.next q

/-- The pieces between the separators that stand outside quotes, read from state `q`. -/
def splitFrom : Quoting → List Char → List (List Char)
  | _, [] => [[]]
  | q, c :: r =>
    if c = ';' ∧ q = .outside then [] :: splitFrom q r
    else extendHead c (splitFrom (q.next c) r)

/-- The head and the parameters of a structured header value. -/
def splitParams (s : List Char) : List (List Char) := splitFrom .outside s

theorem splitFrom_ne_nil (q : Quoting) (s : List Char) : splitFrom q s ≠ [] := by
  cases s with
  | nil => simp [splitFrom]
  | cons c r =>
    rw [splitFrom]
    split
    · simp
    · exact extendHead_ne_nil c _

theorem join_splitFrom (q : Quoting) (s : List Char) : join [';'] (splitFrom q s) = s := by
  induction s generalizing q with
  | nil => rfl
  | cons c r ih =>
    rw [splitFrom]
    split
    · rename_i h
      rw [join_nil_cons _ (splitFrom_ne_nil _ r), ih, h.1]
      rfl
    · rw [join_extendHead _ _ (splitFrom_ne_nil _ r), ih]

/-- Splitting loses nothing. -/
theorem join_splitParams (s : List Char) : join [';'] (splitParams s) = s :=
  join_splitFrom .outside s

end LiveIngest.Text
