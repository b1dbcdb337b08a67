/-!
# Quoted strings

A parameter value is either bare or a quoted string.  Inside the quotes a backslash makes the
next character stand for itself, so a quote or a backslash can be part of the value.  `quote`
writes a value in the quoted form and `unquote` reads either form.

Reading is lenient: a value that does not both open and close with a quote is taken as it stands,
and a backslash with nothing behind it is dropped.  Main statement: `unquote_quote`, every value
can be written and is read back unchanged.
-/

namespace LiveIngest.Text

/-- Resolves escapes: a backslash stands for the character behind it. -/
def unescape : List Char → List Char
  | [] => []
  | ['\\'] => []
  | '\\' :: c :: r => c :: unescape r
  | c :: r => c :: unescape r

/-- The text between a leading and a closing quote, if both are there. -/
def enclosed? : List Char → Option (List Char)
  | '"' :: r => if r.getLast? = some '"' then some r.dropLast else none
  | _ => none

/-- The value of a parameter: bare, or what stands between quotes with its escapes resolved. -/
def unquote (s : List Char) : List Char :=
  match enclosed? s with
  | some inner => unescape inner
  | none => s

/-- Puts a backslash before every quote and every backslash. -/
def escape : List Char → List Char
  | [] => []
  | c :: r => if c = '"' ∨ c = '\\' then '\\' :: c :: escape r else c :: escape r

/-- A value written as a quoted string. -/
def quote (s : List Char) : List Char := '"' :: (escape s ++ ['"'])

theorem unescape_escape (s : List Char) : unescape (escape s) = s := by
  induction s with
  | nil => rfl
  | cons c r ih =>
    rw [escape]
    split
    · rw [unescape, ih]
    · rename_i h
      have hc : c ≠ '\\' := fun e => h (Or.inr e)
      rw [unescape, ih]
      · intro he; exact absurd he hc
      · intro _ _ he; exact absurd he hc

theorem enclosed?_quote (s : List Char) : enclosed? (quote s) = some (escape s) := by
  simp [enclosed?, quote]

/-- Every value is read back from its quoted form. -/
theorem unquote_quote (s : List Char) : unquote (quote s) = s := by
  rw [unquote, enclosed?_quote]
  exact unescape_escape s

end LiveIngest.Text
