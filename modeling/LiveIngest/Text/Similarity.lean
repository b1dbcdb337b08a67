/-!
# How alike two words are

A mistyped word is close to the one that was meant.  Two characters of two words match when they
are equal and stand at most a window apart; each character matches at most once, the leftmost
partner first.  With `m` matches among `a` and `b` characters, and `t` pairs of them in exchanged
order, the words are alike by

  `(m / a + m / b + (m - t) / m) / 3`,

a number between zero and one.  It is kept as an exact fraction, so that comparing it needs no
rounding.
-/

namespace LiveIngest.Text

/-- A fraction between zero and one. -/
structure Likeness where
  part : Nat
  whole : Nat
deriving DecidableEq, Repr

namespace Likeness

/-- No likeness at all. -/
def zero : Likeness := ⟨0, 1⟩

/-- Whether one likeness is more than another. -/
def exceeds (a b : Likeness) : Bool := b.part * a.whole < a.part * b.whole

end Likeness

/-- Claims the leftmost free character `c` between the positions `low` and `high`; a claimed
character is marked. -/
def claim (c : Char) : Nat → Nat → List (Char × Bool) → Option (List (Char × Bool))
  | _, _, [] => none
  | 0, high, (d, taken) :: r =>
    if c = d ∧ ¬taken then some ((d, true) :: r)
    else
      match high with
      | 0 => none
      | h + 1 => (claim c 0 h r).map ((d, taken) :: ·)
  | low + 1, high, e :: r => (claim c low (high - 1) r).map (e :: ·)

/-- Matches the characters of a word, the first of which stands at position `i`, with those of
another; what is returned are the matched ones, in order, and the marked other word. -/
def claimAll (window : Nat) :
    Nat → List Char → List (Char × Bool) → List Char × List (Char × Bool)
  | _, [], other => ([], other)
  | i, c :: r, other =>
    match claim c (i - window) (i + window) other with
    | none => claimAll window (i + 1) r other
    | some other' =>
      let (matched, marked) := claimAll window (i + 1) r other'
      (c :: matched, marked)

/-- How far apart matching characters may stand. -/
def matchWindow (a b : Nat) : Nat := max a b / 2 - 1

/-- How alike two words are. -/
def likeness (a b : List Char) : Likeness :=
  let (inA, marked) := claimAll (matchWindow a.length b.length) 0 a (b.map fun c => (c, false))
  let inB := (marked.filter (·.2)).map (·.1)
  let m := inA.length
  let t := ((inA.zip inB).filter fun (x, y) => x ≠ y).length / 2
  if a = [] ∧ b = [] then ⟨1, 1⟩
  else if m = 0 then .zero
  else
    ⟨m * m * b.length + m * m * a.length + (m - t) * a.length * b.length,
      3 * a.length * b.length * m⟩

/-- A word matches with no more characters than it has. -/
theorem claimAll_length (window : Nat) :
    ∀ (a : List Char) (i : Nat) (other : List (Char × Bool)),
      (claimAll window i a other).1.length ≤ a.length
  | [], _, _ => by simp [claimAll]
  | c :: r, i, other => by
    rw [claimAll]
    split
    · exact Nat.le_succ_of_le (claimAll_length window r (i + 1) other)
    · have := claimAll_length window r (i + 1)
      simp only [List.length_cons]
      exact Nat.succ_le_succ (this _)

end LiveIngest.Text
