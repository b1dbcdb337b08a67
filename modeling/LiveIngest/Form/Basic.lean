import LiveIngest.Form.Boundary
import LiveIngest.Form.Part

/-!
# Reading a form

A body is read from its opening delimiter on; what stands before it and behind the closing
delimiter is ignored.  The reader moves a `Cursor`, an offset together with the bytes from there
on, and each `turn` reads one delimiter line and the part behind it:

* two dashes behind the delimiter close the form;
* otherwise spaces and tabs may follow, then a line end, the header block and a blank line;
* the data reach up to the next separator, which is where the following turn starts.

Reading is strict: every departure from this is an error, and the first one met ends the reading.
`turn_shorter` is why it ends at all: each part uses up bytes.
-/

namespace LiveIngest.Form

/-- A place in a body: how far it is from the start, and what follows there. -/
structure Cursor where
  offset : Nat
  rest : Bytes
deriving DecidableEq, Repr

/-- The start of a body. -/
def Cursor.start (body : Bytes) : Cursor := ⟨0, body⟩

/-- The place `n` bytes further on. -/
def Cursor.advance (c : Cursor) (n : Nat) : Cursor := ⟨c.offset + n, c.rest.drop n⟩

/-- Whether a byte is padding: a space or a tab. -/
def isPadding (b : UInt8) : Bool := b == 32 || b == 9

/-- Where the first delimiter stands: at the start of the body, or at the start of a line. -/
def opening? (boundary : String) (body : Bytes) : Option Cursor :=
  if (delimiter boundary).isPrefixOf body then some (Cursor.start body)
  else (Bytes.find? (separator boundary) body).map fun i =>
    (Cursor.start body).advance (i + Bytes.crlf.length)

/-- Reads a header block, from its first line to the start of the data. -/
def readHeaders (c : Cursor) : Except FormError (List Header × Cursor) :=
  if Bytes.crlf.isPrefixOf c.rest then .ok ([], c.advance Bytes.crlf.length)
  else
    match Bytes.find? (Bytes.crlf ++ Bytes.crlf) c.rest with
    | some n =>
      if maxHeaderBytes < n then .error (.headersTooLarge maxHeaderBytes)
      else
        match Header.ofBlock (c.rest.take n) with
        | .error e => .error e
        | .ok headers => .ok (headers, c.advance (n + (Bytes.crlf ++ Bytes.crlf).length))
    | none =>
      if maxHeaderBytes < c.rest.length then .error (.headersTooLarge maxHeaderBytes)
      else .error .missingClosingBoundary

/-- Reads the part whose headers start at `c`, up to the separator behind its data. -/
def readPart (boundary : String) (c : Cursor) : Except FormError (Part × Cursor) :=
  match readHeaders c with
  | .error e => .error e
  | .ok (headers, content) =>
    match Bytes.find? (separator boundary) content.rest with
    | none => .error .missingClosingBoundary
    | some n =>
      match Part.ofHeaders headers (content.rest.take n) with
      | .error e => .error e
      | .ok part => .ok (part, content.advance (n + Bytes.crlf.length))

/-- The rest of a delimiter line: padding and a line end.  `c` stands behind the delimiter. -/
def readDelimiterEnd (c : Cursor) : Except FormError Cursor :=
  let padding := (c.rest.takeWhile isPadding).length
  let behind := c.advance padding
  if Bytes.crlf.isPrefixOf behind.rest then .ok (behind.advance Bytes.crlf.length)
  else if c.rest.length < padding + Bytes.crlf.length then .error .missingClosingBoundary
  else .error (.malformedDelimiter c.offset)

/-- One turn of the reader: nothing at the closing delimiter, else a part and the place of the
next delimiter. -/
def turn (boundary : String) (c : Cursor) : Except FormError (Option (Part × Cursor)) :=
  let behind := c.advance (delimiter boundary).length
  if [45, 45].isPrefixOf behind.rest then .ok none
  else
    match readDelimiterEnd behind with
    | .error e => .error e
    | .ok line =>
      match readPart boundary line with
      | .error e => .error e
      | .ok found => .ok (some found)

/-! ## Every turn uses up bytes -/

theorem Cursor.length_advance (c : Cursor) (n : Nat) :
    (c.advance n).rest.length = c.rest.length - n := by
  simp [Cursor.advance]

theorem readHeaders_length_le {c content : Cursor} {headers : List Header}
    (h : readHeaders c = .ok (headers, content)) : content.rest.length ≤ c.rest.length := by
  unfold readHeaders at h
  split at h
  · simp only [Except.ok.injEq, Prod.mk.injEq] at h
    rw [← h.2, Cursor.length_advance]
    omega
  · split at h
    · split at h
      · simp at h
      · split at h
        · simp at h
        · simp only [Except.ok.injEq, Prod.mk.injEq] at h
          rw [← h.2, Cursor.length_advance]
          omega
    · split at h <;> simp at h

theorem readPart_shorter {boundary : String} {c next : Cursor} {part : Part}
    (h : readPart boundary c = .ok (part, next)) : next.rest.length < c.rest.length := by
  unfold readPart at h
  split at h
  · simp at h
  · rename_i headers content hh
    split at h
    · simp at h
    · rename_i n hn
      split at h
      · simp at h
      · simp only [Except.ok.injEq, Prod.mk.injEq] at h
        have hle := readHeaders_length_le hh
        have hfound := Bytes.find?_bound hn
        have hfour := four_le_length_separator boundary
        rw [← h.2, Cursor.length_advance]
        simp only [Bytes.crlf, List.length_cons, List.length_nil]
        omega

theorem readDelimiterEnd_length_le {c line : Cursor} (h : readDelimiterEnd c = .ok line) :
    line.rest.length ≤ c.rest.length := by
  unfold readDelimiterEnd at h
  simp only at h
  split at h
  · simp only [Except.ok.injEq] at h
    rw [← h, Cursor.length_advance, Cursor.length_advance]
    omega
  · split at h <;> simp at h

/-- A turn that yields a part leaves fewer bytes to read. -/
theorem turn_shorter {boundary : String} {c next : Cursor} {part : Part}
    (h : turn boundary c = .ok (some (part, next))) : next.rest.length < c.rest.length := by
  unfold turn at h
  simp only at h
  split at h
  · simp at h
  · split at h
    · simp at h
    · rename_i line hline
      split at h
      · simp at h
      · rename_i found hfound
        simp only [Except.ok.injEq, Option.some.injEq] at h
        subst h
        have h1 := readPart_shorter hfound
        have h2 := readDelimiterEnd_length_le hline
        rw [Cursor.length_advance] at h2
        omega

/-! ## The whole form -/

/-- The parts from the delimiter at `c` up to the closing delimiter. -/
def partsFrom (boundary : String) (c : Cursor) : Except FormError (List Part) :=
  match _found : turn boundary c with
  | .error e => .error e
  | .ok none => .ok []
  | .ok (some (part, next)) =>
    match partsFrom boundary next with
    | .error e => .error e
    | .ok parts => .ok (part :: parts)
termination_by c.rest.length
decreasing_by exact turn_shorter _found

/-- The parts of a form body, in order; there is at least one. -/
def parse (body : Bytes) (boundary : String) : Except FormError (List Part) :=
  match checkBoundary boundary with
  | .error fault => .error (.invalidBoundary fault)
  | .ok () =>
    match opening? boundary body with
    | none => .error .missingOpeningBoundary
    | some c =>
      match partsFrom boundary c with
      | .error e => .error e
      | .ok [] => .error .emptyForm
      | .ok parts => .ok parts

/-- The first part of that name. -/
def field? (parts : List Part) (name : String) : Option Part := parts.find? (·.name == name)

end LiveIngest.Form
