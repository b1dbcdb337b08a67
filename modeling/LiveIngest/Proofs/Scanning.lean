import LiveIngest.Proofs.Grammar

/-!
# Reading a form by offsets

The reader of a form moves a cursor, which carries the bytes that follow; it cannot look beyond the
end of a body, because there is nothing to look at.  A reader that keeps a buffer and an offset can:
every slice it takes has to lie inside the buffer.

`scan` is such a reader.  It takes its slices with `tail?` and `between?`, which give nothing for an
offset out of range, and it goes wrong altogether as soon as one of them does.

1. **Where a cursor stands.**  A cursor `At` a buffer holds what the buffer has from its offset on, and
   the offset is in the buffer.  Moving on by bytes that are there keeps this (`At.advance`).

2. **One turn.**  From a place where a delimiter stands, a turn of either reader comes to the same
   (`scanTurn_eq`), and if it finds a part it ends where a delimiter stands again.

3. **The whole form.**  `scan_eq` says that `scan` never goes wrong: it is `parse`, for all bytes and
   every boundary.

The two readers are written side by side, function by function, and so are the lemmas:
`scanHeaders_eq`, `scanPart_eq` and so on each say that the one with offsets succeeds in taking its
slices and returns what the other returns.
-/

namespace LiveIngest.Form

/-! ## A reader with a buffer and an offset -/

/-- The bytes from an offset on, which must not be beyond the end. -/
def tail? (buffer : Bytes) (i : Nat) : Option Bytes :=
  if i ≤ buffer.length then some (buffer.drop i) else none

/-- The bytes between two offsets, which must be in order and not beyond the end. -/
def between? (buffer : Bytes) (i j : Nat) : Option Bytes :=
  if i ≤ j ∧ j ≤ buffer.length then some ((buffer.drop i).take (j - i)) else none

/-- Reads the header block at an offset; the offset returned is where the data start.  Each slice is
asked for and may be out of range. -/
def scanHeaders (buffer : Bytes) (start : Nat) : Option (Except FormError (List Header × Nat)) :=
  match tail? buffer start with
  | none => none
  | some rest =>
    if Bytes.crlf.isPrefixOf rest then some (.ok ([], start + Bytes.crlf.length))
    else
      match Bytes.find? (Bytes.crlf ++ Bytes.crlf) rest with
      | some n =>
        if maxHeaderBytes < n then some (.error (.headersTooLarge maxHeaderBytes))
        else
          match between? rest 0 n with
          | none => none
          | some block =>
            match Header.ofBlock block with
            | .error e => some (.error e)
            | .ok headers =>
              some (.ok (headers, start + (n + (Bytes.crlf ++ Bytes.crlf).length)))
      | none =>
        if maxHeaderBytes < rest.length then some (.error (.headersTooLarge maxHeaderBytes))
        else some (.error .missingClosingBoundary)

/-- Reads the part whose headers start at an offset; the offset returned is that of the next
delimiter. -/
def scanPart (boundary : String) (buffer : Bytes) (start : Nat) :
    Option (Except FormError (Part × Nat)) :=
  match scanHeaders buffer start with
  | none => none
  | some (.error e) => some (.error e)
  | some (.ok (headers, content)) =>
    match tail? buffer content with
    | none => none
    | some rest =>
      match Bytes.find? (separator boundary) rest with
      | none => some (.error .missingClosingBoundary)
      | some n =>
        match between? buffer content (content + n) with
        | none => none
        | some data =>
          match Part.ofHeaders headers data with
          | .error e => some (.error e)
          | .ok part => some (.ok (part, content + (n + Bytes.crlf.length)))

/-- Reads the rest of a delimiter line that starts at an offset. -/
def scanDelimiterEnd (buffer : Bytes) (after : Nat) : Option (Except FormError Nat) :=
  match tail? buffer after with
  | none => none
  | some rest =>
    let padding := (rest.takeWhile isPadding).length
    match tail? rest padding with
    | none => none
    | some behind =>
      if Bytes.crlf.isPrefixOf behind then some (.ok (after + padding + Bytes.crlf.length))
      else if rest.length < padding + Bytes.crlf.length then some (.error .missingClosingBoundary)
      else some (.error (.malformedDelimiter after))

/-- One turn, from the offset of a delimiter. -/
def scanTurn (boundary : String) (buffer : Bytes) (i : Nat) :
    Option (Except FormError (Option (Part × Nat))) :=
  let after := i + (delimiter boundary).length
  match tail? buffer after with
  | none => none
  | some rest =>
    if [45, 45].isPrefixOf rest then some (.ok none)
    else
      match scanDelimiterEnd buffer after with
      | none => none
      | some (.error e) => some (.error e)
      | some (.ok line) =>
        match scanPart boundary buffer line with
        | none => none
        | some (.error e) => some (.error e)
        | some (.ok found) => some (.ok (some found))

/-! ## A reader with an offset comes to an end -/

/-- A slice that was taken was in range. -/
theorem tail?_eq_some_iff {buffer rest : Bytes} {i : Nat} :
    tail? buffer i = some rest ↔ i ≤ buffer.length ∧ rest = buffer.drop i := by
  rw [tail?]
  split <;> simp_all [eq_comm]

/-- A header block is not shorter than its line end, and lies in the buffer. -/
theorem scanHeaders_bound {buffer : Bytes} {start content : Nat} {headers : List Header}
    (h : scanHeaders buffer start = some (.ok (headers, content))) :
    start + Bytes.crlf.length ≤ content ∧ content ≤ buffer.length := by
  unfold scanHeaders at h
  split at h
  · simp at h
  · rename_i rest hrest
    obtain ⟨hle, rfl⟩ := tail?_eq_some_iff.mp hrest
    split at h
    · rename_i hcrlf
      have hlength := (List.isPrefixOf_iff_prefix.mp hcrlf).length_le
      rw [List.length_drop] at hlength
      cases h
      omega
    · split at h
      · rename_i n hn
        have hbound := Bytes.find?_bound hn
        rw [List.length_drop] at hbound
        split at h
        · simp at h
        · split at h
          · simp at h
          · split at h
            · simp at h
            · cases h
              rw [List.length_append] at hbound ⊢
              omega
      · split at h <;> simp at h

/-- A part is not shorter than two line ends and a delimiter without a boundary, and lies in the
buffer. -/
theorem scanPart_bound {boundary : String} {buffer : Bytes} {start next : Nat} {part : Part}
    (h : scanPart boundary buffer start = some (.ok (part, next))) :
    start + 4 ≤ next ∧ next ≤ buffer.length := by
  unfold scanPart at h
  split at h
  · simp at h
  · simp at h
  · rename_i headers content hheaders
    split at h
    · simp at h
    · rename_i rest hrest
      split at h
      · simp at h
      · rename_i n hn
        split at h
        · simp at h
        · split at h
          · simp at h
          · cases h
            obtain ⟨hle, rfl⟩ := tail?_eq_some_iff.mp hrest
            have hstart := (scanHeaders_bound hheaders).1
            have hbound := Bytes.find?_bound hn
            have hfour := four_le_length_separator boundary
            rw [List.length_drop] at hbound
            simp only [Bytes.crlf, List.length_cons, List.length_nil] at hstart ⊢
            omega

/-- The rest of a delimiter line is not shorter than its line end, and lies in the buffer. -/
theorem scanDelimiterEnd_bound {buffer : Bytes} {after line : Nat}
    (h : scanDelimiterEnd buffer after = some (.ok line)) :
    after + Bytes.crlf.length ≤ line ∧ line ≤ buffer.length := by
  unfold scanDelimiterEnd at h
  split at h
  · simp at h
  · rename_i rest hrest
    obtain ⟨hle, rfl⟩ := tail?_eq_some_iff.mp hrest
    simp only at h
    split at h
    · simp at h
    · rename_i behind hbehind
      obtain ⟨hpadding, rfl⟩ := tail?_eq_some_iff.mp hbehind
      split at h
      · rename_i hcrlf
        have hlength := (List.isPrefixOf_iff_prefix.mp hcrlf).length_le
        rw [List.length_drop, List.length_drop] at hlength
        rw [List.length_drop] at hpadding
        cases h
        omega
      · split at h <;> simp at h

/-- A turn that finds a part moves on by a delimiter and three line ends at least, and stays in the
buffer.  So turns come to an end. -/
theorem scanTurn_bound {boundary : String} {buffer : Bytes} {i next : Nat} {part : Part}
    (h : scanTurn boundary buffer i = some (.ok (some (part, next)))) :
    i + ((delimiter boundary).length + 6) ≤ next ∧ next ≤ buffer.length := by
  unfold scanTurn at h
  simp only at h
  split at h
  · simp at h
  · split at h
    · simp at h
    · split at h
      · simp at h
      · simp at h
      · rename_i line hline
        split at h
        · simp at h
        · simp at h
        · rename_i found hfound
          cases h
          have hle := (scanDelimiterEnd_bound hline).1
          have hbound := scanPart_bound hfound
          simp only [Bytes.crlf, List.length_cons, List.length_nil] at hle
          omega

/-- The parts from the delimiter at an offset up to the closing delimiter.  What is left of the
buffer gets shorter with every turn. -/
def scanFrom (boundary : String) (buffer : Bytes) (i : Nat) : Option (Except FormError (List Part)) :=
  match _found : scanTurn boundary buffer i with
  | none => none
  | some (.error e) => some (.error e)
  | some (.ok none) => some (.ok [])
  | some (.ok (some (part, next))) =>
    match scanFrom boundary buffer next with
    | none => none
    | some (.error e) => some (.error e)
    | some (.ok parts) => some (.ok (part :: parts))
termination_by buffer.length - i
decreasing_by
  have := scanTurn_bound _found
  omega

/-- What a turn leads to. -/
theorem scanFrom_of_turn {boundary : String} {buffer : Bytes} {i : Nat}
    {r : Except FormError (Option (Part × Nat))} :
    scanTurn boundary buffer i = some r → scanFrom boundary buffer i =
      match r with
      | .error e => some (.error e)
      | .ok none => some (.ok [])
      | .ok (some (part, next)) =>
        match scanFrom boundary buffer next with
        | none => none
        | some (.error e) => some (.error e)
        | some (.ok parts) => some (.ok (part :: parts)) := by
  intro h
  rw [scanFrom]
  split <;> rename_i found <;> rw [h] at found <;> cases found <;> rfl

/-- The parts of a form, read by offsets; nothing if a slice is out of range. -/
def scan (buffer : Bytes) (boundary : String) : Option (Except FormError (List Part)) :=
  match checkBoundary boundary with
  | .error fault => some (.error (.invalidBoundary fault))
  | .ok () =>
    match opening? boundary buffer with
    | none => some (.error .missingOpeningBoundary)
    | some c =>
      match scanFrom boundary buffer c.offset with
      | none => none
      | some (.error e) => some (.error e)
      | some (.ok []) => some (.error .emptyForm)
      | some (.ok parts) => some (.ok parts)

/-! ## Where a cursor stands -/

/-- A cursor is a place of a buffer.  Its offset is in range, so slices from there can be taken. -/
structure Cursor.At (buffer : Bytes) (c : Cursor) : Prop where
  bound : c.offset ≤ buffer.length
  rest : c.rest = buffer.drop c.offset

section

variable {boundary : String} {buffer : Bytes} {c : Cursor}

/-- The rest of the buffer is the rest of the cursor. -/
theorem Cursor.At.tail?_eq (h : c.At buffer) : tail? buffer c.offset = some c.rest := by
  rw [tail?, if_pos h.bound, h.rest]

/-- What is passed and what is left are the whole buffer. -/
theorem Cursor.At.length_rest (h : c.At buffer) : c.offset + c.rest.length = buffer.length := by
  have := h.bound
  rw [h.rest, List.length_drop]
  omega

/-- Moving on by no more than is there leads to a place again. -/
theorem Cursor.At.advance (h : c.At buffer) {n : Nat} (hn : n ≤ c.rest.length) :
    (c.advance n).At buffer := by
  have hlength := h.length_rest
  constructor
  · show c.offset + n ≤ buffer.length
    omega
  · show c.rest.drop n = buffer.drop (c.offset + n)
    rw [h.rest, List.drop_drop]

/-- A slice from the place on can be taken if it is not longer than what is left. -/
theorem Cursor.At.between?_eq (h : c.At buffer) {n : Nat} (hn : n ≤ c.rest.length) :
    between? buffer c.offset (c.offset + n) = some (c.rest.take n) := by
  have hlength := h.length_rest
  rw [between?, if_pos (by omega), Nat.add_sub_cancel_left, h.rest]

/-- Nothing can be found or counted beyond the end, so a place behind something that was found is in
the buffer. -/
theorem Cursor.At.advance_find (h : c.At buffer) {pattern : Bytes} {n : Nat}
    (hn : Bytes.find? pattern c.rest = some n) {k : Nat} (hk : k ≤ pattern.length) :
    (c.advance (n + k)).At buffer := by
  have := Bytes.find?_bound hn
  exact h.advance (by omega)

/-- Behind something that stands there is a place of the buffer. -/
theorem Cursor.At.advance_prefix (h : c.At buffer) {pattern : Bytes}
    (hp : pattern.isPrefixOf c.rest = true) : (c.advance pattern.length).At buffer :=
  h.advance (List.isPrefixOf_iff_prefix.mp hp).length_le

/-! ## The two readers agree -/

/-- A result of the reader with a cursor, as the other reader reports it. -/
def offsetOf {α : Type} (r : Except FormError (α × Cursor)) : Except FormError (α × Nat) :=
  r.map fun found => (found.1, found.2.offset)

/-- Both readers find the same headers, and data start at a place of the buffer. -/
theorem scanHeaders_eq (h : c.At buffer) :
    scanHeaders buffer c.offset = some (offsetOf (readHeaders c)) ∧
      ∀ headers content, readHeaders c = .ok (headers, content) → content.At buffer := by
  rw [scanHeaders, h.tail?_eq, readHeaders]
  simp only
  cases hcrlf : Bytes.crlf.isPrefixOf c.rest with
  | true => exact ⟨rfl, fun headers content he => by cases he; exact h.advance_prefix hcrlf⟩
  | false =>
    simp only [Bool.false_eq_true, if_false]
    cases hn : Bytes.find? (Bytes.crlf ++ Bytes.crlf) c.rest with
    | none =>
      by_cases hlong : maxHeaderBytes < c.rest.length
      · simp [hlong, offsetOf, Except.map]
      · simp [hlong, offsetOf, Except.map]
    | some n =>
      by_cases hlong : maxHeaderBytes < n
      · simp [hlong, offsetOf, Except.map]
      · have hbound := Bytes.find?_bound hn
        have hblock : between? c.rest 0 n = some (c.rest.take n) := by
          rw [between?, if_pos (by omega)]
          rfl
        simp only [hlong, if_false, hblock]
        cases Header.ofBlock (c.rest.take n) with
        | error e => exact ⟨rfl, by simp⟩
        | ok headers =>
          refine ⟨rfl, fun headers content he => ?_⟩
          cases he
          exact h.advance_find hn (Nat.le_refl _)

/-- Both readers find the same part, and behind the data of a part stands a delimiter. -/
theorem scanPart_eq (boundary : String) (h : c.At buffer) :
    scanPart boundary buffer c.offset = some (offsetOf (readPart boundary c)) ∧
      ∀ part next, readPart boundary c = .ok (part, next) →
        next.At buffer ∧ delimiter boundary <+: next.rest := by
  obtain ⟨hscan, hat⟩ := scanHeaders_eq h
  rw [scanPart, hscan, readPart]
  cases hread : readHeaders c with
  | error e => exact ⟨rfl, by simp⟩
  | ok found =>
    obtain ⟨headers, content⟩ := found
    have hcontent := hat headers content hread
    simp only [offsetOf, Except.map, hcontent.tail?_eq]
    cases hn : Bytes.find? (separator boundary) content.rest with
    | none => exact ⟨rfl, by simp⟩
    | some n =>
      have hbound := Bytes.find?_bound hn
      simp only [hcontent.between?_eq (Nat.le_trans (Nat.le_add_right n _) hbound)]
      cases Part.ofHeaders headers (content.rest.take n) with
      | error e => exact ⟨rfl, by simp⟩
      | ok part =>
        refine ⟨rfl, fun part next he => ?_⟩
        cases he
        have hcrlf : Bytes.crlf.length ≤ (separator boundary).length := by simp [separator]
        refine ⟨hcontent.advance_find hn hcrlf, ?_⟩
        -- the separator that was found opens with a line end
        obtain ⟨after, hafter⟩ := (Bytes.find?_eq_some_iff.mp hn).1
        refine ⟨after, ?_⟩
        show _ = content.rest.drop (n + Bytes.crlf.length)
        rw [← List.drop_drop, ← hafter, separator, List.append_assoc, List.drop_left]

/-- Both readers find the end of the delimiter line. -/
theorem scanDelimiterEnd_eq (h : c.At buffer) :
    scanDelimiterEnd buffer c.offset = some ((readDelimiterEnd c).map Cursor.offset) ∧
      ∀ line, readDelimiterEnd c = .ok line → line.At buffer := by
  have hpadding : (c.rest.takeWhile isPadding).length ≤ c.rest.length :=
    (List.takeWhile_prefix _).length_le
  have hbehind := h.advance hpadding
  rw [scanDelimiterEnd, h.tail?_eq, readDelimiterEnd]
  simp only [tail?, if_pos hpadding]
  rw [show c.rest.drop (c.rest.takeWhile isPadding).length =
    (c.advance (c.rest.takeWhile isPadding).length).rest from rfl]
  cases hcrlf : Bytes.crlf.isPrefixOf (c.advance (c.rest.takeWhile isPadding).length).rest with
  | true => exact ⟨rfl, fun line he => by cases he; exact hbehind.advance_prefix hcrlf⟩
  | false =>
    by_cases hshort : c.rest.length < (c.rest.takeWhile isPadding).length + Bytes.crlf.length
    · simp [hshort, Except.map]
    · simp [hshort, Except.map]

/-- From a delimiter on, a turn of either reader comes to the same. -/
theorem scanTurn_eq (h : c.At buffer) (hdelimiter : delimiter boundary <+: c.rest) :
    scanTurn boundary buffer c.offset =
        some ((turn boundary c).map (Option.map fun found => (found.1, found.2.offset))) ∧
      ∀ part next, turn boundary c = .ok (some (part, next)) →
        next.At buffer ∧ delimiter boundary <+: next.rest := by
  have hbehind := h.advance hdelimiter.length_le
  have htail : tail? buffer (c.offset + (delimiter boundary).length) = _ := hbehind.tail?_eq
  obtain ⟨hend, hline⟩ := scanDelimiterEnd_eq hbehind
  rw [scanTurn, turn]
  simp only [htail]
  split
  · exact ⟨rfl, by simp⟩
  · rw [show c.offset + (delimiter boundary).length = (c.advance (delimiter boundary).length).offset
      from rfl, hend]
    cases hread : readDelimiterEnd (c.advance (delimiter boundary).length) with
    | error e => exact ⟨rfl, by simp⟩
    | ok line =>
      obtain ⟨hpart, hnext⟩ := scanPart_eq boundary (hline line hread)
      simp only [Except.map, hpart]
      cases hread' : readPart boundary line with
      | error e => exact ⟨rfl, by simp⟩
      | ok found =>
        refine ⟨rfl, fun part next he => ?_⟩
        cases he
        exact hnext _ _ hread'

/-- From a delimiter on, both readers come to the same.  The induction is that of the cursor's
reader. -/
theorem scanFrom_eq (h : c.At buffer) (hdelimiter : delimiter boundary <+: c.rest) :
    scanFrom boundary buffer c.offset = some (partsFrom boundary c) := by
  fun_induction partsFrom boundary c with
  | case1 c e hturn =>
    rw [scanFrom_of_turn (scanTurn_eq h hdelimiter).1, hturn]
    rfl
  | case2 c hturn =>
    rw [scanFrom_of_turn (scanTurn_eq h hdelimiter).1, hturn]
    rfl
  | case3 c part next hturn e hrest ih =>
    obtain ⟨hscan, hat⟩ := scanTurn_eq h hdelimiter
    obtain ⟨hnext, hdelimiter'⟩ := hat part next hturn
    rw [scanFrom_of_turn hscan, hturn]
    simp only [Except.map, Option.map, ih hnext hdelimiter', hrest]
  | case4 c part next hturn parts hrest ih =>
    obtain ⟨hscan, hat⟩ := scanTurn_eq h hdelimiter
    obtain ⟨hnext, hdelimiter'⟩ := hat part next hturn
    rw [scanFrom_of_turn hscan, hturn]
    simp only [Except.map, Option.map, ih hnext hdelimiter', hrest]

/-- The opening delimiter is a place of the buffer. -/
theorem at_of_opening? (h : opening? boundary buffer = some c) :
    c.At buffer ∧ delimiter boundary <+: c.rest := by
  have hstart : (Cursor.start buffer).At buffer := ⟨Nat.zero_le _, rfl⟩
  rcases opening?_eq_some_iff.mp h with ⟨hdelimiter, rfl⟩ | ⟨-, line, hpass, hdelimiter, -⟩
  · exact ⟨hstart, hdelimiter⟩
  · obtain ⟨hline, rfl⟩ := Cursor.passes_iff.mp hpass
    exact ⟨hstart.advance hline.length_le, hdelimiter⟩

/-- A form can be read by offsets: no slice is ever out of range. -/
theorem scan_eq (buffer : Bytes) (boundary : String) :
    scan buffer boundary = some (parse buffer boundary) := by
  rw [scan, parse]
  cases checkBoundary boundary with
  | error fault => rfl
  | ok =>
    cases hopen : opening? boundary buffer with
    | none => rfl
    | some c =>
      obtain ⟨hat, hdelimiter⟩ := at_of_opening? hopen
      simp only [scanFrom_eq hat hdelimiter]
      cases partsFrom boundary c with
      | error e => rfl
      | ok parts => cases parts <;> rfl

end

end LiveIngest.Form
