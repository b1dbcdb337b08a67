import LiveIngest.Proofs.Scanning

/-!
# How far a form is read

The reader of a form counts nothing.  A turn starts at the delimiter that the turn before has found, and goes on
from there by three searches, each of which starts where the last one ended.  This file says that it gets
somewhere by that, whatever the bytes are.

1. **Stations.**  The offsets that one turn computes, as far as it gets.  They do not decrease, and none is beyond
   the end of the body (`stations_isChain`).  A turn that finds a part has computed all four, and the next one
   starts behind the line end that follows the last (`stations_of_turn`).

2. **Positions.**  The offsets that the turns start at.  At each of them stands a delimiter that lies in the body
   (`Stands`); this is the invariant, and the step is that the next delimiter was found as part of a separator.
   From one position to the next is more than a delimiter.

3. **Counting.**  So there are not many positions (`length_positionsFrom_le`), and a reader that gives up after so
   many turns is never seen to do so (`scanWithin_eq`).

`parse_progress` puts these together.
-/

namespace LiveIngest.Form

/-! ## The offsets of a turn -/

/-- Where the data of a part start and end whose headers start at an offset, as far as that is found. -/
def contentStations (boundary : String) (buffer : Bytes) (line : Nat) : List Nat :=
  match scanHeaders buffer line with
  | some (.ok (_, content)) =>
    match (tail? buffer content).bind (Bytes.find? (separator boundary)) with
    | some n => [content, content + n]
    | none => [content]
  | _ => []

/-- The offsets that a turn computes, as far as it gets: behind the delimiter, behind padding and line end, where
the data start, and where they end. -/
def stations (boundary : String) (buffer : Bytes) (i : Nat) : List Nat :=
  let after := i + (delimiter boundary).length
  after ::
    if (tail? buffer after).any [45, 45].isPrefixOf then []
    else
      match scanDelimiterEnd buffer after with
      | some (.ok line) => line :: contentStations boundary buffer line
      | _ => []

/-- The offsets that the turns start at, from the delimiter at an offset on. -/
def positionsFrom (boundary : String) (buffer : Bytes) (i : Nat) : List Nat :=
  match _found : scanTurn boundary buffer i with
  | some (.ok (some (_, next))) => i :: positionsFrom boundary buffer next
  | _ => [i]
termination_by buffer.length - i
decreasing_by
  have := scanTurn_bound _found
  omega

/-- The offsets that the turns start at when a body is read. -/
def positions (body : Bytes) (boundary : String) : List Nat :=
  match checkBoundary boundary with
  | .error _ => []
  | .ok () =>
    match opening? boundary body with
    | none => []
    | some c => positionsFrom boundary body c.offset

/-! ## A reader that gives up -/

/-- The parts from the delimiter at an offset on; nothing if a slice is out of range, or if more turns are needed
than are left. -/
def scanFromWithin (boundary : String) (buffer : Bytes) : Nat → Nat → Option (Except FormError (List Part))
  | 0, _ => none
  | turns + 1, i =>
    match scanTurn boundary buffer i with
    | none => none
    | some (.error e) => some (.error e)
    | some (.ok none) => some (.ok [])
    | some (.ok (some (part, next))) =>
      match scanFromWithin boundary buffer turns next with
      | none => none
      | some (.error e) => some (.error e)
      | some (.ok parts) => some (.ok (part :: parts))

/-- The parts of a form; nothing if a slice is out of range, or if more turns are needed than are given. -/
def scanWithin (turns : Nat) (buffer : Bytes) (boundary : String) : Option (Except FormError (List Part)) :=
  match checkBoundary boundary with
  | .error fault => some (.error (.invalidBoundary fault))
  | .ok () =>
    match opening? boundary buffer with
    | none => some (.error .missingOpeningBoundary)
    | some c =>
      match scanFromWithin boundary buffer turns c.offset with
      | none => none
      | some (.error e) => some (.error e)
      | some (.ok []) => some (.error .emptyForm)
      | some (.ok parts) => some (.ok parts)

section

variable {boundary : String} {buffer : Bytes} {i : Nat}

/-! ## One turn -/

/-- The same of the data alone: they start behind the headers, and they end where the separator was
found, which is behind that.  If no separator follows there is only the start. -/
theorem contentStations_isChain (boundary : String) {line : Nat} (hline : line ≤ buffer.length) :
    (line :: contentStations boundary buffer line ++ [buffer.length]).IsChain (· ≤ ·) := by
  unfold contentStations
  -- the searches are nested, so each bound is about what the one before has left
  split
  · rename_i headers content hheaders
    have hcontent := scanHeaders_bound hheaders
    split
    · rename_i n hn
      obtain ⟨rest, hrest, hfind⟩ := Option.bind_eq_some_iff.mp hn
      obtain ⟨-, rfl⟩ := tail?_eq_some_iff.mp hrest
      have hstop := Bytes.find?_bound hfind
      rw [List.length_drop] at hstop
      simp only [List.cons_append, List.nil_append, List.isChain_cons_cons, List.isChain_singleton, and_true]
      omega
    · simp only [List.cons_append, List.nil_append, List.isChain_cons_cons, List.isChain_singleton, and_true]
      omega
  · simpa using hline

/-- A delimiter stands at an offset, and lies in the buffer. -/
structure Stands (boundary : String) (buffer : Bytes) (i : Nat) : Prop where
  bound : i ≤ buffer.length
  delimiter : delimiter boundary <+: buffer.drop i

/-- At such an offset the reader has its cursor. -/
theorem Stands.at (h : Stands boundary buffer i) : Cursor.At buffer ⟨i, buffer.drop i⟩ := ⟨h.bound, rfl⟩

/-- A delimiter that stands in the buffer ends in it, so the first station of a turn is not beyond
the end. -/
theorem Stands.behind (h : Stands boundary buffer i) :
    i + (Form.delimiter boundary).length ≤ buffer.length := by
  have hlength := h.delimiter.length_le
  have hbound := h.bound
  rw [List.length_drop] at hlength
  omega

/-- The offsets of a turn do not decrease, and none is beyond the end. -/
theorem stations_isChain (h : Stands boundary buffer i) :
    (i :: stations boundary buffer i ++ [buffer.length]).IsChain (· ≤ ·) := by
  have hbehind := h.behind
  have hafter : i ≤ i + (delimiter boundary).length := Nat.le_add_right ..
  unfold stations
  simp only
  split
  · simp [hbehind]
  · split
    · rename_i line hline
      obtain ⟨hle, hbound⟩ := scanDelimiterEnd_bound hline
      have hcontent := contentStations_isChain boundary hbound
      rw [List.cons_append, List.cons_append, List.cons_append, List.isChain_cons_cons, List.isChain_cons_cons]
      exact ⟨hafter, by omega, hcontent⟩
    · simp [hbehind]

/-- What the headers say decides whether there is a part, not which data it has. -/
theorem Part.data_ofHeaders {headers : List Header} {data : Bytes} {part : Part}
    (h : Part.ofHeaders headers data = .ok part) : part.data = data := by
  unfold Part.ofHeaders at h
  split at h
  · cases h
  · split at h
    · cases h
    · cases h
      rfl

/-- Behind a part that was read, both stations of the data have been computed, and the part has what
is between them. -/
theorem contentStations_of_part {line next : Nat} {part : Part}
    (h : scanPart boundary buffer line = some (.ok (part, next))) :
    ∃ content stop, contentStations boundary buffer line = [content, stop] ∧
      part.data = (buffer.drop content).take (stop - content) ∧ next = stop + Bytes.crlf.length := by
  unfold scanPart at h
  split at h
  · simp at h
  · simp at h
  · rename_i headers content hheaders
    split at h
    · simp at h
    · rename_i rest hrest
      split at h
      · simp at h
      · rename_i n hn
        split at h
        · simp at h
        · rename_i data hdata
          split at h
          · simp at h
          · rename_i part hpart
            cases h
            refine ⟨content, content + n, by simp [contentStations, hheaders, hrest, hn], ?_,
              (Nat.add_assoc ..).symm⟩
            rw [Part.data_ofHeaders hpart]
            unfold between? at hdata
            split at hdata
            · exact (Option.some.inj hdata).symm
            · cases hdata

/-- A turn that finds a part goes through all stations.  The part has the data between the last two, and the next
turn starts behind the line end that follows. -/
theorem stations_of_turn {part : Part} {next : Nat}
    (h : scanTurn boundary buffer i = some (.ok (some (part, next)))) :
    ∃ line content stop,
      stations boundary buffer i = [i + (delimiter boundary).length, line, content, stop] ∧
        part.data = (buffer.drop content).take (stop - content) ∧ next = stop + Bytes.crlf.length := by
  unfold scanTurn at h
  simp only at h
  split at h
  · simp at h
  · rename_i rest hrest
    split at h
    · simp at h
    · rename_i hopen
      split at h
      · simp at h
      · simp at h
      · rename_i line hline
        split at h
        · simp at h
        · simp at h
        · rename_i found hfound
          cases h
          obtain ⟨content, stop, hstations, hdata, hnext⟩ := contentStations_of_part hfound
          exact ⟨line, content, stop, by simp [stations, hrest, hopen, hline, hstations], hdata, hnext⟩

/-- The next turn starts at a delimiter again. -/
theorem Stands.next {part : Part} {next : Nat} (h : Stands boundary buffer i)
    (hturn : scanTurn boundary buffer i = some (.ok (some (part, next)))) : Stands boundary buffer next := by
  obtain ⟨hscan, hat⟩ := scanTurn_eq h.at h.delimiter
  rw [hscan, Option.some.injEq] at hturn
  cases hread : turn boundary ⟨i, buffer.drop i⟩ with
  | error e => rw [hread] at hturn; cases hturn
  | ok found =>
    cases found with
    | none => rw [hread] at hturn; cases hturn
    | some found =>
      obtain ⟨part', c⟩ := found
      obtain ⟨hc, hdelimiter⟩ := hat part' c hread
      rw [hread] at hturn
      cases hturn
      exact ⟨hc.bound, hc.rest ▸ hdelimiter⟩

/-! ## All turns -/

/-- The first position is where the turns start, whatever comes of the first turn.  This is what
links one gap to the next below. -/
theorem positionsFrom_head (boundary : String) (buffer : Bytes) (i : Nat) :
    (positionsFrom boundary buffer i).head? = some i := by
  unfold positionsFrom
  split <;> rfl

/-- All turns start at delimiters. -/
theorem stands_of_mem_positionsFrom (h : Stands boundary buffer i) :
    ∀ j ∈ positionsFrom boundary buffer i, Stands boundary buffer j := by
  fun_induction positionsFrom boundary buffer i with
  | case1 i part next hturn ih =>
    intro j hj
    rcases List.mem_cons.mp hj with rfl | hj
    · exact h
    · exact ih (h.next hturn) j hj
  | case2 i =>
    intro j hj
    rw [List.mem_singleton.mp hj]
    exact h

/-- From one position to the next is a delimiter and three line ends at least: the one of the
delimiter line, the one that ends the headers, and the one before the next delimiter. -/
theorem positionsFrom_isChain (boundary : String) (buffer : Bytes) (i : Nat) :
    (positionsFrom boundary buffer i).IsChain fun p q => p + ((delimiter boundary).length + 6) ≤ q := by
  fun_induction positionsFrom boundary buffer i with
  | case1 i part next hturn ih =>
    refine List.isChain_cons.mpr ⟨fun q hq => ?_, ih⟩
    rw [positionsFrom_head] at hq
    rw [← Option.some.inj hq]
    exact (scanTurn_bound hturn).1
  | case2 i => exact List.isChain_singleton i

/-- So all of them take room.  The last position takes its delimiter only, which is why six bytes
stand on the right. -/
theorem room_positionsFrom (h : Stands boundary buffer i) :
    i + (positionsFrom boundary buffer i).length * ((delimiter boundary).length + 6) ≤ buffer.length + 6 := by
  fun_induction positionsFrom boundary buffer i with
  | case1 i part next hturn ih =>
    have hrest := ih (h.next hturn)
    have hgap := (scanTurn_bound hturn).1
    rw [List.length_cons, Nat.succ_mul]
    omega
  -- the last delimiter lies in the buffer
  | case2 i =>
    have hbehind := h.behind
    rw [List.length_singleton]
    omega

/-- There are not many, then: each but the last takes room, and the last is the one more. -/
theorem length_positionsFrom_le (h : Stands boundary buffer i) :
    (positionsFrom boundary buffer i).length ≤ buffer.length / ((delimiter boundary).length + 4) + 1 := by
  have hroom := room_positionsFrom h
  cases hn : (positionsFrom boundary buffer i).length with
  | zero => exact Nat.zero_le _
  | succ n =>
    rw [hn, Nat.succ_mul] at hroom
    have hless : n * ((delimiter boundary).length + 4) ≤ n * ((delimiter boundary).length + 6) :=
      Nat.mul_le_mul_left n (by omega)
    exact Nat.succ_le_succ ((Nat.le_div_iff_mul_le (by omega)).mpr (by omega))

/-- The invariant holds at the first position, as the opening was found as a delimiter. -/
theorem stands_of_opening? {c : Cursor} (h : opening? boundary buffer = some c) :
    Stands boundary buffer c.offset := by
  obtain ⟨hat, hdelimiter⟩ := at_of_opening? h
  exact ⟨hat.bound, hat.rest ▸ hdelimiter⟩

/-! ## Enough turns -/

/-- A turn that finds a part has the positions of the next turn behind its own. -/
theorem positionsFrom_of_part {part : Part} {next : Nat}
    (h : scanTurn boundary buffer i = some (.ok (some (part, next)))) :
    positionsFrom boundary buffer i = i :: positionsFrom boundary buffer next := by
  rw [positionsFrom]
  split <;> rename_i found
  · rw [h] at found
    cases found
    rfl
  · exact absurd h (found part next)

/-- Any other turn is the last one: at the end of the form, at an error, and if a slice is out of
range. -/
theorem positionsFrom_of_end (h : ∀ part next, scanTurn boundary buffer i ≠ some (.ok (some (part, next)))) :
    positionsFrom boundary buffer i = [i] := by
  rw [positionsFrom]
  split <;> rename_i found
  · exact absurd found (h _ _)
  · rfl

/-- A reader that counts its turns reads what there is if it has enough of them, and nothing otherwise. -/
theorem scanFromWithin_eq (boundary : String) (buffer : Bytes) (turns i : Nat) :
    scanFromWithin boundary buffer turns i =
      if (positionsFrom boundary buffer i).length ≤ turns then scanFrom boundary buffer i else none := by
  induction turns generalizing i with
  | zero =>
    have hne : (positionsFrom boundary buffer i).length ≠ 0 := fun h => by
      have hhead := positionsFrom_head boundary buffer i
      rw [List.length_eq_zero_iff.mp h] at hhead
      cases hhead
    rw [if_neg (by omega)]
    rfl
  | succ turns ih =>
    -- a turn that is the last one needs no more than itself, however it ends
    have hend : ∀ r, scanFrom boundary buffer i = r →
        (∀ part next, scanTurn boundary buffer i ≠ some (.ok (some (part, next)))) →
        r = if (positionsFrom boundary buffer i).length ≤ turns + 1 then scanFrom boundary buffer i else none :=
      fun r hscan hlast => by
        rw [positionsFrom_of_end hlast, List.length_singleton, if_pos (Nat.le_add_left 1 turns), hscan]
    rw [scanFromWithin]
    cases hturn : scanTurn boundary buffer i with
    | none =>
      refine hend none ?_ (by simp [hturn])
      rw [scanFrom]
      split <;> rename_i found <;> rw [hturn] at found <;> cases found
    | some r =>
      cases r with
      | error e => exact hend _ (scanFrom_of_turn hturn) (by simp [hturn])
      | ok found =>
        cases found with
        | none => exact hend _ (scanFrom_of_turn hturn) (by simp [hturn])
        | some found =>
          obtain ⟨part, next⟩ := found
          rw [positionsFrom_of_part hturn, scanFrom_of_turn hturn, List.length_cons]
          simp only [ih, Nat.add_le_add_iff_right]
          split_ifs
          · rfl
          · rfl

/-- The same of a whole body.  Where no turn is taken, no turn is needed. -/
theorem scanWithin_eq (turns : Nat) (buffer : Bytes) (boundary : String) :
    scanWithin turns buffer boundary =
      if (positions buffer boundary).length ≤ turns then some (parse buffer boundary) else none := by
  rw [← scan_eq, scanWithin, positions, scan]
  cases checkBoundary boundary with
  | error fault => exact (if_pos (Nat.zero_le _)).symm
  | ok =>
    cases opening? boundary buffer with
    | none => exact (if_pos (Nat.zero_le _)).symm
    | some c =>
      simp only [scanFromWithin_eq]
      split_ifs
      · rfl
      · rfl

end

/-! ## Any body -/

/-- The turns that read a body start at delimiters. -/
theorem positions_cases (body : Bytes) (boundary : String) :
    positions body boundary = [] ∨
      ∃ i, Stands boundary body i ∧ positions body boundary = positionsFrom boundary body i := by
  unfold positions
  split
  · exact Or.inl rfl
  · split
    · exact Or.inl rfl
    · rename_i c hopen
      exact Or.inr ⟨c.offset, stands_of_opening? hopen, rfl⟩

/-- However a body is made, and whatever the boundary is, reading it takes no slice that is out of range and comes
to an end after a number of turns that is known beforehand.  From turn to turn the position increases by more than a
delimiter.  In each turn the offset behind the delimiter, the one behind padding and line end, and those where the
data start and end do not decrease and are within the body, as far as the turn gets; if it finds a part, it gets to
all of them, the part has the data in between, and the next turn starts at the line that follows. -/
theorem parse_progress (body : Bytes) (boundary : String) :
    (∀ turns, scanWithin turns body boundary =
      if (positions body boundary).length ≤ turns then some (parse body boundary) else none) ∧
    (positions body boundary).length ≤ body.length / ((delimiter boundary).length + 4) + 1 ∧
    (positions body boundary).IsChain (fun p q => p + ((delimiter boundary).length + 6) ≤ q) ∧
    ∀ i ∈ positions body boundary,
      (i :: stations boundary body i ++ [body.length]).IsChain (· ≤ ·) ∧
      (stations boundary body i).head? = some (i + (delimiter boundary).length) ∧
      scanTurn boundary body i =
        some ((turn boundary ⟨i, body.drop i⟩).map (Option.map fun found => (found.1, found.2.offset))) ∧
      ∀ part next, turn boundary ⟨i, body.drop i⟩ = .ok (some (part, next)) →
        ∃ line content stop,
          stations boundary body i = [i + (delimiter boundary).length, line, content, stop] ∧
            part.data = (body.drop content).take (stop - content) ∧
            next.offset = stop + Bytes.crlf.length := by
  refine ⟨fun turns => scanWithin_eq turns body boundary, ?_⟩
  rcases positions_cases body boundary with hnone | ⟨i, hi, hsome⟩
  · rw [hnone]
    exact ⟨Nat.zero_le _, List.isChain_nil, by simp⟩
  · rw [hsome]
    refine ⟨length_positionsFrom_le hi, positionsFrom_isChain boundary body i, fun j hj => ?_⟩
    have hstands := stands_of_mem_positionsFrom hi j hj
    have hscan := (scanTurn_eq hstands.at hstands.delimiter).1
    refine ⟨stations_isChain hstands, rfl, hscan, fun part next hturn => stations_of_turn ?_⟩
    rw [hscan, hturn]
    rfl

/-- A preamble, a part, and one that has no header lines and is refused for that when its data have been found. -/
theorem parse_progress_refused :
    let body := Bytes.ofString "x\r\n--b \t\r\nContent-Disposition: form-data; name=a\r\n\r\n1;2\r\n--b\r\n" ++
      Bytes.ofString "\r\n3\r\n--b--\r\n"
    let found : Part × Cursor := (⟨"a", none, none, Bytes.ofString "1;2"⟩, ⟨57, body.drop 57⟩)
    positions body "b" = [3, 57] ∧
      stations "b" body 3 = [6, 10, 52, 55] ∧ stations "b" body 57 = [60, 62, 64, 65] ∧
      (3 :: stations "b" body 3 ++ [body.length]).IsChain (· ≤ ·) ∧
      (57 :: stations "b" body 57 ++ [body.length]).IsChain (· ≤ ·) ∧
      turn "b" ⟨3, body.drop 3⟩ = .ok (some found) ∧ found.1.data = (body.drop 52).take (55 - 52) ∧
      scanWithin (body.length / ((delimiter "b").length + 4) + 1) body "b" =
        some (.error .missingDisposition) := by
  intro body found
  have hturn : turn "b" ⟨3, body.drop 3⟩ = .ok (some found) := by decide +kernel
  have hfirst : scanTurn "b" body 3 = some (.ok (some (found.1, 57))) := by decide +kernel
  have hlast : scanTurn "b" body 57 = some (.error .missingDisposition) := by decide +kernel
  have hpositions : positions body "b" = [3, 57] := by
    have hvalid : checkBoundary "b" = .ok () := by decide +kernel
    have hopen : opening? "b" body = some ⟨3, body.drop 3⟩ := by decide +kernel
    rw [positions, hvalid]
    simp only [hopen]
    rw [positionsFrom_of_part hfirst, positionsFrom_of_end (by simp [hlast])]
  have hstations : stations "b" body 3 = [6, 10, 52, 55] := by decide +kernel
  have hparse : parse body "b" = .error .missingDisposition := by decide +kernel
  obtain ⟨hwithin, hcount, -, hturns⟩ := parse_progress body "b"
  obtain ⟨hchain, -, -, hfound⟩ := hturns 3 (by rw [hpositions]; decide)
  obtain ⟨hchain', -⟩ := hturns 57 (by rw [hpositions]; decide)
  obtain ⟨line, content, stop, hstations', hdata, -⟩ := hfound _ _ hturn
  rw [hstations] at hstations'
  cases hstations'
  refine ⟨hpositions, hstations, by decide +kernel, hchain, hchain', hturn, hdata, ?_⟩
  rw [hwithin, if_pos hcount, hparse]

end LiveIngest.Form
