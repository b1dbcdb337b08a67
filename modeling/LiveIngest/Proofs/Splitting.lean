import LiveIngest.Proofs.Encoding

/-!
# Where a parameter list is cut

`splitParams` goes through a text once and remembers no more than whether it is outside quotes, inside them,
or behind a backslash inside them.  This file says where that cuts, without the scanner.

1. **Specification.**  `quotesBefore` counts the quotes in front of a place.  A quote that is escaped does not
   count, and a character is escaped (`escapedAt`) behind a backslash that stands inside quotes and is not
   escaped itself; inside quotes is behind an odd number of quotes that count.

2. **The crux.**  What the scanner remembers is the parity of that count and whether the next character is
   escaped (`after_take_eq`).  So the cuts are the separators behind an even number of quotes
   (`mem_splitPoints_iff`).

3. **Pieces.**  A text that is not cut, and behind which no quotes are open, is one that closes the quotes it
   opens and has no separator outside them (`isPiece_iff`).  Such texts are read back from the list that they
   make up, and a quoted value is one of them, whatever the value is.

`splitParams_outside_quotes` puts these together.
-/

namespace LiveIngest.Text

/-! ## Quotes that count -/

mutual

/-- How many quotes stand in front of a place, without the escaped ones. -/
def quotesBefore (s : List Char) : Nat → Nat
  | 0 => 0
  | i + 1 => if s[i]? = some '"' ∧ escapedAt s i = false then quotesBefore s i + 1 else quotesBefore s i

/-- Whether the character at a place is escaped: behind a backslash inside quotes that is not. -/
def escapedAt (s : List Char) : Nat → Bool
  | 0 => false
  | i + 1 => s[i]? == some '\\' && !escapedAt s i && quotesBefore s i % 2 == 1

end

/-- The places of the separators between pieces, the first of which starts at `start`. -/
def splitPointsFrom (start : Nat) : List (List Char) → List Nat
  | [] => []
  | [_] => []
  | piece :: next :: rest =>
    (start + piece.length) :: splitPointsFrom (start + piece.length + 1) (next :: rest)

/-- The places at which a parameter list is cut. -/
def splitPoints (s : List Char) : List Nat := splitPointsFrom 0 (splitParams s)

/-- A text that closes the quotes it opens and has no separator outside them. -/
structure WellQuoted (s : List Char) : Prop where
  closed : Even (quotesBefore s s.length)
  hidden : ∀ i, s[i]? = some ';' → Odd (quotesBefore s i)

/-! ## What the scanner remembers -/

section

variable {s : List Char} {c : Char} {i : Nat}

/-- A quote counts if it is not escaped, -/
theorem quotesBefore_quote (h : s[i]? = some '"') (hplain : escapedAt s i = false) :
    quotesBefore s (i + 1) = quotesBefore s i + 1 := by
  rw [quotesBefore, if_pos ⟨h, hplain⟩]

/-- what is escaped does not, -/
theorem quotesBefore_escaped (h : escapedAt s i = true) :
    quotesBefore s (i + 1) = quotesBefore s i := by
  rw [quotesBefore, h, if_neg fun hc => absurd hc.2 (by decide)]

/-- and no other character does. -/
theorem quotesBefore_of_ne (h : s[i]? = some c) (hc : c ≠ '"') :
    quotesBefore s (i + 1) = quotesBefore s i := by
  rw [quotesBefore, if_neg fun hquote => hc (Option.some.inj (h.symm.trans hquote.1))]

/-- A character is escaped by the one in front of it. -/
theorem escapedAt_succ :
    escapedAt s (i + 1) = true ↔
      s[i]? = some '\\' ∧ escapedAt s i = false ∧ Odd (quotesBefore s i) := by
  simp only [escapedAt, Bool.and_eq_true, Bool.not_eq_true', beq_iff_eq, and_assoc, Nat.odd_iff]

/-- Only inside quotes there are escaped characters. -/
theorem odd_of_escapedAt (h : escapedAt s i = true) : Odd (quotesBefore s i) := by
  cases i with
  | zero => cases h
  | succ i =>
    obtain ⟨hslash, -, hodd⟩ := escapedAt_succ.mp h
    rw [quotesBefore_of_ne hslash (by decide)]
    exact hodd

/-- The state in front of a place, as the quotes in front of it tell. -/
def quotingAt (s : List Char) (i : Nat) : Quoting :=
  if Even (quotesBefore s i) then .outside else if escapedAt s i then .escaped else .inside

/-- These read the state back: outside is behind an even number of quotes, -/
theorem quotingAt_eq_outside_iff : quotingAt s i = .outside ↔ Even (quotesBefore s i) := by
  rw [quotingAt]
  split
  · rename_i heven
    exact iff_of_true rfl heven
  · rename_i hodd
    refine iff_of_false ?_ hodd
    split <;> simp

/-- behind a backslash is where the next character is escaped, -/
theorem quotingAt_eq_escaped_iff : quotingAt s i = .escaped ↔ escapedAt s i = true := by
  rw [quotingAt]
  split
  · rename_i heven
    exact iff_of_false (by simp) fun h => Nat.not_even_iff_odd.mpr (odd_of_escapedAt h) heven
  · split
    · rename_i hesc
      exact iff_of_true rfl hesc
    · rename_i hesc
      exact iff_of_false (by simp) hesc

/-- and inside is everywhere else. -/
theorem quotingAt_eq_inside_iff :
    quotingAt s i = .inside ↔ Odd (quotesBefore s i) ∧ escapedAt s i = false := by
  rw [← Nat.not_even_iff_odd, ← Bool.not_eq_true, ← quotingAt_eq_outside_iff, ← quotingAt_eq_escaped_iff]
  cases quotingAt s i <;> simp

/-- One more character changes the state as it changes the count. -/
theorem quotingAt_succ (h : s[i]? = some c) : quotingAt s (i + 1) = (quotingAt s i).next c := by
  cases hq : quotingAt s i with
  | outside =>
    have heven := quotingAt_eq_outside_iff.mp hq
    have hplain : escapedAt s i = false := by
      rw [← Bool.not_eq_true]
      exact fun hesc => Nat.not_odd_iff_even.mpr heven (odd_of_escapedAt hesc)
    rw [Quoting.next]
    split
    · rename_i hquote
      subst hquote
      have hcount := quotesBefore_quote h hplain
      refine quotingAt_eq_inside_iff.mpr ⟨by rw [hcount]; exact heven.add_one, ?_⟩
      rw [← Bool.not_eq_true, escapedAt_succ, h]
      simp
    · rename_i hquote
      rw [quotingAt_eq_outside_iff, quotesBefore_of_ne h hquote]
      exact heven
  | inside =>
    obtain ⟨hodd, hplain⟩ := quotingAt_eq_inside_iff.mp hq
    rw [Quoting.next]
    split
    · rename_i hquote
      subst hquote
      rw [quotingAt_eq_outside_iff, quotesBefore_quote h hplain]
      exact hodd.add_one
    · rename_i hquote
      have hcount := quotesBefore_of_ne h hquote
      split
      · rename_i hslash
        subst hslash
        exact quotingAt_eq_escaped_iff.mpr (escapedAt_succ.mpr ⟨h, hplain, hodd⟩)
      · rename_i hslash
        refine quotingAt_eq_inside_iff.mpr ⟨by rw [hcount]; exact hodd, ?_⟩
        rw [← Bool.not_eq_true, escapedAt_succ, h, Option.some.injEq]
        exact fun hesc => hslash hesc.1
  | escaped =>
    -- whatever is escaped, the quotes stay open
    have hesc := quotingAt_eq_escaped_iff.mp hq
    have hcount := quotesBefore_escaped hesc
    refine quotingAt_eq_inside_iff.mpr ⟨by rw [hcount]; exact odd_of_escapedAt hesc, ?_⟩
    rw [← Bool.not_eq_true, escapedAt_succ, hesc]
    simp

/-- The scanner remembers whether quotes are open and whether the next character is escaped. -/
theorem after_take_eq (hi : i ≤ s.length) : Quoting.outside.after (s.take i) = quotingAt s i := by
  induction i with
  | zero => rfl
  | succ i ih =>
    have hc := List.getElem?_eq_getElem (l := s) hi
    rw [List.take_add_one, after_append, ih (Nat.le_of_succ_le hi), hc, quotingAt_succ hc]
    rfl

end

/-! ## Where it is cut -/

section

variable {s : List Char} {i : Nat}

/-- The first cut is behind the first piece. -/
theorem splitPointsFrom_cons {piece : List Char} {ps : List (List Char)} (hne : ps ≠ []) (start : Nat) :
    splitPointsFrom start (piece :: ps) =
      (start + piece.length) :: splitPointsFrom (start + piece.length + 1) ps := by
  cases ps with
  | nil => exact absurd rfl hne
  | cons next rest => rfl

/-- A character in front moves all cuts by one. -/
theorem splitPointsFrom_extendHead {c : Char} {ps : List (List Char)} (hne : ps ≠ []) (start : Nat) :
    splitPointsFrom start (extendHead c ps) = splitPointsFrom (start + 1) ps := by
  cases ps with
  | nil => exact absurd rfl hne
  | cons piece rest =>
    cases rest with
    | nil => rfl
    | cons next rest =>
      rw [extendHead, splitPointsFrom, splitPointsFrom, List.length_cons, Nat.add_right_comm start 1,
        Nat.add_assoc start piece.length 1]

/-- The cuts are the separators that are met outside quotes. -/
theorem mem_splitPointsFrom_iff {q : Quoting} {start : Nat} :
    i ∈ splitPointsFrom start (splitFrom q s) ↔
      ∃ k, i = start + k ∧ s[k]? = some ';' ∧ q.after (s.take k) = .outside := by
  induction s generalizing q start with
  | nil => simp [splitFrom, splitPointsFrom]
  | cons c r ih =>
    have hafter : ∀ k, q.after ((c :: r).take (k + 1)) = (q.next c).after (r.take k) := fun _ => rfl
    rw [splitFrom]
    -- the first character is a cut or belongs to the first piece
    split
    · rename_i hcut
      obtain ⟨rfl, rfl⟩ := hcut
      rw [splitPointsFrom_cons (splitFrom_ne_nil _ r), List.mem_cons, ih]
      constructor
      · rintro (rfl | ⟨k, rfl, hk, hout⟩)
        · exact ⟨0, rfl, rfl, rfl⟩
        · exact ⟨k + 1, by simp; omega, hk, hout⟩
      · rintro ⟨k, rfl, hk, hout⟩
        cases k with
        | zero => exact Or.inl rfl
        | succ k => exact Or.inr ⟨k, by simp; omega, hk, hout⟩
    · rename_i hkeep
      rw [splitPointsFrom_extendHead (splitFrom_ne_nil _ r), ih]
      constructor
      · rintro ⟨k, rfl, hk, hout⟩
        exact ⟨k + 1, by omega, hk, hout⟩
      · rintro ⟨k, rfl, hk, hout⟩
        cases k with
        | zero => exact absurd ⟨Option.some.inj hk, hout⟩ hkeep
        | succ k => exact ⟨k, by omega, hk, hout⟩

/-- A text is cut at the separators behind an even number of quotes. -/
theorem mem_splitPoints_iff : i ∈ splitPoints s ↔ s[i]? = some ';' ∧ Even (quotesBefore s i) := by
  have hstate : s[i]? = some ';' →
      (Quoting.outside.after (s.take i) = .outside ↔ Even (quotesBefore s i)) := fun hsep => by
    obtain ⟨hlt, -⟩ := List.getElem?_eq_some_iff.mp hsep
    rw [after_take_eq hlt.le, quotingAt_eq_outside_iff]
  rw [splitPoints, splitParams, mem_splitPointsFrom_iff]
  constructor
  · rintro ⟨k, hk, hsep, hout⟩
    obtain rfl : i = k := by omega
    exact ⟨hsep, (hstate hsep).mp hout⟩
  · rintro ⟨hsep, heven⟩
    exact ⟨i, by omega, hsep, (hstate hsep).mpr heven⟩

/-! ## Texts that are not cut -/

/-- Joining the pieces gives the text back, so a text of one piece is that piece. -/
theorem splitParams_eq_singleton_iff : splitParams s = [s] ↔ splitPoints s = [] := by
  constructor
  · intro h
    rw [splitPoints, h]
    rfl
  · intro h
    rw [splitPoints] at h
    obtain ⟨piece, rest, hpieces⟩ := List.exists_cons_of_ne_nil (splitFrom_ne_nil .outside s)
    have hjoin := join_splitParams s
    rw [splitParams, hpieces] at h hjoin
    cases rest with
    | nil =>
      rw [splitParams, hpieces]
      exact congrArg (fun p => [p]) hjoin
    | cons next rest => cases h

/-- A piece of a parameter list closes its quotes and hides its separators in them. -/
theorem isPiece_iff : IsPiece s ↔ WellQuoted s := by
  have hcut : splitFrom .outside s = [s] ↔ ∀ i, s[i]? = some ';' → Odd (quotesBefore s i) := by
    rw [← splitParams, splitParams_eq_singleton_iff, List.eq_nil_iff_forall_not_mem]
    simp only [mem_splitPoints_iff, not_and, Nat.not_even_iff_odd]
  have hclosed : Quoting.outside.after s = .outside ↔ Even (quotesBefore s s.length) := by
    rw [← quotingAt_eq_outside_iff, ← after_take_eq (Nat.le_refl _), List.take_length]
  rw [IsPiece, hcut, hclosed]
  constructor
  · rintro ⟨hhidden, heven⟩
    exact ⟨heven, hhidden⟩
  · rintro ⟨heven, hhidden⟩
    exact ⟨hhidden, heven⟩

end

/-- How a parameter list is split.  Nothing is lost, and the cuts are the separators behind an even number of
quotes that are not escaped; so pieces that close their quotes and have no separator outside them are read
back from the list that they make up.  A quoted value is such a piece, and is read back as well. -/
theorem splitParams_outside_quotes :
    (∀ s, join [';'] (splitParams s) = s) ∧
    (∀ s i, i ∈ splitPoints s ↔ s[i]? = some ';' ∧ Even (quotesBefore s i)) ∧
    (∀ ps, ps ≠ [] → (∀ p ∈ ps, WellQuoted p) → splitParams (join [';'] ps) = ps) ∧
    (∀ value, WellQuoted (quote value) ∧ unquote (quote value) = value) := by
  refine ⟨join_splitParams, fun s i => mem_splitPoints_iff, fun ps hne hps => ?_, fun value => ⟨?_, ?_⟩⟩
  · exact splitParams_join hne fun p hp => isPiece_iff.mpr (hps p hp)
  · exact isPiece_iff.mp (isPiece_quote value)
  · exact unquote_quote value

/-- A separator behind one quote, an escaped quote behind that, and a backslash outside quotes, which escapes
nothing. -/
theorem splitParams_outside_quotes_escaped :
    let ps := ["form-data".toList, " name=\"a;\\\"b\"".toList, " x=\\".toList, " y".toList]
    let s := "form-data; name=\"a;\\\"b\"; x=\\; y".toList
    join [';'] ps = s ∧ ps ≠ [] ∧ (∀ p ∈ ps, WellQuoted p) ∧ splitParams s = ps ∧
      s[18]? = some ';' ∧ quotesBefore s 18 = 1 ∧ 18 ∉ splitPoints s ∧
      s[28]? = some ';' ∧ quotesBefore s 28 = 2 ∧ 28 ∈ splitPoints s := by
  intro ps s
  obtain ⟨-, hcuts, hpieces, -⟩ := splitParams_outside_quotes
  have hjoin : join [';'] ps = s := by decide +kernel
  have hps : ∀ p ∈ ps, IsPiece p := by decide +kernel
  have hwell : ∀ p ∈ ps, WellQuoted p := fun p hp => isPiece_iff.mp (hps p hp)
  have hsplit := hpieces ps (List.cons_ne_nil _ _) hwell
  have hone : quotesBefore s 18 = 1 := by decide +kernel
  have htwo : s[28]? = some ';' ∧ quotesBefore s 28 = 2 := by decide +kernel
  have hhidden : 18 ∉ splitPoints s := fun h => by
    have heven := ((hcuts s 18).mp h).2
    rw [hone] at heven
    exact absurd heven (by decide)
  have hcut : 28 ∈ splitPoints s := (hcuts s 28).mpr ⟨htwo.1, by rw [htwo.2]; decide⟩
  rw [hjoin] at hsplit
  exact ⟨hjoin, List.cons_ne_nil _ _, hwell, hsplit, by decide +kernel, hone, hhidden, htwo.1, htwo.2, hcut⟩

end LiveIngest.Text
