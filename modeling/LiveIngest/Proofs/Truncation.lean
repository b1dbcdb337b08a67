import LiveIngest.Proofs.Delimiters
import LiveIngest.Proofs.Encoding

/-!
# Forms that are cut short

A form is over with the two dashes behind its last delimiter.  Whatever comes behind them is ignored,
and where the body ends before them the form cannot be read.  Does the reader then always say that the
body ended too early?

1. **Searching.**  In the beginning of some bytes a search finds what it finds in all of them, if that is
   wholly inside, and else nothing (`find?_of_prefix`).

2. **The readers.**  A reader that would pass over some bytes says that the body ended too early if it is
   given only some of them (`readDelimiterEnd_cut`, `readPart_cut`).  There is one exception.  A header
   block is closed by a blank line, and as long as that is not found the limit is applied to all that is
   there: the beginning of the blank line counts as well (`readHeaders_cut`).  So a block of the largest
   size is too large if one to three bytes of its blank line are there, though not if none or all are.

3. **The form.**  By induction on the sections, the form up to the cut fails as the reader does in which
   it falls (`partsFrom_cut`).

`HeaderBlock.Oversteps` are the cuts of the exception.  `parse_cut` says what a form comes to at every
cut, and `cut_blank_line_too_large` is a cut of the exception.
-/

namespace LiveIngest

namespace Bytes

/-! ## Searching the beginning of some bytes -/

/-- What is found in the beginning of some bytes is found in all of them. -/
theorem find?_mono {pattern bs bs' : Bytes} {n : Nat} (hpre : bs <+: bs')
    (h : find? pattern bs = some n) : find? pattern bs' = some n := by
  have hbound := find?_bound h
  obtain ⟨hfound, hfirst⟩ := find?_eq_some_iff.mp h
  refine find?_eq_some_iff.mpr ⟨hfound.trans (hpre.drop n), fun m hm hm' => hfirst m hm ?_⟩
  refine List.prefix_of_prefix_length_le hm' (hpre.drop m) ?_
  rw [List.length_drop]
  omega

/-- What is found in the beginning of some bytes is what is found in all of them, if it is inside.
There is nothing else to be found, since an earlier place would be one in all of them. -/
theorem find?_of_prefix {pattern bs bs' : Bytes} {n : Nat} (hpre : bs <+: bs')
    (h : find? pattern bs' = some n) :
    find? pattern bs = if n + pattern.length ≤ bs.length then some n else none := by
  cases hbs : find? pattern bs with
  | some m =>
    have hsame := find?_mono hpre hbs
    rw [h, Option.some.injEq] at hsame
    subst hsame
    rw [if_pos (find?_bound hbs)]
  | none =>
    rw [if_neg]
    intro hle
    have hfound : pattern <+: bs.drop n := by
      refine List.prefix_of_prefix_length_le (find?_eq_some_iff.mp h).1 (hpre.drop n) ?_
      rw [List.length_drop]
      omega
    exact find?_eq_none_iff.mp hbs (hfound.isInfix.trans (List.drop_suffix n bs).isInfix)

end Bytes

namespace Form

open LiveIngest.Text

/-! ## Where header blocks stand -/

/-- The place of a header block in a body.  Cuts are compared with it. -/
structure HeaderBlock where
  start : Nat
  length : Nat
deriving DecidableEq, Repr

/-- A cut inside the blank line behind a block that leaves more than the limit from its start on. -/
structure HeaderBlock.Oversteps (b : HeaderBlock) (n : Nat) : Prop where
  limit : b.start + maxHeaderBytes < n
  blankLine : n < b.start + b.length + (Bytes.crlf ++ Bytes.crlf).length

/-- Whether a cut oversteps a block can be computed. -/
instance decidableOversteps (b : HeaderBlock) (n : Nat) : Decidable (b.Oversteps n) :=
  decidable_of_iff (b.start + maxHeaderBytes < n ∧
      n < b.start + b.length + (Bytes.crlf ++ Bytes.crlf).length)
    ⟨fun h => ⟨h.1, h.2⟩, fun h => ⟨h.limit, h.blankLine⟩⟩

/-- The header block of a section whose delimiter is at `i`. -/
def Section.block (boundary : String) (i : Nat) (s : Section) : HeaderBlock :=
  ⟨i + (delimiter boundary ++ s.padding ++ Bytes.crlf).length, (blockOf s.headers).length⟩

/-- The header blocks of sections, if the first delimiter is at `i`. -/
def blocksFrom (boundary : String) : Nat → List Section → List HeaderBlock
  | _, [] => []
  | i, s :: rest =>
    s.block boundary i :: blocksFrom boundary (i + (delimiter boundary ++ s.lead).length) rest

/-- The header blocks of a layout. -/
def Layout.blocks (boundary : String) (l : Layout) : List HeaderBlock :=
  blocksFrom boundary l.preamble.length l.sections

/-- What is wrong with a form that has these header blocks and ends at `n`, behind its first
delimiter.  At most one of the blocks can be overstepped, the one that the cut falls behind. -/
def cutFault (blocks : List HeaderBlock) (n : Nat) : FormError :=
  if ∃ b ∈ blocks, b.Oversteps n then .headersTooLarge maxHeaderBytes else .missingClosingBoundary

section

variable {boundary : String} {s : Section} {rest : List Section} {b : HeaderBlock} {i n : Nat}

/-- Only a block of almost the largest size can be overstepped. -/
theorem HeaderBlock.Oversteps.length_lt (h : b.Oversteps n) : maxHeaderBytes < b.length + 3 := by
  obtain ⟨hlimit, hblank⟩ := h
  simp only [Bytes.crlf, List.length_append, List.length_cons, List.length_nil] at hblank
  omega

/-- Without header blocks it is the closing delimiter that is missing. -/
theorem cutFault_nil (n : Nat) : cutFault [] n = .missingClosingBoundary := rfl

/-- With one block it depends on that block. -/
theorem cutFault_singleton (b : HeaderBlock) (n : Nat) :
    cutFault [b] n =
      if b.Oversteps n then .headersTooLarge maxHeaderBytes else .missingClosingBoundary := by
  simp only [cutFault, List.mem_singleton, exists_eq_left]

/-- A block stands behind the delimiter of its section. -/
theorem le_start_of_mem_blocksFrom (h : b ∈ blocksFrom boundary i rest) :
    i + (delimiter boundary).length ≤ b.start := by
  induction rest generalizing i with
  | nil => cases h
  | cons s rest ih =>
    rcases List.mem_cons.mp h with rfl | h
    · simp only [Section.block, List.length_append]
      omega
    · have := ih h
      omega

/-- The blocks of a form that is read keep to the limit. -/
theorem length_le_of_mem_blocksFrom {parts : List Part}
    (hall : List.Forall₂ (Section.Denotes boundary) rest parts) (h : b ∈ blocksFrom boundary i rest) :
    b.length ≤ maxHeaderBytes := by
  induction hall generalizing i with
  | nil => cases h
  | cons hs _ ih =>
    rcases List.mem_cons.mp h with rfl | h
    · exact hs.short
    · exact ih h

/-- A cut in front of the end of the next delimiter concerns the block of this section only: the
blocks behind start later. -/
theorem cutFault_cons_of_lt
    (h : n < i + (delimiter boundary ++ s.lead ++ delimiter boundary).length) :
    cutFault (blocksFrom boundary i (s :: rest)) n = cutFault [s.block boundary i] n := by
  refine if_congr ?_ rfl rfl
  rw [blocksFrom, List.exists_mem_cons_iff, or_iff_left]
  · simp only [List.mem_singleton, exists_eq_left]
  · rintro ⟨b, hb, hover⟩
    have hstart := le_start_of_mem_blocksFrom hb
    have hlimit := hover.limit
    rw [List.length_append] at h
    omega

/-- A cut behind a section does not concern its block: it is behind the blank line. -/
theorem cutFault_cons_of_le (h : i + (delimiter boundary ++ s.lead).length ≤ n) :
    cutFault (blocksFrom boundary i (s :: rest)) n =
      cutFault (blocksFrom boundary (i + (delimiter boundary ++ s.lead).length) rest) n := by
  refine if_congr ?_ rfl rfl
  rw [blocksFrom, List.exists_mem_cons_iff, or_iff_right]
  rintro ⟨-, hblank⟩
  simp only [Section.block, Section.lead, List.length_append] at h hblank
  omega

end

/-! ## What the readers say at a cut -/

section

variable {boundary : String} {c : Cursor} {s : Section} {part : Part} {bs after : Bytes}

/-- A cut behind the first of some bytes leaves them, and cuts what stands behind them.  The readers
are taken apart by this, one after the other. -/
theorem Cursor.passes_of_cut (hcut : c.rest <+: bs ++ after) (hle : bs.length ≤ c.rest.length) :
    c.Passes bs (c.advance bs.length) ∧ (c.advance bs.length).rest <+: after ∧
      c.rest.length = bs.length + (c.advance bs.length).rest.length := by
  have hpass := passes_advance (List.prefix_of_prefix_length_le (List.prefix_append _ _) hcut hle)
  have hbehind := hpass.rest ▸ hcut
  rw [List.prefix_append_right_inj] at hbehind
  have hlength := congrArg List.length hpass.rest
  rw [List.length_append] at hlength
  exact ⟨hpass, hbehind, hlength⟩

/-- A line that has no room for its end is reported as an end of the body. -/
theorem readDelimiterEnd_of_short
    (h : c.rest.length < (c.rest.takeWhile isPadding).length + Bytes.crlf.length) :
    readDelimiterEnd c = .error .missingClosingBoundary := by
  rw [readDelimiterEnd, if_neg, if_pos h]
  rw [List.isPrefixOf_iff_prefix]
  intro hcrlf
  have hlength := hcrlf.length_le
  rw [Cursor.length_advance] at hlength
  have hwhile := (List.takeWhile_prefix isPadding (l := c.rest)).length_le
  simp only [Bytes.crlf, List.length_cons, List.length_nil] at h hlength
  omega

/-- The line of a delimiter is cut off in its padding or in its line end.  It makes no difference
which, since nothing but padding and a carriage return is left of it. -/
theorem readDelimiterEnd_cut {padding : Bytes} (hpadding : ∀ b ∈ padding, b = 32 ∨ b = 9)
    (hcut : c.rest <+: padding ++ Bytes.crlf ++ after)
    (hshort : c.rest.length < (padding ++ Bytes.crlf).length) :
    readDelimiterEnd c = .error .missingClosingBoundary := by
  apply readDelimiterEnd_of_short
  have hpre : c.rest <+: padding ++ [13] := by
    have hwhole : padding ++ Bytes.crlf ++ after = padding ++ [13] ++ (10 :: after) := by
      simp [Bytes.crlf]
    rw [hwhole] at hcut
    refine List.prefix_of_prefix_length_le hcut (List.prefix_append _ _) ?_
    simp only [Bytes.crlf, List.length_append, List.length_cons, List.length_nil] at hshort ⊢
    omega
  -- cut between the two bytes of the line end, or before both
  rcases List.prefix_concat_iff.mp hpre with hall | hinside
  · have hwhile : (padding ++ [13]).takeWhile isPadding = padding := by
      rw [List.takeWhile_append_of_pos fun b hb => isPadding_iff.mpr (hpadding b hb)]
      rw [List.takeWhile_cons_of_neg (by decide), List.append_nil]
    rw [hall, hwhile]
    simp [Bytes.crlf]
  · have hwhile : c.rest.takeWhile isPadding = c.rest :=
      List.takeWhile_eq_self_iff.mpr fun b hb => isPadding_iff.mpr (hpadding b (hinside.subset hb))
    rw [hwhile]
    simp [Bytes.crlf]

/-- A header block is cut off, or the blank line behind it.  The limit is compared with all that is
left, the beginning of the blank line included. -/
theorem readHeaders_cut {hs : List RawHeader} (hne : hs ≠ []) (hwf : ∀ h ∈ hs, h.WellFormed)
    (hcut : c.rest <+: blockOf hs ++ (Bytes.crlf ++ Bytes.crlf) ++ after)
    (hshort : c.rest.length < (blockOf hs ++ (Bytes.crlf ++ Bytes.crlf)).length) (i : Nat) :
    readHeaders c = .error (cutFault [⟨i, (blockOf hs).length⟩] (i + c.rest.length)) := by
  have hnone : Bytes.find? (Bytes.crlf ++ Bytes.crlf) c.rest = none := by
    rw [Bytes.find?_of_prefix hcut (find?_blankLine_blockOf hne hwf after), if_neg]
    rw [List.length_append] at hshort
    omega
  -- whether the limit is overstepped can be read off from what is left
  have hover : HeaderBlock.Oversteps ⟨i, (blockOf hs).length⟩ (i + c.rest.length) ↔
      maxHeaderBytes < c.rest.length := by
    constructor
    · exact fun h => Nat.lt_of_add_lt_add_left h.limit
    · intro hlimit
      refine ⟨Nat.add_lt_add_left hlimit i, ?_⟩
      rw [List.length_append] at hshort
      simp only
      omega
  rw [readHeaders, if_neg, hnone, cutFault_singleton, if_congr hover rfl rfl]
  · simp only
    split <;> rfl
  · rw [List.isPrefixOf_iff_prefix]
    exact fun hcrlf => not_crlf_prefix_blockOf hne hwf after (hcrlf.trans hcut)

/-- A part is cut off in its header block, or in its data, or in the separator behind them.  Only
the first can overstep the limit. -/
theorem readPart_cut (hb : checkBoundary boundary = .ok ()) (hs : s.Denotes boundary part)
    (hcut : c.rest <+: blockOf s.headers ++ (Bytes.crlf ++ Bytes.crlf) ++
      (s.data ++ separator boundary ++ after))
    (hshort : c.rest.length <
      (blockOf s.headers ++ (Bytes.crlf ++ Bytes.crlf) ++ (s.data ++ separator boundary)).length)
    (i : Nat) :
    readPart boundary c =
      .error (cutFault [⟨i, (blockOf s.headers).length⟩] (i + c.rest.length)) := by
  rw [readPart]
  by_cases hblock : c.rest.length < (blockOf s.headers ++ (Bytes.crlf ++ Bytes.crlf)).length
  · rw [readHeaders_cut hs.nonempty hs.headers hcut hblock i]
  · obtain ⟨hhead, hdata, hlength⟩ := Cursor.passes_of_cut hcut (Nat.le_of_not_lt hblock)
    obtain ⟨tail, htail, hnot⟩ := separator_eq hb
    have hfull : Bytes.find? (separator boundary) (s.data ++ separator boundary ++ after) =
        some s.data.length := by
      have hfree := hs.free
      rw [htail] at hfree ⊢
      exact (Bytes.find?_append_iff hnot).mpr hfree
    have hnone : Bytes.find? (separator boundary) (c.advance
        (blockOf s.headers ++ (Bytes.crlf ++ Bytes.crlf)).length).rest = none := by
      rw [Bytes.find?_of_prefix hdata hfull, if_neg]
      simp only [List.length_append] at hshort hlength ⊢
      omega
    -- the blank line is there as a whole
    have hbehind : ¬ HeaderBlock.Oversteps ⟨i, (blockOf s.headers).length⟩ (i + c.rest.length) := by
      rintro ⟨-, hblank⟩
      rw [List.length_append] at hblock
      simp only at hblank
      omega
    rw [readHeaders_eq_ok_iff.mpr
      (Or.inr ⟨s.headers, hs.nonempty, hs.headers, hs.short, rfl, hhead⟩),
      cutFault_singleton, if_neg hbehind]
    simp only [hnone]

/-- A section is cut off before the delimiter behind it is complete.  The cut falls into the line of
the delimiter or into the part. -/
theorem turn_cut (hb : checkBoundary boundary = .ok ()) (hs : s.Denotes boundary part)
    (hdelimiter : delimiter boundary <+: c.rest)
    (hcut : c.rest <+: delimiter boundary ++ s.lead ++ (delimiter boundary ++ after))
    (hshort : c.rest.length < (delimiter boundary ++ s.lead ++ delimiter boundary).length) (i : Nat) :
    turn boundary c = .error (cutFault [s.block boundary i] (i + c.rest.length)) := by
  have hcut' : c.rest <+: delimiter boundary ++ (s.padding ++ Bytes.crlf ++
      (blockOf s.headers ++ (Bytes.crlf ++ Bytes.crlf) ++ (s.data ++ separator boundary ++ after))) := by
    simpa only [Section.lead, separator, List.append_assoc] using hcut
  obtain ⟨-, hline, hlength⟩ := Cursor.passes_of_cut hcut' hdelimiter.length_le
  rw [turn, if_neg]
  · clear hcut hcut' hdelimiter
    generalize c.advance (delimiter boundary).length = behind at hline hlength
    by_cases hend : behind.rest.length < (s.padding ++ Bytes.crlf).length
    · have hbefore : ¬ (s.block boundary i).Oversteps (i + c.rest.length) := by
        rintro ⟨hlimit, -⟩
        simp only [Section.block, List.length_append] at hlimit hend
        omega
      rw [readDelimiterEnd_cut hs.padding hline hend, cutFault_singleton, if_neg hbefore]
    · obtain ⟨hpadding, hpart, hlength'⟩ := Cursor.passes_of_cut hline (Nat.le_of_not_lt hend)
      rw [readDelimiterEnd_eq_ok_iff.mpr ⟨s.padding, hs.padding, hpadding⟩]
      clear hpadding hline
      generalize behind.advance (s.padding ++ Bytes.crlf).length = line at hpart hlength'
      have hpartShort : line.rest.length <
          (blockOf s.headers ++ (Bytes.crlf ++ Bytes.crlf) ++ (s.data ++ separator boundary)).length := by
        simp only [Section.lead, separator, List.length_append] at hshort hlength' ⊢
        omega
      -- what is left of the body ends where the body ends
      have hplace : i + (delimiter boundary ++ s.padding ++ Bytes.crlf).length + line.rest.length =
          i + c.rest.length := by
        simp only [List.length_append] at hlength' ⊢
        omega
      simp only [readPart_cut hb hs hpart hpartShort
        (i + (delimiter boundary ++ s.padding ++ Bytes.crlf).length), hplace]
      rfl
  · rw [List.isPrefixOf_iff_prefix]
    exact fun hdashes => not_dashes_prefix hs.padding _ (hdashes.trans hline)

/-! ## The whole form -/

/-- The form fails where one of its turns does. -/
theorem partsFrom_of_turn_error {e : FormError} (h : turn boundary c = .error e) :
    partsFrom boundary c = .error e := by
  rw [partsFrom]
  split
  · rename_i hturn
    rw [h] at hturn
    cases hturn
    rfl
  · rename_i hturn
    rw [h] at hturn
    cases hturn
  · rename_i hturn
    rw [h] at hturn
    cases hturn

/-- Or where what comes behind the turn fails. -/
theorem partsFrom_of_next_error {next : Cursor} {e : FormError}
    (h : turn boundary c = .ok (some (part, next))) (he : partsFrom boundary next = .error e) :
    partsFrom boundary c = .error e := by
  rw [partsFrom]
  split
  · rename_i hturn
    rw [h] at hturn
    cases hturn
  · rename_i hturn
    rw [h] at hturn
    cases hturn
  · rename_i hturn
    rw [h] at hturn
    cases hturn
    rw [he]

/-- A form is cut off behind its first delimiter. -/
theorem partsFrom_cut (hb : checkBoundary boundary = .ok ()) {sections : List Section}
    {parts : List Part} (hall : List.Forall₂ (Section.Denotes boundary) sections parts) (i : Nat)
    (hdelimiter : delimiter boundary <+: c.rest) (hcut : c.rest <+: formOf boundary sections [])
    (hshort : c.rest.length < (formOf boundary sections []).length) :
    partsFrom boundary c = .error (cutFault (blocksFrom boundary i sections) (i + c.rest.length)) := by
  -- the cut falls into the first section, or the reader passes over it and the cut falls behind
  induction hall generalizing c i with
  | nil =>
    obtain ⟨-, -, hlength⟩ := Cursor.passes_of_cut hcut hdelimiter.length_le
    have hdashes : (c.advance (delimiter boundary).length).rest.length < 2 := by
      have hform : (formOf boundary [] []).length = (delimiter boundary).length + 2 :=
        List.length_append
      omega
    have hturn : turn boundary c = .error .missingClosingBoundary := by
      rw [turn, if_neg, readDelimiterEnd_of_short (Nat.lt_of_lt_of_le hdashes (Nat.le_add_left _ _))]
      rw [List.isPrefixOf_iff_prefix]
      exact fun h => Nat.not_le_of_lt hdashes h.length_le
    rw [partsFrom_of_turn_error hturn, blocksFrom, cutFault_nil]
  | @cons s part sections parts hs hrest ih =>
    rw [formOf_cons] at hcut hshort
    by_cases hinside : c.rest.length < (delimiter boundary ++ s.lead ++ delimiter boundary).length
    · rw [partsFrom_of_turn_error (turn_cut hb hs hdelimiter hcut hinside i),
        cutFault_cons_of_lt (Nat.add_lt_add_left hinside i)]
    · rw [List.length_append] at hinside hshort
      obtain ⟨hpass, hnext, hlength⟩ := Cursor.passes_of_cut hcut (by omega)
      have hnextDelimiter : delimiter boundary <+:
          (c.advance (delimiter boundary ++ s.lead).length).rest :=
        List.prefix_of_prefix_length_le (delimiter_prefix_formOf ..) hnext (by omega)
      have hturn := (turn_eq_some_iff hb hdelimiter).mpr ⟨s, hs, hpass, hnextDelimiter⟩
      have hlater := ih (i + (delimiter boundary ++ s.lead).length) hnextDelimiter hnext (by omega)
      rw [Nat.add_assoc, ← hlength] at hlater
      rw [partsFrom_of_next_error hturn hlater, cutFault_cons_of_le (by omega)]

end

/-! ## Cutting a layout -/

section

variable {boundary : String} {l : Layout} {bs : Bytes}

/-- A form begins with its preamble and a delimiter. -/
theorem Layout.preamble_append_delimiter_prefix (l : Layout) :
    l.preamble ++ delimiter boundary <+: l.bytes boundary :=
  (List.prefix_append_right_inj _).mpr (delimiter_prefix_formOf ..)

/-- The reader starts behind the preamble, whatever stands behind the first delimiter. -/
theorem Layout.Opens.opening?_of_prefix (h : l.Opens boundary)
    (hstart : l.preamble ++ delimiter boundary <+: bs) :
    ∃ c, opening? boundary bs = some c ∧ (Cursor.start bs).Passes l.preamble c ∧
      delimiter boundary <+: c.rest := by
  have hcommon : l.preamble ++ delimiter boundary <+: l.bytes boundary :=
    l.preamble_append_delimiter_prefix
  have hpass : (Cursor.start bs).Passes l.preamble _ :=
    Cursor.passes_advance ((List.prefix_append _ _).trans hstart)
  have hdelimiter : delimiter boundary <+: ((Cursor.start bs).advance l.preamble.length).rest := by
    have hbs : bs = l.preamble ++ _ := hpass.rest
    rw [hbs] at hstart
    exact (List.prefix_append_right_inj _).mp hstart
  rcases h with hempty | ⟨line, hline, hnot, hfirst⟩
  · rw [hempty] at hpass hdelimiter ⊢
    exact ⟨Cursor.start bs, opening?_eq_some_iff.mpr (Or.inl ⟨hdelimiter, rfl⟩), hpass, hdelimiter⟩
  · refine ⟨_, opening?_eq_some_iff.mpr (Or.inr ⟨?_, line, hline ▸ hpass, hdelimiter, ?_⟩), hpass,
      hdelimiter⟩
    · intro hbegins
      refine hnot ((List.prefix_of_prefix_length_le hbegins hstart ?_).trans hcommon)
      rw [List.length_append]
      exact Nat.le_add_left _ _
    · intro n hn hearlier
      refine hfirst n hn ((List.prefix_of_prefix_length_le hearlier (hstart.drop n) ?_).trans
        (hcommon.drop n))
      rw [hline]
      simp only [separator, List.length_drop, List.length_append]
      omega

/-- It does not start in a body that ends before that.  A delimiter that is found earlier would be
found in the whole body too. -/
theorem Layout.Opens.opening?_of_short (h : l.Opens boundary) (hpre : bs <+: l.bytes boundary)
    (hshort : bs.length < (l.preamble ++ delimiter boundary).length) : opening? boundary bs = none := by
  rw [Option.eq_none_iff_forall_ne_some]
  intro c hc
  rcases opening?_eq_some_iff.mp hc with ⟨hbegins, -⟩ | ⟨-, before, hpass, ⟨behind, hbehind⟩, -⟩
  · rcases h with hempty | ⟨line, hline, hnot, hfirst⟩
    · rw [hempty, List.nil_append] at hshort
      exact Nat.not_le_of_lt hshort hbegins.length_le
    · exact hnot (hbegins.trans hpre)
  · have hbs : bs = before ++ (separator boundary ++ behind) := by
      have hrest : bs = before ++ Bytes.crlf ++ c.rest := hpass.rest
      rw [hrest, ← hbehind]
      simp only [separator, List.append_assoc]
    have hlength := congrArg List.length hbs
    simp only [separator, List.length_append] at hlength hshort
    rcases h with hempty | ⟨line, hline, hnot, hfirst⟩
    · rw [hempty, List.length_nil] at hshort
      omega
    · rw [hline, List.length_append] at hshort
      refine hfirst before.length (by omega) (List.IsPrefix.trans ?_ (hpre.drop before.length))
      rw [hbs, List.drop_left]
      exact List.prefix_append _ _

/-- A body with a first delimiter fails as its parts do. -/
theorem parse_of_parts_error {c : Cursor} {e : FormError} (hb : checkBoundary boundary = .ok ())
    (hopening : opening? boundary bs = some c) (he : partsFrom boundary c = .error e) :
    parse bs boundary = .error e := by
  rw [parse, hb]
  simp only [hopening, he]

variable {body : Bytes} {parts : List Part}

/-- A form up to its two dashes is the beginning of its body. -/
theorem Layout.Derives.closed_prefix (h : l.Derives boundary body parts) : l.closed boundary <+: body := by
  rw [← h.bytes, ← Layout.closed_append_epilogue]
  exact List.prefix_append _ _

/-- Behind its two dashes anything may follow a form.  The layout stays the same but for its
epilogue. -/
theorem Layout.Derives.parse_closed (hb : checkBoundary boundary = .ok ())
    (h : l.Derives boundary body parts) (after : Bytes) :
    parse (l.closed boundary ++ after) boundary = .ok parts := by
  have hbytes : l.closed boundary ++ after = l.preamble ++ formOf boundary l.sections after := by
    simp only [closed, formOf, List.append_assoc, List.append_nil]
  have hstart : l.preamble ++ delimiter boundary <+: l.closed boundary ++ after := by
    rw [hbytes]
    exact (List.prefix_append_right_inj _).mpr (delimiter_prefix_formOf ..)
  obtain ⟨c, hopening, hpass, hdelimiter⟩ := h.opens.opening?_of_prefix hstart
  have hrest : c.rest = formOf boundary l.sections after :=
    List.append_cancel_left (hpass.rest.symm.trans hbytes)
  refine parse_eq_ok_iff_partsFrom.mpr ⟨hb, ?_, c, hopening, ?_⟩
  · rintro rfl
    exact h.nonempty (List.forall₂_nil_right_iff.mp h.sections)
  · exact (partsFrom_eq_ok_iff hb hdelimiter).mpr ⟨l.sections, after, h.sections, hrest⟩

/-- What a form comes to that is cut anywhere in front of its end.  In front of its first delimiter
there is nothing to begin with, and behind it `partsFrom_cut` applies. -/
theorem Layout.Derives.parse_take (hb : checkBoundary boundary = .ok ())
    (h : l.Derives boundary body parts) {n : Nat} (hn : n < (l.closed boundary).length) :
    parse (body.take n) boundary = .error
      (if n < (l.preamble ++ delimiter boundary).length then .missingOpeningBoundary
        else cutFault (l.blocks boundary) n) := by
  have hlength : (body.take n).length = n := by
    rw [List.length_take]
    exact Nat.min_eq_left (Nat.le_of_lt (Nat.lt_of_lt_of_le hn h.closed_prefix.length_le))
  have hclosed : body.take n <+: l.closed boundary :=
    List.prefix_of_prefix_length_le (List.take_prefix n body) h.closed_prefix (by omega)
  by_cases hopen : n < (l.preamble ++ delimiter boundary).length
  · have hnone : opening? boundary (body.take n) = none :=
      h.opens.opening?_of_short (h.bytes ▸ List.take_prefix n body) (by omega)
    rw [if_pos hopen, parse, hb]
    simp only [hnone]
  · have hstart : l.preamble ++ delimiter boundary <+: body.take n := by
      refine List.prefix_of_prefix_length_le ?_ (List.take_prefix n body) (by omega)
      exact h.bytes ▸ l.preamble_append_delimiter_prefix
    obtain ⟨c, hopening, hpass, hdelimiter⟩ := h.opens.opening?_of_prefix hstart
    have hrest : body.take n = l.preamble ++ c.rest := hpass.rest
    have hplace : l.preamble.length + c.rest.length = n := by
      rw [← List.length_append, ← hrest, hlength]
    rw [hrest, closed, List.prefix_append_right_inj] at hclosed
    rw [closed, List.length_append] at hn
    have hparts := partsFrom_cut hb h.sections l.preamble.length hdelimiter hclosed (by omega)
    rw [hplace] at hparts
    rw [if_neg hopen, parse_of_parts_error hb hopening hparts]
    rfl

end

/-- A form is over with the two dashes behind its last delimiter: anything may follow, and without them it
is refused.  Where it ends before its first delimiter does, that one is missing.  Behind that the closing
delimiter is, but for cuts in the blank line behind a header block that leave more bytes of the two
together than a header block may have.  There the headers are too large, though the block itself is not. -/
theorem parse_cut {body : Bytes} {boundary : String} {parts : List Part}
    (h : parse body boundary = .ok parts) :
    ∃ l : Layout, l.Derives boundary body parts ∧ l.closed boundary <+: body ∧
      (∀ after, parse (l.closed boundary ++ after) boundary = .ok parts) ∧
      (∀ n < (l.closed boundary).length, parse (body.take n) boundary = .error
        (if n < (l.preamble ++ delimiter boundary).length then .missingOpeningBoundary
          else if ∃ b ∈ l.blocks boundary, b.Oversteps n then .headersTooLarge maxHeaderBytes
          else .missingClosingBoundary)) ∧
      ∀ n, ∀ b ∈ l.blocks boundary, b.Oversteps n →
        b.length ≤ maxHeaderBytes ∧ maxHeaderBytes < b.length + 3 := by
  obtain ⟨hb, l, hl⟩ := parse_eq_ok_iff.mp h
  refine ⟨l, hl, hl.closed_prefix, hl.parse_closed hb, fun n hn => hl.parse_take hb hn, ?_⟩
  exact fun n b hmem hover => ⟨length_le_of_mem_blocksFrom hl.sections hmem, hover.length_lt⟩

/-- A form with a preamble and an epilogue is over in front of the epilogue, and not before that. -/
theorem parse_cut_epilogue :
    let body := Bytes.ofString "x\r\n--b \r\nContent-Disposition: form-data; name=x\r\n\r\n1\r\n--b--tail"
    let parts : List Part := [⟨"x", none, none, Bytes.ofString "1"⟩]
    parse body "b" = .ok parts ∧
      ∃ l : Layout, l.Derives "b" body parts ∧
        parse (l.closed "b" ++ Bytes.ofString "\r\n--b") "b" = .ok parts ∧
        ∀ n < (l.closed "b").length, ∃ e, parse (body.take n) "b" = .error e := by
  intro body parts
  have hparse : parse body "b" = .ok parts := by decide +kernel
  obtain ⟨l, hl, -, hafter, hcut, -⟩ := parse_cut hparse
  exact ⟨hparse, l, hl, hafter _, fun n hn => ⟨_, hcut n hn⟩⟩

/-! ## A cut in the blank line -/

/-- A form with one part and nothing around it. -/
def onlyPart (part : Part) : Layout := ⟨[], [part.asSection []], []⟩

section

variable {boundary : String} {part : Part}

/-- Up to its two dashes this is all of the form. -/
theorem closed_onlyPart (part : Part) :
    (onlyPart part).closed boundary = encode boundary none [([], part)] [] := by
  rw [encode_eq]
  rfl

/-- It is the layout of the form that is written. -/
theorem derives_onlyPart (hb : checkBoundary boundary = .ok ()) (hpart : part.Writable boundary) :
    (onlyPart part).Derives boundary (encode boundary none [([], part)] []) [part] :=
  @derives_encode boundary none [([], part)] [] hb (List.cons_ne_nil _ _) (by simp)
    (by simpa using hpart) (by simp)

/-- A form that is cut behind so many bytes of the blank line. -/
theorem parse_onlyPart_cut (hb : checkBoundary boundary = .ok ()) (hpart : part.Writable boundary)
    {k : Nat} (hk : k < (Bytes.crlf ++ Bytes.crlf).length) :
    parse ((encode boundary none [([], part)] []).take
        ((delimiter boundary ++ Bytes.crlf).length + (blockOf part.headers).length + k)) boundary =
      .error (if maxHeaderBytes < (blockOf part.headers).length + k
        then .headersTooLarge maxHeaderBytes else .missingClosingBoundary) := by
  have hblocks : (onlyPart part).blocks boundary =
      [⟨(delimiter boundary ++ Bytes.crlf).length, (blockOf part.headers).length⟩] := by
    simp [Layout.blocks, onlyPart, blocksFrom, Section.block, Part.asSection]
  have hclosed : (delimiter boundary ++ Bytes.crlf).length + (blockOf part.headers).length + k <
      ((onlyPart part).closed boundary).length := by
    simp only [Layout.closed, onlyPart, formOf_cons, Section.lead, Part.asSection, List.length_append]
      at hk ⊢
    omega
  rw [(derives_onlyPart hb hpart).parse_take hb hclosed, if_neg, hblocks, cutFault_singleton]
  · refine congrArg _ (if_congr ?_ rfl rfl)
    constructor
    · intro hover
      have hlimit := hover.limit
      simp only at hlimit
      omega
    · intro hlimit
      exact ⟨by simp only; omega, by simp only; omega⟩
  · simp only [onlyPart, List.nil_append, List.length_append]
    omega

end

/-- An empty part with a content type of so many letters. -/
def typedPart (letters : Nat) : Part := ⟨"x", none, some (String.ofList (List.replicate letters 'z')), []⟩

/-- A letter is one byte. -/
theorem length_ofText_replicate (letters : Nat) :
    (Bytes.ofText (List.replicate letters 'z')).length = letters := by
  induction letters with
  | zero => rfl
  | succ letters ih =>
    have hone : String.utf8EncodeChar 'z' = [122] := by decide
    rw [List.replicate_succ, Bytes.ofText_cons, hone, List.length_append, ih]
    exact Nat.add_comm _ _

/-- All but the letters takes 56 bytes. -/
theorem length_blockOf_typedPart (letters : Nat) :
    (blockOf (typedPart letters).headers).length = 56 + letters := by
  have hfirst : RawHeader.line ⟨"Content-Disposition".toList,
      ' ' :: join [';'] ["form-data".toList, parameter "name".toList "x".toList]⟩ =
        "Content-Disposition: form-data; name=\"x\"".toList := by decide
  have hheaders : (typedPart letters).headers.map RawHeader.line =
      ["Content-Disposition: form-data; name=\"x\"".toList,
        "Content-Type: ".toList ++ List.replicate letters 'z'] := by
    rw [← hfirst]
    simp [Part.headers, Part.parameters, typedPart, RawHeader.line]
  have htext : join lineEnd ((typedPart letters).headers.map RawHeader.line) =
      "Content-Disposition: form-data; name=\"x\"\r\nContent-Type: ".toList ++
        List.replicate letters 'z' := by
    rw [hheaders]
    simp [join, lineEnd]
  rw [blockOf, htext, Bytes.ofText_append, List.length_append, length_ofText_replicate,
    Bytes.ofText_toList]
  rfl

/-- It can be written as long as its headers keep to the limit. -/
theorem writable_typedPart {letters : Nat} (h : 56 + letters ≤ maxHeaderBytes) :
    (typedPart letters).Writable "b" where
  name := by simp only [typedPart]; decide
  fileName := by simp [typedPart]
  contentType := by
    rintro contentType ⟨⟩
    have hz : isBlank 'z' = false ∧ '\r' ≠ 'z' := by decide
    have hletters : ∀ c ∈ List.replicate letters 'z', c = 'z' := fun c hc => List.eq_of_mem_replicate hc
    rw [String.toList_ofList]
    refine ⟨free_of_not_mem fun hmem => hz.2 (hletters _ hmem), ?_, ?_⟩
    · exact fun c hc => hletters c (List.mem_of_mem_head? hc) ▸ hz.1
    · exact fun c hc => hletters c (List.mem_of_mem_getLast? hc) ▸ hz.1
  data := by simp only [typedPart]; decide
  short := by rwa [length_blockOf_typedPart]

/-- A header block of the largest size, and the form is cut behind the first byte of the blank line.  The
headers are not too large: the whole form is read, and cut one byte earlier it has no closing delimiter. -/
theorem cut_blank_line_too_large :
    let body := encode "b" none [([], typedPart 8136)] []
    parse body "b" = .ok [typedPart 8136] ∧
      (∃ l : Layout, l.Derives "b" body [typedPart 8136] ∧ l.closed "b" = body ∧ l.preamble = []) ∧
      8198 < body.length ∧
      parse (body.take 8198) "b" = .error (.headersTooLarge maxHeaderBytes) ∧
      parse (body.take 8197) "b" = .error .missingClosingBoundary := by
  intro body
  have hb : checkBoundary "b" = .ok () := by decide +kernel
  have hblock := length_blockOf_typedPart 8136
  have hpart : (typedPart 8136).Writable "b" := writable_typedPart (by decide)
  have hl := derives_onlyPart hb hpart
  have hparse : parse body "b" = .ok [typedPart 8136] := parse_eq_ok_iff.mpr ⟨hb, _, hl⟩
  have hone : parse (body.take 8198) "b" = .error (.headersTooLarge maxHeaderBytes) := by
    have hcut := parse_onlyPart_cut (k := 1) hb hpart (by decide)
    rw [hblock] at hcut
    exact hcut
  have hnone : parse (body.take 8197) "b" = .error .missingClosingBoundary := by
    have hcut := parse_onlyPart_cut (k := 0) hb hpart (by decide)
    rw [hblock] at hcut
    exact hcut
  have hinside : 8198 < body.length := by
    refine Nat.lt_of_not_le fun hle => ?_
    have hall : body.take 8198 = body := List.take_of_length_le hle
    rw [← hall, hone] at hparse
    cases hparse
  exact ⟨hparse, ⟨_, hl, closed_onlyPart _, rfl⟩, hinside, hone, hnone⟩

end Form

end LiveIngest
