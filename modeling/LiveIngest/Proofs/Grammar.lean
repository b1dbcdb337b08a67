import LiveIngest.Form.Basic
import LiveIngest.Proofs.HeaderBlocks

/-!
# The grammar of forms

A `Layout` cuts a body into what stands before the first delimiter, the sections of the parts, and
what stands behind the closing delimiter.  `Layout.Derives` says when a layout is one of a body and
what parts it means; nothing in it searches or counts.

Each function of the reader gets one lemma that says when it succeeds and which bytes it passes over
(`Cursor.Passes`); put together they say that `parse` finds a layout exactly when there is one.  That
there is at most one is not a matter of the reader: padding ends at the first byte that is none, a
block at its first blank line, data at the first separator (`Section.append_inj`).

`parse_iff_derives` is both.

The reader decides by looking ahead: for a delimiter, for the end of the padding, for a blank line,
for a separator.  A layout says what stands where, and each search is then known to end there, by
`find?_blankLine_blockOf`, `find?_separator_iff` and their like.  So the grammar could be read by
any other reader and would come to the same.
-/

namespace LiveIngest.Form

open LiveIngest.Text

/-! ## Layouts -/

/-- One part as it stands in a body, behind its delimiter and up to the next one.  Headers are kept
as they were sent, since two texts may mean the same headers. -/
structure Section where
  padding : Bytes
  headers : List RawHeader
  data : Bytes

/-- The bytes of a section in front of the next delimiter. -/
def Section.lead (s : Section) : Bytes :=
  s.padding ++ Bytes.crlf ++ blockOf s.headers ++ (Bytes.crlf ++ Bytes.crlf) ++ s.data ++ Bytes.crlf

/-- The bytes of a section, the next delimiter included. -/
def Section.bytes (boundary : String) (s : Section) : Bytes := s.lead ++ delimiter boundary

/-- A form from its first delimiter on. -/
def formOf (boundary : String) (sections : List Section) (epilogue : Bytes) : Bytes :=
  delimiter boundary ++ (sections.flatMap (Section.bytes boundary) ++ ([45, 45] ++ epilogue))

/-- A body, cut at its delimiters. -/
structure Layout where
  preamble : Bytes
  sections : List Section
  epilogue : Bytes

/-- The body. -/
def Layout.bytes (boundary : String) (l : Layout) : Bytes :=
  l.preamble ++ formOf boundary l.sections l.epilogue

/-- A section means a part: there are only spaces and tabs behind its delimiter, its header block is
text within the limit, made of header lines that describe the part, and its data hold no
separator. -/
structure Section.Denotes (boundary : String) (s : Section) (part : Part) : Prop where
  padding : ∀ b ∈ s.padding, b = 32 ∨ b = 9
  nonempty : s.headers ≠ []
  headers : ∀ h ∈ s.headers, h.WellFormed
  short : (blockOf s.headers).length ≤ maxHeaderBytes
  free : ¬ separator boundary <:+: s.data
  describes : Describes s.headers s.data part

/-- The preamble is empty, or it ends with a line end, the body does not start with a delimiter, and
the separator that this line end opens is the first one in the body. -/
def Layout.Opens (boundary : String) (l : Layout) : Prop :=
  l.preamble = [] ∨
    ∃ line, l.preamble = line ++ Bytes.crlf ∧ ¬ delimiter boundary <+: l.bytes boundary ∧
      ∀ n < line.length, ¬ separator boundary <+: (l.bytes boundary).drop n

/-- A layout is one of the body and means the parts, of which there is at least one. -/
structure Layout.Derives (boundary : String) (l : Layout) (body : Bytes) (parts : List Part) :
    Prop where
  bytes : l.bytes boundary = body
  opens : l.Opens boundary
  nonempty : l.sections ≠ []
  sections : List.Forall₂ (Section.Denotes boundary) l.sections parts

/-- A form is its first section and the form of the others, which begins with a delimiter again. -/
theorem formOf_cons (boundary : String) (s : Section) (rest : List Section) (epilogue : Bytes) :
    formOf boundary (s :: rest) epilogue =
      delimiter boundary ++ s.lead ++ formOf boundary rest epilogue := by
  simp only [formOf, List.flatMap_cons, Section.bytes, List.append_assoc]

/-- A form begins with a delimiter, also if it has no section. -/
theorem delimiter_prefix_formOf (boundary : String) (sections : List Section) (epilogue : Bytes) :
    delimiter boundary <+: formOf boundary sections epilogue :=
  List.prefix_append _ _

/-! ## Boundaries -/

/-- What a valid boundary is, without the order in which it is checked. -/
theorem checkBoundary_eq_ok_iff {boundary : String} :
    checkBoundary boundary = .ok () ↔
      boundary.toList ≠ [] ∧ (Bytes.ofString boundary).length ≤ maxBoundaryLength ∧
        boundary.toList.getLast? ≠ some ' ' ∧ ∀ c ∈ boundary.toList, isBoundaryChar c = true := by
  rw [checkBoundary]
  split
  · rename_i hempty
    simp [hempty]
  · split
    · rename_i hlong
      simp [Nat.not_le.mpr hlong]
    · split
      · rename_i hspace
        simp [hspace]
      · simp_all

/-- The line end in front of a delimiter is the only carriage return of a separator. -/
theorem separator_eq {boundary : String} (hb : checkBoundary boundary = .ok ()) :
    ∃ tail, separator boundary = 13 :: tail ∧ 13 ∉ tail := by
  refine ⟨10 :: delimiter boundary, rfl, ?_⟩
  have hchars := (checkBoundary_eq_ok_iff.mp hb).2.2.2
  intro hmem
  have hstring : (13 : UInt8) ∈ Bytes.ofText boundary.toList := by
    rw [Bytes.ofText_toList]
    simpa [delimiter] using hmem
  exact absurd (hchars _ (Bytes.mem_of_mem_ofText hstring (by decide))) (by decide)

/-! ## Passing over bytes -/

/-- Between two places of a body stand these bytes.  Readers are described by what they pass over,
not by where they go. -/
structure Cursor.Passes (c : Cursor) (bs : Bytes) (next : Cursor) : Prop where
  rest : c.rest = bs ++ next.rest
  offset : next.offset = c.offset + bs.length

namespace Cursor

variable {c d e : Cursor} {bs bs' : Bytes}

/-- The place behind the bytes is the one that the cursor is moved to. -/
theorem passes_iff : c.Passes bs d ↔ bs <+: c.rest ∧ d = c.advance bs.length := by
  constructor
  · rintro ⟨hrest, hoffset⟩
    refine ⟨⟨d.rest, hrest.symm⟩, ?_⟩
    cases d
    simp only at hrest hoffset
    rw [Cursor.advance, hrest, List.drop_left, hoffset]
  · rintro ⟨⟨r, hr⟩, rfl⟩
    constructor
    · rw [Cursor.advance, ← hr, List.drop_left]
    · rfl

/-- Bytes that are there can be passed over. -/
theorem passes_advance (h : bs <+: c.rest) : c.Passes bs (c.advance bs.length) :=
  passes_iff.mpr ⟨h, rfl⟩

/-- One passage after the other passes over both. -/
theorem Passes.trans (h : c.Passes bs d) (h' : d.Passes bs' e) : c.Passes (bs ++ bs') e := by
  constructor
  · rw [h.rest, h'.rest, List.append_assoc]
  · rw [h'.offset, h.offset, List.length_append, Nat.add_assoc]

/-- A passage over bytes that are put together stops in between. -/
theorem Passes.split (h : c.Passes (bs ++ bs') e) :
    c.Passes bs (c.advance bs.length) ∧ (c.advance bs.length).Passes bs' e := by
  have hrest := h.rest
  rw [List.append_assoc] at hrest
  refine ⟨passes_advance ⟨_, hrest.symm⟩, ?_, ?_⟩
  · show c.rest.drop bs.length = _
    rw [hrest, List.drop_left]
  · show e.offset = c.offset + bs.length + bs'.length
    rw [h.offset, List.length_append, Nat.add_assoc]

end Cursor

/-! ## What the readers pass over -/

section

variable {boundary : String} {c next : Cursor} {part : Part}

/-- Padding is spaces and tabs. -/
theorem isPadding_iff {b : UInt8} : isPadding b = true ↔ b = 32 ∨ b = 9 := by
  simp [isPadding]

/-- It ends at a line end, which is neither. -/
theorem takeWhile_padding {padding after : Bytes} (h : ∀ b ∈ padding, b = 32 ∨ b = 9) :
    (padding ++ (Bytes.crlf ++ after)).takeWhile isPadding = padding := by
  rw [List.takeWhile_append_of_pos fun b hb => isPadding_iff.mpr (h b hb)]
  rw [Bytes.crlf, List.cons_append, List.takeWhile_cons_of_neg (by decide), List.append_nil]

/-- A delimiter line ends with padding and a line end. -/
theorem readDelimiterEnd_eq_ok_iff :
    readDelimiterEnd c = .ok next ↔
      ∃ padding, (∀ b ∈ padding, b = 32 ∨ b = 9) ∧ c.Passes (padding ++ Bytes.crlf) next := by
  rw [readDelimiterEnd]
  constructor
  · intro h
    split at h
    · rename_i hcrlf
      rw [List.isPrefixOf_iff_prefix] at hcrlf
      refine ⟨c.rest.takeWhile isPadding, fun b hb => ?_, ?_⟩
      · exact isPadding_iff.mp (List.all_eq_true.mp List.all_takeWhile b hb)
      · rw [← Except.ok.inj h]
        exact (Cursor.passes_advance (List.takeWhile_prefix _)).trans (Cursor.passes_advance hcrlf)
    · split at h <;> cases h
  · rintro ⟨padding, hpadding, hpass⟩
    have hwhile : c.rest.takeWhile isPadding = padding := by
      rw [hpass.rest, List.append_assoc, takeWhile_padding hpadding]
    obtain ⟨-, hcrlf⟩ := hpass.split
    obtain ⟨hpre, rfl⟩ := Cursor.passes_iff.mp hcrlf
    rw [hwhile]
    exact if_pos (List.isPrefixOf_iff_prefix.mpr hpre)

/-- There are no headers, or there is a block of them within the limit and a blank line. -/
theorem readHeaders_eq_ok_iff {headers : List Header} :
    readHeaders c = .ok (headers, next) ↔
      headers = [] ∧ c.Passes Bytes.crlf next ∨
        ∃ hs : List RawHeader, hs ≠ [] ∧ (∀ h ∈ hs, h.WellFormed) ∧
          (blockOf hs).length ≤ maxHeaderBytes ∧ hs.map RawHeader.header = headers ∧
          c.Passes (blockOf hs ++ (Bytes.crlf ++ Bytes.crlf)) next := by
  rw [readHeaders]
  constructor
  · intro h
    split at h
    · rename_i hcrlf
      obtain ⟨rfl, rfl⟩ := Prod.mk.inj (Except.ok.inj h)
      exact Or.inl ⟨rfl, Cursor.passes_advance (List.isPrefixOf_iff_prefix.mp hcrlf)⟩
    · split at h
      · rename_i n hfound
        split at h
        · cases h
        · rename_i hshort
          split at h
          · cases h
          · rename_i headers' hheaders
            obtain ⟨rfl, rfl⟩ := Prod.mk.inj (Except.ok.inj h)
            obtain ⟨hs, hne, hwf, hblock, hmap⟩ := Header.ofBlock_eq_ok_iff.mp hheaders
            obtain ⟨after, hafter⟩ := Bytes.eq_of_find? hfound
            have hlen : (blockOf hs).length = n := by
              rw [hblock, Bytes.length_take_of_find? hfound]
            refine Or.inr ⟨hs, hne, hwf, by omega, hmap, ?_⟩
            rw [← hblock] at hafter
            rw [← hlen, ← List.length_append]
            exact Cursor.passes_advance ⟨after, hafter.symm⟩
      · split at h <;> cases h
  · rintro (⟨rfl, hpass⟩ | ⟨hs, hne, hwf, hshort, rfl, hpass⟩)
    · obtain ⟨hpre, rfl⟩ := Cursor.passes_iff.mp hpass
      exact if_pos (List.isPrefixOf_iff_prefix.mpr hpre)
    · obtain ⟨-, hnext⟩ := Cursor.passes_iff.mp hpass
      rw [List.length_append] at hnext
      have hrest := hpass.rest
      have hblock : c.rest.take (blockOf hs).length = blockOf hs := by
        rw [hrest, List.append_assoc, List.take_left]
      have hheaders := Header.ofBlock_eq_ok_iff.mpr ⟨hs, hne, hwf, rfl, rfl⟩
      -- a block does not look like an empty one, and its own blank line is the first
      rw [if_neg, hrest, find?_blankLine_blockOf hne hwf, ← hrest]
      · simp only
        rw [if_neg (by omega), hblock, hheaders, hnext]
      · rw [List.isPrefixOf_iff_prefix, hrest]
        exact not_crlf_prefix_blockOf hne hwf _

/-- Data end at a line end with a delimiter behind it, and hold no separator.  This is where a
separator must not overlap itself. -/
theorem find?_separator_iff (hb : checkBoundary boundary = .ok ()) {n : Nat} :
    Bytes.find? (separator boundary) c.rest = some n ↔
      ∃ data, data.length = n ∧ ¬ separator boundary <:+: data ∧
        c.Passes (data ++ Bytes.crlf) (c.advance (n + Bytes.crlf.length)) ∧
        delimiter boundary <+: (c.advance (n + Bytes.crlf.length)).rest := by
  obtain ⟨tail, htail, hnot⟩ := separator_eq hb
  rw [htail, Bytes.find?_cons_eq_some_iff hnot, ← htail]
  constructor
  · rintro ⟨data, after, hrest, rfl, hfree⟩
    have hcut : data ++ separator boundary ++ after =
        data ++ Bytes.crlf ++ (delimiter boundary ++ after) := by
      simp only [separator, List.append_assoc]
    rw [hcut] at hrest
    have hpass := Cursor.passes_advance ⟨_, hrest.symm⟩
    rw [List.length_append] at hpass
    refine ⟨data, rfl, hfree, hpass, after, ?_⟩
    exact List.append_cancel_left (hrest.symm.trans hpass.rest)
  · rintro ⟨data, rfl, hfree, hpass, after, hafter⟩
    refine ⟨data, after, ?_, rfl, hfree⟩
    rw [hpass.rest, ← hafter]
    simp only [separator, List.append_assoc]

/-- A part is its header block, a blank line, and its data, up to the line end in front of the next
delimiter.  A part without headers is refused by `Part.ofHeaders`, so the other case of
`readHeaders_eq_ok_iff` does not occur here. -/
theorem readPart_eq_ok_iff (hb : checkBoundary boundary = .ok ()) :
    readPart boundary c = .ok (part, next) ↔
      ∃ hs data, hs ≠ [] ∧ (∀ h ∈ hs, RawHeader.WellFormed h) ∧
        (blockOf hs).length ≤ maxHeaderBytes ∧ ¬ separator boundary <:+: data ∧
        Describes hs data part ∧
        c.Passes (blockOf hs ++ (Bytes.crlf ++ Bytes.crlf) ++ (data ++ Bytes.crlf)) next ∧
        delimiter boundary <+: next.rest := by
  rw [readPart]
  constructor
  · intro h
    split at h
    · cases h
    · rename_i headers content hheaders
      split at h
      · cases h
      · rename_i n hfound
        split at h
        · cases h
        · rename_i part' hpart
          obtain ⟨rfl, rfl⟩ := Prod.mk.inj (Except.ok.inj h)
          obtain ⟨data, rfl, hfree, hdata, hnext⟩ := (find?_separator_iff hb).mp hfound
          rw [hdata.rest, List.append_assoc, List.take_left] at hpart
          rcases readHeaders_eq_ok_iff.mp hheaders with ⟨rfl, -⟩ | ⟨hs, hne, hwf, hshort, rfl, hpass⟩
          · -- without headers there is no disposition
            cases hpart
          · exact ⟨hs, data, hne, hwf, hshort, hfree, Part.ofHeaders_eq_ok_iff.mp hpart,
              hpass.trans hdata, hnext⟩
  · rintro ⟨hs, data, hne, hwf, hshort, hfree, hdescribes, hpass, hnext⟩
    obtain ⟨hhead, hdata⟩ := hpass.split
    clear hpass
    -- from here on it does not matter how far the headers went
    generalize c.advance _ = content at hhead hdata
    obtain ⟨-, rfl⟩ := Cursor.passes_iff.mp hdata
    have htake := congrArg (List.take data.length) hdata.rest
    rw [List.append_assoc, List.take_left] at htake
    rw [List.length_append] at hdata hnext ⊢
    rw [readHeaders_eq_ok_iff.mpr (Or.inr ⟨hs, hne, hwf, hshort, rfl, hhead⟩)]
    simp only [(find?_separator_iff hb).mpr ⟨data, rfl, hfree, hdata, hnext⟩, htake,
      Part.ofHeaders_eq_ok_iff.mpr hdescribes]

/-- What stands behind a delimiter line that does not close the form. -/
theorem not_dashes_prefix {padding : Bytes} (h : ∀ b ∈ padding, b = 32 ∨ b = 9) (after : Bytes) :
    ¬ [45, 45] <+: padding ++ Bytes.crlf ++ after := by
  intro hp
  cases padding with
  | nil => exact absurd (List.cons_prefix_cons.mp hp).1 (by decide)
  | cons b rest =>
    have hdash := (List.cons_prefix_cons.mp hp).1
    rcases h b List.mem_cons_self with rfl | rfl <;> exact absurd hdash (by decide)

/-- The form ends at a delimiter with two dashes behind it. -/
theorem turn_eq_none_iff (hdelimiter : delimiter boundary <+: c.rest) :
    turn boundary c = .ok none ↔ delimiter boundary ++ [45, 45] <+: c.rest := by
  obtain ⟨behind, hbehind⟩ := hdelimiter
  have hrest : (c.advance (delimiter boundary).length).rest = behind := by
    rw [Cursor.advance, ← hbehind, List.drop_left]
  rw [turn]
  simp only [hrest]
  rw [← hbehind, List.prefix_append_right_inj, ← List.isPrefixOf_iff_prefix]
  constructor
  · intro h
    split at h
    · assumption
    · split at h
      · cases h
      · split at h <;> cases h
  · exact fun h => if_pos h

/-- Any other turn passes over a section that means the part, and comes to a delimiter again. -/
theorem turn_eq_some_iff (hb : checkBoundary boundary = .ok ())
    (hdelimiter : delimiter boundary <+: c.rest) :
    turn boundary c = .ok (some (part, next)) ↔
      ∃ s : Section, s.Denotes boundary part ∧ c.Passes (delimiter boundary ++ s.lead) next ∧
        delimiter boundary <+: next.rest := by
  have hstart := Cursor.passes_advance hdelimiter
  rw [turn]
  constructor
  · intro h
    split at h
    · cases h
    · split at h
      · cases h
      · rename_i line hline
        split at h
        · cases h
        · rename_i found hfound
          obtain ⟨padding, hpadding, hpass⟩ := readDelimiterEnd_eq_ok_iff.mp hline
          rw [Except.ok.injEq, Option.some.injEq] at h
          rw [h] at hfound
          -- the section is put together from what the two readers have passed over
          obtain ⟨hs, data, hne, hwf, hshort, hfree, hdescribes, hpart, hnext⟩ :=
            (readPart_eq_ok_iff hb).mp hfound
          refine ⟨⟨padding, hs, data⟩, ⟨hpadding, hne, hwf, hshort, hfree, hdescribes⟩, ?_, hnext⟩
          have hall := hstart.trans (hpass.trans hpart)
          simpa only [Section.lead, List.append_assoc] using hall
  · rintro ⟨s, hs, hpass, hnext⟩
    obtain ⟨-, hlead⟩ := hpass.split
    have hlead' : (c.advance (delimiter boundary).length).Passes (s.padding ++ Bytes.crlf ++
        (blockOf s.headers ++ (Bytes.crlf ++ Bytes.crlf) ++ (s.data ++ Bytes.crlf))) next := by
      simpa only [Section.lead, List.append_assoc] using hlead
    obtain ⟨hline, hpart⟩ := hlead'.split
    rw [if_neg, readDelimiterEnd_eq_ok_iff.mpr ⟨s.padding, hs.padding, hline⟩]
    · simp only [(readPart_eq_ok_iff hb).mpr ⟨s.headers, s.data, hs.nonempty, hs.headers, hs.short,
        hs.free, hs.describes, hpart, hnext⟩]
    · rw [List.isPrefixOf_iff_prefix, hline.rest]
      exact not_dashes_prefix hs.padding _

end

/-! ## The whole form -/

section

variable {boundary : String} {c : Cursor}

/-- There are no parts exactly if the form ends at once. -/
theorem partsFrom_eq_nil_iff : partsFrom boundary c = .ok [] ↔ turn boundary c = .ok none := by
  rw [partsFrom]
  split
  · rename_i hturn
    simp [hturn]
  · rename_i hturn
    simp [hturn]
  · rename_i hturn
    rw [hturn]
    split <;> simp

/-- There is a first part exactly if a turn finds it. -/
theorem partsFrom_eq_cons_iff {part : Part} {parts : List Part} :
    partsFrom boundary c = .ok (part :: parts) ↔
      ∃ next, turn boundary c = .ok (some (part, next)) ∧ partsFrom boundary next = .ok parts := by
  rw [partsFrom]
  split
  · rename_i hturn
    simp [hturn]
  · rename_i hturn
    simp [hturn]
  · rename_i part' next hturn
    rw [hturn]
    split
    · rename_i hnext
      simp [hnext]
    · rename_i hnext
      simp [hnext]

/-- From a delimiter on, the parts are read exactly when sections that mean them follow, and then the
closing dashes. -/
theorem partsFrom_eq_ok_iff (hb : checkBoundary boundary = .ok ())
    (hdelimiter : delimiter boundary <+: c.rest) {parts : List Part} :
    partsFrom boundary c = .ok parts ↔
      ∃ sections epilogue, List.Forall₂ (Section.Denotes boundary) sections parts ∧
        c.rest = formOf boundary sections epilogue := by
  -- each turn yields one part, and leaves the reader at a delimiter again
  induction parts generalizing c with
  | nil =>
    rw [partsFrom_eq_nil_iff, turn_eq_none_iff hdelimiter]
    constructor
    · rintro ⟨epilogue, h⟩
      exact ⟨[], epilogue, .nil, by rw [← h, List.append_assoc]; rfl⟩
    · rintro ⟨sections, epilogue, hsections, h⟩
      cases hsections
      exact ⟨epilogue, by rw [h, List.append_assoc]; rfl⟩
  | cons part parts ih =>
    rw [partsFrom_eq_cons_iff]
    constructor
    · rintro ⟨next, hturn, hnext⟩
      obtain ⟨s, hs, hpass, hnextDelimiter⟩ := (turn_eq_some_iff hb hdelimiter).mp hturn
      obtain ⟨sections, epilogue, hsections, hrest⟩ := (ih hnextDelimiter).mp hnext
      refine ⟨s :: sections, epilogue, .cons hs hsections, ?_⟩
      rw [hpass.rest, hrest, formOf_cons]
    · rintro ⟨sections, epilogue, hsections, hrest⟩
      obtain ⟨s, rest, rfl, hs, hparts⟩ : ∃ s rest, sections = s :: rest ∧
          s.Denotes boundary part ∧ List.Forall₂ (Section.Denotes boundary) rest parts := by
        cases hsections with
        | cons hs hparts => exact ⟨_, _, rfl, hs, hparts⟩
      rw [formOf_cons] at hrest
      have hpass := Cursor.passes_advance ⟨_, hrest.symm⟩
      have hnext := List.append_cancel_left (hpass.rest.symm.trans hrest)
      have hnextDelimiter := delimiter_prefix_formOf boundary rest epilogue
      rw [← hnext] at hnextDelimiter
      exact ⟨_, (turn_eq_some_iff hb hdelimiter).mpr ⟨s, hs, hpass, hnextDelimiter⟩,
        (ih hnextDelimiter).mpr ⟨rest, epilogue, hparts, hnext⟩⟩

/-- A body is read from its start, if a delimiter stands there, and else from behind the line end of
its first separator.  What stands before that is the preamble. -/
theorem opening?_eq_some_iff {body : Bytes} :
    opening? boundary body = some c ↔
      delimiter boundary <+: body ∧ c = Cursor.start body ∨
        ¬ delimiter boundary <+: body ∧ ∃ line, (Cursor.start body).Passes (line ++ Bytes.crlf) c ∧
          delimiter boundary <+: c.rest ∧ ∀ n < line.length, ¬ separator boundary <+: body.drop n := by
  rw [opening?]
  simp only [List.isPrefixOf_iff_prefix]
  by_cases hdelimiter : delimiter boundary <+: body
  · rw [if_pos hdelimiter]
    simp [hdelimiter, eq_comm]
  · rw [if_neg hdelimiter, Option.map_eq_some_iff]
    simp only [hdelimiter, false_and, not_false_eq_true, true_and, false_or]
    constructor
    · rintro ⟨n, hfound, rfl⟩
      obtain ⟨after, hafter⟩ := Bytes.eq_of_find? hfound
      have hlen := Bytes.length_take_of_find? hfound
      have hcut : body = body.take n ++ Bytes.crlf ++ (delimiter boundary ++ after) := by
        rw [separator] at hafter
        simpa only [List.append_assoc] using hafter
      have hpass : (Cursor.start body).Passes (body.take n ++ Bytes.crlf) _ :=
        Cursor.passes_advance ⟨_, hcut.symm⟩
      rw [List.length_append, hlen] at hpass
      refine ⟨body.take n, hpass, ⟨after, ?_⟩, ?_⟩
      · exact List.append_cancel_left (hcut.symm.trans hpass.rest)
      · rw [hlen]
        exact (Bytes.find?_eq_some_iff.mp hfound).2
    · rintro ⟨line, hpass, ⟨after, hafter⟩, hfirst⟩
      obtain ⟨-, rfl⟩ := Cursor.passes_iff.mp hpass
      have hbody : body = line ++ (separator boundary ++ after) := by
        have hrest : body = _ := hpass.rest
        rw [hrest, ← hafter]
        simp only [separator, List.append_assoc]
      refine ⟨line.length, Bytes.find?_eq_some_iff.mpr ⟨?_, hfirst⟩, by rw [List.length_append]⟩
      rw [hbody, List.drop_left]
      exact List.prefix_append _ _

/-- A form is read from its first delimiter on, and has at least one part. -/
theorem parse_eq_ok_iff_partsFrom {body : Bytes} {parts : List Part} :
    parse body boundary = .ok parts ↔
      checkBoundary boundary = .ok () ∧ parts ≠ [] ∧
        ∃ c, opening? boundary body = some c ∧ partsFrom boundary c = .ok parts := by
  rw [parse]
  split
  · rename_i hb
    simp [hb]
  · rename_i hb
    split
    · rename_i hopening
      simp [hopening]
    · rename_i c hopening
      split
      · rename_i hparts
        simp [hb, hopening, hparts]
      · rename_i hparts
        simp only [hb, hopening, true_and, Option.some.injEq, exists_eq_left', hparts,
          Except.ok.injEq, reduceCtorEq, false_iff, not_and]
        exact fun hne he => hne he.symm
      · rename_i parts' hne hparts
        simp only [hb, hopening, true_and, Option.some.injEq, exists_eq_left', hparts,
          Except.ok.injEq]
        exact ⟨fun he => ⟨he ▸ hne, he⟩, fun h => h.2⟩

/-- Reading succeeds exactly when there is a layout. -/
theorem parse_eq_ok_iff {body : Bytes} {parts : List Part} :
    parse body boundary = .ok parts ↔
      checkBoundary boundary = .ok () ∧ ∃ l : Layout, l.Derives boundary body parts := by
  rw [parse_eq_ok_iff_partsFrom]
  refine and_congr_right fun hb => ?_
  constructor
  · rintro ⟨hne, c, hopening, hparts⟩
    have hsections : ∀ {sections}, List.Forall₂ (Section.Denotes boundary) sections parts →
        sections ≠ [] := by
      rintro sections h rfl
      cases h
      exact hne rfl
    rcases opening?_eq_some_iff.mp hopening with ⟨hstart, rfl⟩ | ⟨hstart, line, hpass, hdelimiter, hfirst⟩
    · obtain ⟨sections, epilogue, hall, hbody⟩ := (partsFrom_eq_ok_iff hb hstart).mp hparts
      exact ⟨⟨[], sections, epilogue⟩, hbody.symm, Or.inl rfl, hsections hall, hall⟩
    · obtain ⟨sections, epilogue, hall, hrest⟩ := (partsFrom_eq_ok_iff hb hdelimiter).mp hparts
      have hbytes : Layout.bytes boundary ⟨line ++ Bytes.crlf, sections, epilogue⟩ = body := by
        have hbody : body = _ := hpass.rest
        rw [hbody, hrest]
        rfl
      refine ⟨⟨line ++ Bytes.crlf, sections, epilogue⟩, hbytes, ?_, hsections hall, hall⟩
      rw [Layout.Opens, hbytes]
      exact Or.inr ⟨line, rfl, hstart, hfirst⟩
  · rintro ⟨⟨preamble, sections, epilogue⟩, rfl, hopens, hne, hall⟩
    have hdelimiter := delimiter_prefix_formOf boundary sections epilogue
    refine ⟨?_, ?_⟩
    · rintro rfl
      cases hall
      exact hne rfl
    · rcases hopens with rfl | ⟨line, rfl, hstart, hfirst⟩
      · exact ⟨Cursor.start _, opening?_eq_some_iff.mpr (Or.inl ⟨hdelimiter, rfl⟩),
          (partsFrom_eq_ok_iff hb hdelimiter).mpr ⟨sections, epilogue, hall, rfl⟩⟩
      · have hpass : (Cursor.start (Layout.bytes boundary ⟨line ++ Bytes.crlf, sections, epilogue⟩)).Passes
            (line ++ Bytes.crlf) _ := Cursor.passes_advance (List.prefix_append _ _)
        have hrest := List.append_cancel_left hpass.rest
        simp only at hrest
        rw [hrest] at hdelimiter
        refine ⟨_, opening?_eq_some_iff.mpr (Or.inr ⟨hstart, line, hpass, hdelimiter, hfirst⟩), ?_⟩
        exact (partsFrom_eq_ok_iff hb hdelimiter).mpr ⟨sections, epilogue, hall, hrest.symm⟩

end

/-! ## There is one layout only -/

section

variable {boundary : String} {s s' : Section} {part part' : Part}

/-- A section ends where it does: two sections that begin the same body are the same one.  Its three
ends are found from the front, one after the other. -/
theorem Section.append_inj (hb : checkBoundary boundary = .ok ()) (hs : s.Denotes boundary part)
    (hs' : s'.Denotes boundary part') {after after' : Bytes}
    (h : s.bytes boundary ++ after = s'.bytes boundary ++ after') : s = s' ∧ after = after' := by
  obtain ⟨tail, htail, hnot⟩ := separator_eq hb
  have hcut : ∀ (s : Section) (after : Bytes), s.bytes boundary ++ after =
      s.padding ++ (Bytes.crlf ++ (blockOf s.headers ++ (Bytes.crlf ++ Bytes.crlf) ++
        (s.data ++ separator boundary ++ after))) := by
    intro s after
    simp only [Section.bytes, Section.lead, separator, List.append_assoc]
  rw [hcut, hcut] at h
  -- the padding ends at the first byte that is none
  have hpadding := congrArg (List.takeWhile isPadding) h
  rw [takeWhile_padding hs.padding, takeWhile_padding hs'.padding] at hpadding
  rw [hpadding, List.append_cancel_left_eq, List.append_cancel_left_eq] at h
  -- the block ends at the first blank line
  have hblank := find?_blankLine_blockOf hs.nonempty hs.headers (s.data ++ separator boundary ++ after)
  rw [h, find?_blankLine_blockOf hs'.nonempty hs'.headers, Option.some.injEq] at hblank
  rw [List.append_assoc (blockOf s.headers), List.append_assoc (blockOf s'.headers)] at h
  obtain ⟨hblock, h⟩ := List.append_inj h hblank.symm
  have hheaders := blockOf_injective hs.nonempty hs.headers hs'.nonempty hs'.headers hblock
  -- the data end at the first separator
  have hfree := hs.free
  have hfree' := hs'.free
  rw [htail] at h hfree hfree'
  obtain ⟨hdata, hafter⟩ := Bytes.append_inj_of_free hnot hfree hfree' (List.append_cancel_left h)
  cases s
  cases s'
  simp only at hpadding hheaders hdata
  subst hpadding hheaders hdata
  exact ⟨rfl, hafter⟩

/-- A section does not look like the end of a form, for no padding is a dash. -/
theorem Section.bytes_ne_dashes (hs : s.Denotes boundary part) {after epilogue : Bytes} :
    s.bytes boundary ++ after ≠ [45, 45] ++ epilogue := by
  intro h
  refine not_dashes_prefix hs.padding (blockOf s.headers ++ (Bytes.crlf ++ Bytes.crlf) ++ s.data ++
    Bytes.crlf ++ delimiter boundary ++ after) ⟨epilogue, ?_⟩
  rw [← h]
  simp only [Section.bytes, Section.lead, List.append_assoc]

/-- The sections of a form and its epilogue are determined.  The induction goes through both lists
at once. -/
theorem formOf_inj (hb : checkBoundary boundary = .ok ()) {sections sections' : List Section}
    {parts parts' : List Part} {epilogue epilogue' : Bytes}
    (hall : List.Forall₂ (Section.Denotes boundary) sections parts)
    (hall' : List.Forall₂ (Section.Denotes boundary) sections' parts')
    (h : formOf boundary sections epilogue = formOf boundary sections' epilogue') :
    sections = sections' ∧ epilogue = epilogue' := by
  have h := List.append_cancel_left h
  induction hall generalizing sections' parts' with
  | nil =>
    cases hall' with
    | nil => exact ⟨rfl, List.append_cancel_left h⟩
    | cons hs' _ =>
      rw [List.flatMap_cons, List.append_assoc] at h
      exact absurd h.symm (Section.bytes_ne_dashes hs')
  | cons hs _ ih =>
    cases hall' with
    | nil =>
      rw [List.flatMap_cons, List.append_assoc] at h
      exact absurd h (Section.bytes_ne_dashes hs)
    | cons hs' hrest' =>
      rw [List.flatMap_cons, List.flatMap_cons, List.append_assoc, List.append_assoc] at h
      obtain ⟨rfl, hrest⟩ := Section.append_inj hb hs hs' h
      obtain ⟨rfl, hepilogue⟩ := ih hrest' (congrArg _ hrest) hrest
      exact ⟨rfl, hepilogue⟩

/-- The preamble ends where the first separator begins, or it is empty. -/
theorem Layout.preamble_eq {l l' : Layout} (hopens : l.Opens boundary) (hopens' : l'.Opens boundary)
    (h : l.bytes boundary = l'.bytes boundary) : l.preamble = l'.preamble := by
  have hstart : ∀ l : Layout, l.preamble = [] → delimiter boundary <+: l.bytes boundary := by
    intro l hempty
    rw [Layout.bytes, hempty]
    exact delimiter_prefix_formOf _ _ _
  have hfound : ∀ (l : Layout) (line : Bytes), l.preamble = line ++ Bytes.crlf →
      (∀ n < line.length, ¬ separator boundary <+: (l.bytes boundary).drop n) →
      Bytes.find? (separator boundary) (l.bytes boundary) = some line.length := by
    intro l line hline hfirst
    refine Bytes.find?_eq_some_iff.mpr ⟨?_, hfirst⟩
    rw [Layout.bytes, hline, List.append_assoc, List.drop_left, separator,
      List.prefix_append_right_inj]
    exact delimiter_prefix_formOf _ _ _
  -- a body either starts with a delimiter or does not, so both layouts open in the same way
  rcases hopens with hempty | ⟨line, hline, hnot, hfirst⟩
  · rcases hopens' with hempty' | ⟨line', hline', hnot', -⟩
    · rw [hempty, hempty']
    · exact absurd (h ▸ hstart l hempty) hnot'
  · rcases hopens' with hempty' | ⟨line', hline', hnot', hfirst'⟩
    · exact absurd (h ▸ hstart l' hempty') hnot
    · have hlength := hfound l line hline hfirst
      rw [h, hfound l' line' hline' hfirst', Option.some.injEq] at hlength
      rw [Layout.bytes, Layout.bytes, hline, hline', List.append_assoc, List.append_assoc] at h
      rw [hline, hline', (List.append_inj h hlength.symm).1]

/-- A body has one layout. -/
theorem Layout.Derives.eq {l l' : Layout} {body : Bytes} {parts parts' : List Part}
    (hb : checkBoundary boundary = .ok ()) (h : l.Derives boundary body parts)
    (h' : l'.Derives boundary body parts') : l = l' := by
  have hbytes := h.bytes.trans h'.bytes.symm
  have hpreamble := Layout.preamble_eq h.opens h'.opens hbytes
  rw [Layout.bytes, Layout.bytes, hpreamble] at hbytes
  obtain ⟨hsections, hepilogue⟩ :=
    formOf_inj hb h.sections h'.sections (List.append_cancel_left hbytes)
  cases l
  cases l'
  simp only at hpreamble hsections hepilogue
  subst hpreamble hsections hepilogue
  rfl

end

/-- A form is read exactly if its boundary is a valid one and the body has a layout, and then the
parts are those that the layout means.  There is one layout at most. -/
theorem parse_iff_derives (body : Bytes) (boundary : String) :
    (∀ parts, parse body boundary = .ok parts ↔
      checkBoundary boundary = .ok () ∧ ∃ l : Layout, l.Derives boundary body parts) ∧
    (checkBoundary boundary = .ok () → ∀ l l' parts parts',
      Layout.Derives boundary l body parts → Layout.Derives boundary l' body parts' →
        l = l' ∧ parts = parts') := by
  refine ⟨fun parts => parse_eq_ok_iff, fun hb l l' parts parts' h h' => ⟨h.eq hb h', ?_⟩⟩
  have hparse := parse_eq_ok_iff.mpr ⟨hb, l, h⟩
  rw [parse_eq_ok_iff.mpr ⟨hb, l', h'⟩, Except.ok.injEq] at hparse
  exact hparse.symm

/-- A preamble with delimiters that do not start a line, repeated parameters and headers that are not
asked for, data that start with a delimiter and hold the start of another, and an empty part. -/
theorem parse_iff_derives_awkward :
    let body := Bytes.ofString "x--b\r\n-b\r\n\t--b\r\n--b \t\r\n" ++
      Bytes.ofString "CONTENT-disposition: Form-Data; NAME=a;b; name=\"x\\\";y\"\r\n" ++
      Bytes.ofString "X-Y:\r\ncontent-type:  t/x \r\n\r\n--b\r\n--c\r\n--b\r\n" ++
      Bytes.ofString "content-disposition:form-data;name=\r\n\r\n\r\n--b--tail"
    let parts : List Part :=
      [⟨"x\";y", none, some "t/x", Bytes.ofString "--b\r\n--c"⟩, ⟨"", none, none, []⟩]
    parse body "b" = .ok parts ∧ checkBoundary "b" = .ok () ∧
      ∃ l : Layout, l.Derives "b" body parts := by
  intro body parts
  have hparse : parse body "b" = .ok parts := by decide +kernel
  exact ⟨hparse, ((parse_iff_derives body "b").1 parts).mp hparse⟩

end LiveIngest.Form
