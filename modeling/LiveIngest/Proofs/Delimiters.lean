import LiveIngest.Proofs.Grammar

/-!
# Which delimiters the reader sees

A delimiter starts a line.  The reader looks for the next one only from behind the blank line of a
part; whatever starts a line before that, and the line behind the blank line itself, is not looked at.
What is then the relation between the delimiters that stand in a form and the parts that it is read as?

1. **Specification.**  `delimiterPlaces` are the offsets at which a delimiter starts the bytes or stands
   behind a line end, whatever comes after it.  `Layout.marks` are the places where the layout of a form
   has its own, one in front of each section and the closing one.  `Layout.disguised` are the lines that
   start with a delimiter and were read as something else.

2. **One line.**  A line without a separator in it adds at most one place, its start
   (`delimiterPlaces_line`).  The delimiter and its padding are such a line, each header is one, the
   blank line is one, and so are the data as a whole (`Section.free`).

3. **The form.**  By induction on the sections, all marks are places, and the other places are the
   disguised lines (`delimiterPlaces_formOf`).

`parse_delimiters` is the main result: a form is read as one part less than it has delimiters exactly
if none is disguised.  A delimiter line of its own is disguised only if the boundary has a colon.
`header_swallows_delimiter` is such a form.
-/

namespace LiveIngest

namespace Bytes

/-! ## Places of a pattern -/

/-- The offsets at which a pattern stands. -/
def places (pattern bs : Bytes) : List Nat :=
  (List.range bs.length).filter fun n => pattern.isPrefixOf (bs.drop n)

/-- Lines, a line end behind each of them. -/
def endLines (lines : List Bytes) : Bytes := lines.flatMap (· ++ crlf)

/-- A pattern stands at the start or further on, by induction on the bytes. -/
theorem places_cons (pattern : Bytes) (b : UInt8) (bs : Bytes) :
    places pattern (b :: bs) =
      (if pattern.isPrefixOf (b :: bs) then [0] else []) ++ (places pattern bs).map (· + 1) := by
  rw [places, List.length_cons, List.range_succ_eq_map, List.filter_cons, List.drop_zero,
    List.filter_map]
  split <;> rfl

/-- Bytes without the pattern have no places of it, as each place would be an occurrence. -/
theorem places_of_free {pattern bs : Bytes} (h : ¬ pattern <:+: bs) : places pattern bs = [] := by
  rw [places, List.filter_eq_nil_iff]
  intro n _ hn
  rw [List.isPrefixOf_iff_prefix] at hn
  exact h (hn.isInfix.trans (List.drop_suffix n bs).isInfix)

/-- Bytes that are free of a pattern only shift the places behind them. -/
theorem places_append_cons {c : UInt8} {tail before : Bytes} (hc : c ∉ tail)
    (hfree : ¬ c :: tail <:+: before) (after : Bytes) :
    places (c :: tail) (before ++ c :: after) =
      (places (c :: tail) (c :: after)).map (· + before.length) := by
  -- the first byte of the pattern is not repeated in it, so it cannot start in front and end behind
  induction before with
  | nil => simp
  | cons b bs ih =>
    have hhead : ¬ (c :: tail).isPrefixOf (b :: bs ++ c :: after) = true := by
      rw [List.isPrefixOf_iff_prefix]
      exact fun h => hfree (infix_of_prefix_drop_cons (m := 0) hc (Nat.succ_pos _) h)
    rw [List.infix_cons_iff, not_or] at hfree
    rw [List.cons_append] at hhead ⊢
    rw [places_cons, if_neg hhead, ih hfree.2, List.nil_append, List.map_map]
    rfl

end Bytes

namespace Form

open LiveIngest.Text

/-! ## Places of delimiters -/

/-- The offsets at which a delimiter stands, at the start or behind a line end. -/
def delimiterPlaces (boundary : String) (bs : Bytes) : List Nat :=
  (if (delimiter boundary).isPrefixOf bs then [0] else []) ++
    (Bytes.places (separator boundary) bs).map (· + Bytes.crlf.length)

/-- The header lines of a section, the blank line, and the data, which count as one line. -/
def Section.lines (s : Section) : List Bytes :=
  s.headers.map (fun h => Bytes.ofText h.line) ++ [[], s.data]

/-- The lines of a form that start with a delimiter though they are not read as one. -/
def Layout.disguised (boundary : String) (l : Layout) : List Bytes :=
  l.sections.flatMap fun s => s.lines.filter (delimiter boundary).isPrefixOf

/-- Where the delimiters of sections and the closing one stand, if the first is at `i`. -/
def marksFrom (boundary : String) : Nat → List Section → List Nat
  | i, [] => [i]
  | i, s :: rest => i :: marksFrom boundary (i + (delimiter boundary ++ s.lead).length) rest

/-- Where a layout has its delimiters. -/
def Layout.marks (boundary : String) (l : Layout) : List Nat :=
  marksFrom boundary l.preamble.length l.sections

/-- The body up to its closing delimiter, with the two dashes behind that. -/
def Layout.closed (boundary : String) (l : Layout) : Bytes :=
  l.preamble ++ formOf boundary l.sections []

section

variable {boundary : String}

/-- The epilogue is all that is left out. -/
theorem Layout.closed_append_epilogue (l : Layout) :
    l.closed boundary ++ l.epilogue = l.bytes boundary := by
  simp only [closed, bytes, formOf, List.append_assoc, List.append_nil]

/-- One delimiter for each section, and the closing one. -/
theorem length_marksFrom (sections : List Section) (i : Nat) :
    (marksFrom boundary i sections).length = sections.length + 1 := by
  induction sections generalizing i with
  | nil => rfl
  | cons s rest ih => rw [marksFrom, List.length_cons, ih, List.length_cons]

/-- The marks of a form that is moved are moved with it. -/
theorem marksFrom_add (sections : List Section) (i k : Nat) :
    marksFrom boundary (i + k) sections = (marksFrom boundary i sections).map (· + k) := by
  induction sections generalizing i with
  | nil => rfl
  | cons s rest ih => rw [marksFrom, marksFrom, List.map_cons, ← ih, Nat.add_right_comm]

/-- No delimiter has a carriage return in it, and so no line end. -/
theorem not_mem_delimiter (hb : checkBoundary boundary = .ok ()) : 13 ∉ delimiter boundary := by
  obtain ⟨tail, htail, hnot⟩ := separator_eq hb
  obtain rfl : 10 :: delimiter boundary = tail := (List.cons.inj htail).2
  exact fun h => hnot (List.mem_cons_of_mem _ h)

/-- A delimiter does not reach beyond the line that it starts. -/
theorem delimiter_prefix_line (hb : checkBoundary boundary = .ok ()) (line after : Bytes) :
    delimiter boundary <+: line ++ Bytes.crlf ++ after ↔ delimiter boundary <+: line := by
  rw [List.append_assoc]
  constructor
  · intro h
    rcases List.prefix_or_prefix_of_prefix h (List.prefix_append _ _) with hinside | ⟨rest, hrest⟩
    · exact hinside
    · cases rest with
      | nil =>
        rw [← hrest, List.append_nil]
      | cons b bs =>
        rw [← hrest, List.prefix_append_right_inj, Bytes.crlf, List.cons_append,
          List.cons_prefix_cons] at h
        have hmem : b ∈ delimiter boundary := by
          rw [← hrest]
          exact List.mem_append_right _ List.mem_cons_self
        exact absurd (h.1 ▸ hmem) (not_mem_delimiter hb)
  · exact fun h => h.trans (List.prefix_append _ _)

/-- A line end has a place of a separator behind it, if a delimiter stands there. -/
theorem places_crlf (after : Bytes) :
    Bytes.places (separator boundary) (Bytes.crlf ++ after) =
      (delimiterPlaces boundary after) := by
  have hcr : (separator boundary).isPrefixOf (13 :: 10 :: after) =
      (delimiter boundary).isPrefixOf after := rfl
  have hlf : (separator boundary).isPrefixOf (10 :: after) = false := rfl
  show Bytes.places (separator boundary) (13 :: 10 :: after) = _
  rw [Bytes.places_cons, Bytes.places_cons, hcr, hlf, delimiterPlaces]
  simp [Bytes.crlf]

/-- A line adds its start to the places, if a delimiter stands there. -/
theorem delimiterPlaces_line (hb : checkBoundary boundary = .ok ()) {line : Bytes}
    (hfree : ¬ separator boundary <:+: line) (after : Bytes) :
    delimiterPlaces boundary (line ++ Bytes.crlf ++ after) =
      (if (delimiter boundary).isPrefixOf line then [0] else []) ++
        (delimiterPlaces boundary after).map (· + (line ++ Bytes.crlf).length) := by
  obtain ⟨tail, htail, hnot⟩ := separator_eq hb
  have hbehind : Bytes.places (separator boundary) (line ++ Bytes.crlf ++ after) =
      (delimiterPlaces boundary after).map (· + line.length) := by
    rw [← places_crlf, htail, List.append_assoc]
    rw [htail] at hfree
    exact Bytes.places_append_cons hnot hfree _
  rw [delimiterPlaces, hbehind, List.map_map]
  simp only [List.isPrefixOf_iff_prefix, delimiter_prefix_line hb, List.length_append]
  rfl

/-- Lines add their starts to the places. -/
theorem delimiterPlaces_endLines (hb : checkBoundary boundary = .ok ()) {lines : List Bytes}
    (hfree : ∀ line ∈ lines, ¬ separator boundary <:+: line) (after : Bytes) :
    ((delimiterPlaces boundary after).map (· + (Bytes.endLines lines).length)).Sublist
        (delimiterPlaces boundary (Bytes.endLines lines ++ after)) ∧
      (delimiterPlaces boundary (Bytes.endLines lines ++ after)).length =
        (lines.filter (delimiter boundary).isPrefixOf).length +
          (delimiterPlaces boundary after).length := by
  induction lines with
  | nil => simp [Bytes.endLines]
  | cons line lines ih =>
    obtain ⟨hsub, hlength⟩ := ih fun l hl => hfree l (List.mem_cons_of_mem _ hl)
    have hcut : Bytes.endLines (line :: lines) ++ after =
        line ++ Bytes.crlf ++ (Bytes.endLines lines ++ after) := by
      simp only [Bytes.endLines, List.flatMap_cons, List.append_assoc]
    rw [hcut, delimiterPlaces_line hb (hfree line List.mem_cons_self)]
    constructor
    · have hshift := hsub.map (· + (line ++ Bytes.crlf).length)
      rw [List.map_map] at hshift
      refine List.Sublist.trans ?_ (List.sublist_append_right _ _)
      convert hshift using 2
      funext n
      simp only [Bytes.endLines, List.flatMap_cons, List.length_append, Function.comp_apply]
      omega
    · rw [List.length_append, List.length_map, hlength, List.filter_cons]
      split
      · simp only [List.length_cons, List.length_nil]
        omega
      · simp

/-! ## Sections -/

/-- Header lines stand with a line end between them in a form.  With one more behind, each of them
has its own. -/
theorem blockOf_append_crlf {hs : List RawHeader} (hne : hs ≠ []) :
    blockOf hs ++ Bytes.crlf = Bytes.endLines (hs.map fun h => Bytes.ofText h.line) := by
  induction hs with
  | nil => exact absurd rfl hne
  | cons h hs ih =>
    cases hs with
    | nil => simp [blockOf, Bytes.endLines, join]
    | cons h' hs =>
      have hblock : blockOf (h :: h' :: hs) =
          Bytes.ofText h.line ++ Bytes.crlf ++ blockOf (h' :: hs) := by
        rw [blockOf, List.map_cons, List.map_cons, join_cons_cons, Bytes.ofText_append,
          Bytes.ofText_append, Bytes.ofText_lineEnd]
        rfl
      rw [hblock, List.append_assoc, ih (List.cons_ne_nil _ _)]
      rfl

/-- A section is the line of its delimiter and the lines behind that. -/
theorem Section.delimiter_append_lead (s : Section) (hne : s.headers ≠ []) :
    delimiter boundary ++ s.lead =
      delimiter boundary ++ s.padding ++ Bytes.crlf ++ Bytes.endLines s.lines := by
  have hlines : Bytes.endLines s.lines =
      blockOf s.headers ++ Bytes.crlf ++ (Bytes.crlf ++ (s.data ++ Bytes.crlf)) := by
    rw [blockOf_append_crlf hne]
    simp [Bytes.endLines, lines]
  rw [hlines]
  simp only [lead, List.append_assoc]

/-- A separator starts with a carriage return. -/
theorem not_separator_infix_of_not_mem {bs : Bytes} (h : 13 ∉ bs) : ¬ separator boundary <:+: bs :=
  fun hin => h (hin.subset List.mem_cons_self)

/-- No line of a section has a separator in it. -/
theorem Section.Denotes.free_lines {s : Section} {part : Part} (h : s.Denotes boundary part) :
    ∀ line ∈ s.lines, ¬ separator boundary <:+: line := by
  intro line hline
  rw [lines, List.mem_append, List.mem_map] at hline
  rcases hline with ⟨header, hheader, rfl⟩ | hline
  · -- a separator has a line end, a header line has none
    intro hin
    have hcrlf : Bytes.crlf <:+: separator boundary := (List.prefix_append _ _).isInfix
    exact (h.headers header hheader).single (Bytes.crlf_infix_ofText (hcrlf.trans hin))
  · simp only [List.mem_cons, List.not_mem_nil, or_false] at hline
    rcases hline with rfl | rfl
    · exact not_separator_infix_of_not_mem List.not_mem_nil
    · exact h.free

/-- All marks of a form are places of delimiters, and the other places are the disguised lines. -/
theorem delimiterPlaces_formOf (hb : checkBoundary boundary = .ok ()) {sections : List Section}
    {parts : List Part} (hall : List.Forall₂ (Section.Denotes boundary) sections parts) :
    (marksFrom boundary 0 sections).Sublist
        (delimiterPlaces boundary (formOf boundary sections [])) ∧
      (delimiterPlaces boundary (formOf boundary sections [])).length = parts.length + 1 +
        (sections.flatMap fun s => s.lines.filter (delimiter boundary).isPrefixOf).length := by
  have hnot := not_mem_delimiter hb
  -- the line of a delimiter has its place at its start
  have hstart : ∀ behind, (delimiter boundary).isPrefixOf (delimiter boundary ++ behind) = true :=
    fun behind => List.isPrefixOf_iff_prefix.mpr (List.prefix_append _ _)
  induction hall with
  | nil =>
    have hclosing : formOf boundary [] [] = delimiter boundary ++ [45, 45] := rfl
    have hfree : ¬ separator boundary <:+: delimiter boundary ++ [45, 45] := by
      refine not_separator_infix_of_not_mem fun h => ?_
      rcases List.mem_append.mp h with h | h
      · exact hnot h
      · exact absurd h (by decide)
    rw [hclosing, delimiterPlaces, if_pos (hstart _), Bytes.places_of_free hfree]
    exact ⟨List.Sublist.refl _, rfl⟩
  -- the line of the delimiter, then the lines behind it, then the form that follows
  | @cons s part sections parts hs hrest ih =>
    obtain ⟨hsub, hlength⟩ := ih
    have hfree : ¬ separator boundary <:+: delimiter boundary ++ s.padding := by
      refine not_separator_infix_of_not_mem fun h => ?_
      rcases List.mem_append.mp h with h | h
      · exact hnot h
      · exact absurd (hs.padding 13 h) (by decide)
    obtain ⟨hsub', hlength'⟩ :=
      delimiterPlaces_endLines hb hs.free_lines (formOf boundary sections [])
    have hlead : delimiter boundary ++ s.lead = _ := s.delimiter_append_lead hs.nonempty
    rw [formOf_cons, hlead, List.append_assoc, delimiterPlaces_line hb hfree, if_pos (hstart _)]
    constructor
    · rw [marksFrom, marksFrom_add, hlead, List.singleton_append, List.cons_sublist_cons]
      have hshift := ((hsub.map _).trans hsub').map
        (· + (delimiter boundary ++ s.padding ++ Bytes.crlf).length)
      rw [List.map_map] at hshift
      convert hshift using 2
      funext n
      simp only [Function.comp_apply, List.length_append]
      omega
    · rw [List.length_append, List.length_map, hlength', hlength, List.flatMap_cons,
        List.length_append, List.length_cons, List.length_cons, List.length_nil]
      omega

/-- The preamble adds no places. -/
theorem Layout.delimiterPlaces_closed (hb : checkBoundary boundary = .ok ()) {l : Layout}
    (hopens : l.Opens boundary) :
    delimiterPlaces boundary (l.closed boundary) =
      (delimiterPlaces boundary (formOf boundary l.sections [])).map (· + l.preamble.length) := by
  rcases hopens with hempty | ⟨line, hline, hstart, hfirst⟩
  · simp [closed, hempty]
  · have hbytes : l.bytes boundary =
        line ++ (Bytes.crlf ++ formOf boundary l.sections l.epilogue) := by
      rw [bytes, hline, List.append_assoc]
    have hfree : ¬ separator boundary <:+: line := by
      rintro ⟨before, after, hcut⟩
      refine hfirst before.length ?_ ?_
      · rw [← hcut, List.length_append, List.length_append]
        have := four_le_length_separator boundary
        omega
      · rw [hbytes, ← hcut, List.append_assoc, List.append_assoc, List.drop_left]
        exact List.prefix_append _ _
    have hnot : ¬ (delimiter boundary).isPrefixOf line = true := by
      rw [List.isPrefixOf_iff_prefix]
      intro h
      rw [hbytes] at hstart
      exact hstart (h.trans (List.prefix_append _ _))
    rw [closed, hline, delimiterPlaces_line hb hfree, if_neg hnot, List.nil_append]

/-- A delimiter line that is read as a header has its colon in the boundary. -/
theorem RawHeader.colon_mem_boundary {h : RawHeader} {padding : Bytes}
    (hpadding : ∀ b ∈ padding, b = 32 ∨ b = 9)
    (hline : Bytes.ofText h.line = delimiter boundary ++ padding) : ':' ∈ boundary.toList := by
  have hmem : (58 : UInt8) ∈ Bytes.ofText h.line := by
    have hcolon : Bytes.ofText (':' :: h.value) = 58 :: Bytes.ofText h.value := Bytes.ofText_cons _ _
    rw [line, Bytes.ofText_append, hcolon]
    exact List.mem_append_right _ List.mem_cons_self
  rw [hline, delimiter, List.mem_append, List.mem_append, ← Bytes.ofText_toList] at hmem
  rcases hmem with (hdash | hboundary) | hpad
  · exact absurd hdash (by decide)
  · exact Bytes.mem_of_mem_ofText hboundary (by decide)
  · exact absurd (hpadding 58 hpad) (by decide)

end

/-- A form that is read has a delimiter in front of each of its parts and a closing one, and no others
up to there but those at the start of a header line or of the data of a part.  A line that is only a
delimiter and padding does not pass for a header, unless the boundary has a colon. -/
theorem parse_delimiters {body : Bytes} {boundary : String} {parts : List Part}
    (h : parse body boundary = .ok parts) :
    ∃ l : Layout, l.Derives boundary body parts ∧ body = l.closed boundary ++ l.epilogue ∧
      (l.marks boundary).length = parts.length + 1 ∧
      (l.marks boundary).Sublist (delimiterPlaces boundary (l.closed boundary)) ∧
      (delimiterPlaces boundary (l.closed boundary)).length =
        parts.length + 1 + (l.disguised boundary).length ∧
      (delimiterPlaces boundary (l.closed boundary) = l.marks boundary ↔
        l.disguised boundary = []) ∧
      (':' ∉ boundary.toList → ∀ s ∈ l.sections, ∀ header ∈ s.headers, ∀ padding,
        (∀ b ∈ padding, b = 32 ∨ b = 9) →
          Bytes.ofText header.line ≠ delimiter boundary ++ padding) := by
  obtain ⟨hb, l, hl⟩ := parse_eq_ok_iff.mp h
  obtain ⟨hsub, hlength⟩ := delimiterPlaces_formOf hb hl.sections
  have hmarks : (l.marks boundary).length = parts.length + 1 := by
    rw [Layout.marks, length_marksFrom, hl.sections.length_eq]
  have hplaces := Layout.delimiterPlaces_closed hb hl.opens
  have hsublist : (l.marks boundary).Sublist (delimiterPlaces boundary (l.closed boundary)) := by
    rw [hplaces, Layout.marks, ← Nat.zero_add l.preamble.length, marksFrom_add, Nat.zero_add]
    exact hsub.map _
  have hcount : (delimiterPlaces boundary (l.closed boundary)).length =
      parts.length + 1 + (l.disguised boundary).length := by
    rw [hplaces, List.length_map]
    exact hlength
  refine ⟨l, hl, ?_, hmarks, hsublist, hcount, ?_, ?_⟩
  · rw [Layout.closed_append_epilogue, hl.bytes]
  -- both lists are the same as soon as they have the same length
  · constructor
    · intro heq
      rw [heq, hmarks] at hcount
      exact List.length_eq_zero_iff.mp (by omega)
    · intro hnone
      rw [hnone, List.length_nil] at hcount
      exact (hsublist.eq_of_length (hmarks.trans hcount.symm)).symm
  · intro hcolon s _ header _ padding hpadding hline
    exact hcolon (RawHeader.colon_mem_boundary hpadding hline)

/-- A form with a preamble, two parts and an epilogue, each part with one line in disguise: a header, and
the start of the data. -/
theorem parse_delimiters_disguised :
    let body := Bytes.ofString "x\r\n--b \r\n" ++
      Bytes.ofString "--bogus: 1\r\nContent-Disposition: form-data; name=x\r\n\r\n1\r\n--b\r\n" ++
      Bytes.ofString "Content-Disposition: form-data; name=y\r\n\r\n--b\r\n--b--\r\n--b"
    let parts : List Part :=
      [⟨"x", none, none, Bytes.ofString "1"⟩, ⟨"y", none, none, Bytes.ofString "--b"⟩]
    parse body "b" = .ok parts ∧
      ∃ l : Layout, l.Derives "b" body parts ∧ (l.marks "b").length = 3 ∧
        (delimiterPlaces "b" (l.closed "b")).length = 3 + (l.disguised "b").length := by
  intro body parts
  have hparse : parse body "b" = .ok parts := by decide +kernel
  obtain ⟨l, hl, -, hmarks, -, hcount, -⟩ := parse_delimiters hparse
  exact ⟨hparse, l, hl, hmarks, hcount⟩

/-- With a colon in the boundary a delimiter line passes for a header.  Of the two parts that this
form has delimiters for, the first has no blank line, and it is not refused but read as one with the
second: there are three delimiters, and one part. -/
theorem header_swallows_delimiter :
    let body := Bytes.ofString "--a:b\r\nContent-Disposition: form-data; name=x\r\n--a:b\r\n" ++
      Bytes.ofString "Content-Disposition: form-data; name=y\r\n\r\ndata\r\n--a:b--"
    checkBoundary "a:b" = .ok () ∧
      parse body "a:b" = .ok [⟨"y", none, none, Bytes.ofString "data"⟩] ∧
      delimiterPlaces "a:b" body = [0, 47, 102] := by
  decide +kernel

end Form

end LiveIngest
