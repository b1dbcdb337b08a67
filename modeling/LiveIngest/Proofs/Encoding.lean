import LiveIngest.Proofs.Grammar

/-!
# Forms that were written

`encode` writes a form the plain way: one `Content-Disposition` line with quoted names, one
`Content-Type` line if there is a type, a blank line, the data.  What is left free is what may stand
around that: a preamble, an epilogue, and padding behind the delimiters.

Written forms are read back, whatever their names contain: a quoted string is one piece of its
header value (`splitFrom_quote`), it holds no line end unless the name does (`quote_free`), and it
decodes to the name.  So what is written has a layout that means the parts (`derives_encode`), and
the reader finds it.  `parse_encode` is the statement.

Most of the work is about texts.  A header value is put together from pieces and taken apart again
by three different readers, for lines, for parameters and for values, and each has to find the
pieces that were put in: `lines_join`, `splitParams_join` and `unquote_quote`.
-/

namespace LiveIngest

namespace Text

/-! ## Texts that trimming leaves alone -/

/-- A text that neither begins nor ends with a blank is left alone. -/
theorem trim_eq_self {s : List Char} (hhead : ∀ c ∈ s.head?, isBlank c = false)
    (hlast : ∀ c ∈ s.getLast?, isBlank c = false) : trim s = s := by
  have hkeep : ∀ {s : List Char}, (∀ c ∈ s.head?, isBlank c = false) → s.dropWhile isBlank = s := by
    intro s h
    cases s with
    | nil => rfl
    | cons c r => exact List.dropWhile_cons_of_neg (by rw [h c rfl]; exact Bool.false_ne_true)
  rw [trim, trimStart, hkeep hhead, trimEnd, hkeep, List.reverse_reverse]
  rwa [List.head?_reverse]

/-- A blank in front is dropped. -/
theorem trim_cons_blank {c : Char} (hc : isBlank c = true) (s : List Char) : trim (c :: s) = trim s := by
  rw [trim, trimStart, List.dropWhile_cons_of_pos hc]
  rfl

/-- Blanks in front are dropped. -/
theorem trim_blanks_append {lead : List Char} (hlead : ∀ c ∈ lead, isBlank c = true) (s : List Char) :
    trim (lead ++ s) = trim s := by
  rw [trim, trimStart, List.dropWhile_append_of_pos hlead, trim, trimStart]

/-- Blanks behind are dropped. -/
theorem trim_append_blanks {trail : List Char} (htrail : ∀ c ∈ trail, isBlank c = true)
    (s : List Char) : trim (s ++ trail) = trim s := by
  have hend : ∀ s : List Char, trimEnd (s ++ trail) = trimEnd s := by
    intro s
    rw [trimEnd, List.reverse_append, List.dropWhile_append_of_pos, trimEnd]
    exact fun c hc => htrail c (List.mem_reverse.mp hc)
  rw [trim, trimStart, List.dropWhile_append, trim, trimStart]
  split
  · rename_i hblank
    rw [List.isEmpty_iff] at hblank
    have hnone : trail.dropWhile isBlank = [] := List.dropWhile_eq_nil_iff.mpr htrail
    rw [hblank, hnone]
  · exact hend _

/-- A text is what is left of it by trimming, with blanks around that. -/
theorem exists_blanks_around (s : List Char) :
    ∃ lead trail, (∀ c ∈ lead, isBlank c = true) ∧ (∀ c ∈ trail, isBlank c = true) ∧
      s = lead ++ trim s ++ trail := by
  refine ⟨s.takeWhile isBlank, ((trimStart s).reverse.takeWhile isBlank).reverse,
    fun c hc => List.mem_takeWhile_imp hc,
    fun c hc => List.mem_takeWhile_imp (List.mem_reverse.mp hc), ?_⟩
  have hend : trimStart s = trim s ++ ((trimStart s).reverse.takeWhile isBlank).reverse := by
    rw [trim, trimEnd, ← List.reverse_append, List.takeWhile_append_dropWhile, List.reverse_reverse]
  rw [List.append_assoc, ← hend]
  exact (List.takeWhile_append_dropWhile (p := isBlank) (l := s)).symm

/-- Pieces that end without a blank make up a text that does. -/
theorem getLast?_join {glue : List Char} {ps : List (List Char)} (hne : ps ≠ [])
    (hps : ∀ p ∈ ps, ∃ c, p.getLast? = some c ∧ isBlank c = false) :
    ∃ c, (join glue ps).getLast? = some c ∧ isBlank c = false := by
  induction ps with
  | nil => exact absurd rfl hne
  | cons p rest ih =>
    cases rest with
    | nil => exact hps p List.mem_cons_self
    | cons q rest =>
      obtain ⟨c, hc, hblank⟩ := ih (List.cons_ne_nil _ _) fun p h => hps p (List.mem_cons_of_mem _ h)
      exact ⟨c, by rw [join_cons_cons, List.getLast?_append, hc, Option.some_or], hblank⟩

/-- A joined text begins with its first piece. -/
theorem head?_join {glue p : List Char} {rest : List (List Char)} (hp : p ≠ []) :
    (join glue (p :: rest)).head? = p.head? := by
  cases p with
  | nil => exact absurd rfl hp
  | cons c r => cases rest <;> rfl

/-- A quoted string ends in its quote. -/
theorem getLast?_quote (s : List Char) : (quote s).getLast? = some '"' := by
  rw [quote, ← List.cons_append, List.getLast?_concat]

/-- So there is nothing to trim around quotes, whatever they hold. -/
theorem trim_quote (s : List Char) : trim (quote s) = quote s := by
  refine trim_eq_self ?_ ?_
  · rintro c ⟨⟩
    decide
  · rw [getLast?_quote]
    rintro c ⟨⟩
    decide

/-! ## Texts without line ends -/

/-- Without a carriage return there is no line end. -/
theorem free_of_not_mem {s : List Char} (h : '\r' ∉ s) : ¬ lineEnd <:+: s :=
  fun hsub => h (hsub.subset List.mem_cons_self)

/-- Nor does a character in front make one, if it is no carriage return. -/
theorem free_cons {c : Char} {s : List Char} (hc : c ≠ '\r') (hs : ¬ lineEnd <:+: s) :
    ¬ lineEnd <:+: c :: s := by
  rw [List.infix_cons_iff]
  rintro (hp | hp)
  · exact hc (List.cons_prefix_cons.mp hp).1.symm
  · exact hs hp

/-- Two texts without line ends have none together, unless the second begins with a line feed. -/
theorem free_append {s t : List Char} (hs : ¬ lineEnd <:+: s) (ht : ¬ lineEnd <:+: t)
    (hhead : t.head? ≠ some '\n') : ¬ lineEnd <:+: s ++ t := by
  induction s with
  | nil => exact ht
  | cons c r ih =>
    rw [List.infix_cons_iff, not_or] at hs
    rw [List.cons_append, List.infix_cons_iff]
    rintro (hp | hrest)
    · obtain ⟨hc, hp⟩ := List.cons_prefix_cons.mp hp
      cases r with
      | nil =>
        obtain ⟨u, hu⟩ := hp
        have hu : '\n' :: u = t := hu
        exact hhead (by rw [← hu]; rfl)
      | cons d ds =>
        refine hs.1 ?_
        rw [List.cons_append, List.cons_prefix_cons] at hp
        rw [lineEnd, List.cons_prefix_cons, List.cons_prefix_cons]
        exact ⟨hc, hp.1, List.nil_prefix⟩
    · exact ih hs.2 hrest

/-- Escaping makes no line end: it puts in backslashes, and they only come between. -/
theorem escape_free {s : List Char} (h : ¬ lineEnd <:+: s) : ¬ lineEnd <:+: escape s := by
  induction s with
  | nil => exact h
  | cons c r ih =>
    rw [List.infix_cons_iff, not_or] at h
    have ih := ih h.2
    rw [escape]
    split
    · rename_i hspecial
      have hc : c ≠ '\r' := by rintro rfl; exact absurd hspecial (by decide)
      exact free_cons (by decide) (free_cons hc ih)
    · rw [List.infix_cons_iff]
      rintro (hp | hp)
      · obtain ⟨hc, hp⟩ := List.cons_prefix_cons.mp hp
        -- a line feed in front of an escaped text is one in front of the text
        cases r with
        | nil => exact absurd (List.eq_nil_of_prefix_nil hp) (by decide)
        | cons d ds =>
          rw [escape] at hp
          split at hp
          · exact absurd (List.cons_prefix_cons.mp hp).1 (by decide)
          · refine h.1 ?_
            rw [lineEnd, List.cons_prefix_cons, List.cons_prefix_cons]
            exact ⟨hc, (List.cons_prefix_cons.mp hp).1, List.nil_prefix⟩
      · exact ih hp

/-- A quoted string holds a line end only if the text does. -/
theorem quote_free {s : List Char} (h : ¬ lineEnd <:+: s) : ¬ lineEnd <:+: quote s :=
  free_cons (by decide) (free_append (escape_free h) (free_of_not_mem (by decide)) (by decide))

/-- Between pieces without line ends a semicolon makes none. -/
theorem join_free {ps : List (List Char)} (hps : ∀ p ∈ ps, ¬ lineEnd <:+: p) :
    ¬ lineEnd <:+: join [';'] ps := by
  induction ps with
  | nil => exact free_of_not_mem List.not_mem_nil
  | cons p rest ih =>
    have hp := hps p List.mem_cons_self
    have ih := ih fun p h => hps p (List.mem_cons_of_mem _ h)
    cases rest with
    | nil => exact hp
    | cons q rest =>
      rw [join_cons_cons, List.append_assoc, List.singleton_append]
      exact free_append hp (free_cons (by decide) ih) (by simp)

/-! ## The pieces of a parameter list -/

/-- A text that a parameter list does not cut, and behind which no quotes are open.  The second half
is needed to go on behind it. -/
def IsPiece (s : List Char) : Prop :=
  splitFrom .outside s = [s] ∧ Quoting.outside.after s = .outside

instance (s : List Char) : Decidable (IsPiece s) :=
  inferInstanceAs (Decidable (splitFrom .outside s = [s] ∧ Quoting.outside.after s = .outside))

/-- A text that is one piece is so from its second character on. -/
theorem splitFrom_tail {q : Quoting} {c : Char} {r : List Char} (h : splitFrom q (c :: r) = [c :: r]) :
    ¬ (c = ';' ∧ q = .outside) ∧ splitFrom (q.next c) r = [r] := by
  rw [splitFrom] at h
  split at h
  · cases h
  · rename_i hc
    refine ⟨hc, ?_⟩
    cases hr : splitFrom (q.next c) r with
    | nil => exact absurd hr (splitFrom_ne_nil _ _)
    | cons p ps =>
      rw [hr, extendHead, List.cons.injEq, List.cons.injEq] at h
      rw [h.1.2, h.2]

/-- A piece ends at a separator outside quotes, and reading goes on behind it as from the start. -/
theorem splitFrom_append_separator {q : Quoting} {s : List Char} (hs : splitFrom q s = [s])
    (hq : q.after s = .outside) (rest : List Char) :
    splitFrom q (s ++ ';' :: rest) = s :: splitFrom .outside rest := by
  induction s generalizing q with
  | nil =>
    have hq : q = .outside := hq
    subst hq
    rfl
  | cons c r ih =>
    obtain ⟨hc, hr⟩ := splitFrom_tail hs
    rw [List.cons_append, splitFrom, if_neg hc, ih hr hq, extendHead]

/-- Two texts that are one piece each, read one behind the other, are one together. -/
theorem splitFrom_append {q : Quoting} {s t : List Char} (hs : splitFrom q s = [s])
    (ht : splitFrom (q.after s) t = [t]) : splitFrom q (s ++ t) = [s ++ t] := by
  induction s generalizing q with
  | nil => exact ht
  | cons c r ih =>
    obtain ⟨hc, hr⟩ := splitFrom_tail hs
    rw [List.cons_append, splitFrom, if_neg hc, ih hr ht, extendHead]

/-- The state behind two texts is that behind the second, read from where the first has left off. -/
theorem after_append (q : Quoting) (s t : List Char) : q.after (s ++ t) = (q.after s).after t :=
  List.foldl_append

/-- Pieces stay pieces when they are put together. -/
theorem IsPiece.append {s t : List Char} (hs : IsPiece s) (ht : IsPiece t) : IsPiece (s ++ t) := by
  constructor
  · exact splitFrom_append hs.1 (by rw [hs.2]; exact ht.1)
  · rw [after_append, hs.2, ht.2]

/-- Pieces are read back from the parameter list they make up. -/
theorem splitParams_join {ps : List (List Char)} (hne : ps ≠ []) (hps : ∀ p ∈ ps, IsPiece p) :
    splitParams (join [';'] ps) = ps := by
  induction ps with
  | nil => exact absurd rfl hne
  | cons p rest ih =>
    obtain ⟨hp, hafter⟩ := hps p List.mem_cons_self
    cases rest with
    | nil => exact hp
    | cons q rest =>
      have ih := ih (List.cons_ne_nil _ _) fun p h => hps p (List.mem_cons_of_mem _ h)
      rw [join_cons_cons, List.append_assoc, List.singleton_append, splitParams,
        splitFrom_append_separator hp hafter]
      exact congrArg _ ih

/-- Inside quotes an escaped text is not cut, and does not end the quotes. -/
theorem splitFrom_escape (s : List Char) :
    splitFrom .inside (escape s) = [escape s] ∧ Quoting.inside.after (escape s) = .inside := by
  induction s with
  | nil => exact ⟨rfl, rfl⟩
  | cons c r ih =>
    rw [escape]
    split
    · rename_i hc
      have hnext : Quoting.inside.next '\\' = .escaped := by decide
      constructor
      · rw [splitFrom, if_neg (by decide), hnext, splitFrom, if_neg (by simp), Quoting.next, ih.1]
        rfl
      · show (Quoting.escaped.next c).after (escape r) = _
        exact ih.2
    · rename_i hc
      rw [not_or] at hc
      have hnext : Quoting.inside.next c = .inside := by
        rw [Quoting.next, if_neg hc.1, if_neg hc.2]
      constructor
      · rw [splitFrom, if_neg (by simp), hnext, ih.1]
        rfl
      · show (Quoting.inside.next c).after (escape r) = _
        rw [hnext]
        exact ih.2

/-- A quoted string is a piece, whatever semicolons it holds. -/
theorem isPiece_quote (s : List Char) : IsPiece (quote s) := by
  obtain ⟨hsplit, hafter⟩ := splitFrom_escape s
  have hnext : Quoting.outside.next '"' = .inside := by decide
  constructor
  · rw [quote, splitFrom, if_neg (by decide), hnext, splitFrom_append hsplit (by rw [hafter]; decide)]
    rfl
  · show (Quoting.outside.next '"').after (escape s ++ ['"']) = _
    rw [hnext, after_append, hafter]
    rfl

end Text

namespace Form

open LiveIngest.Text

/-! ## Writing a form -/

/-- A parameter with a quoted value. -/
def parameter (key value : List Char) : List Char := ' ' :: (key ++ '=' :: quote value)

/-- The names of a part, as parameters. -/
def Part.parameters (part : Part) : List (List Char) :=
  parameter "name".toList part.name.toList ::
    part.fileName.toList.map fun fileName => parameter "filename".toList fileName.toList

/-- The header lines of a part: its disposition, and its content type if it has one. -/
def Part.headers (part : Part) : List RawHeader :=
  ⟨"Content-Disposition".toList, ' ' :: join [';'] ("form-data".toList :: part.parameters)⟩ ::
    part.contentType.toList.map fun contentType => ⟨"Content-Type".toList, ' ' :: contentType.toList⟩

/-- A delimiter line with its padding, and the part behind it. -/
def encodePart (boundary : String) (padding : Bytes) (part : Part) : Bytes :=
  delimiter boundary ++ padding ++ Bytes.crlf ++ blockOf part.headers ++ (Bytes.crlf ++ Bytes.crlf) ++
    part.data ++ Bytes.crlf

/-- A form of parts, each with the padding that its delimiter gets. -/
def encode (boundary : String) (preamble : Option Bytes) (sent : List (Bytes × Part))
    (epilogue : Bytes) : Bytes :=
  (match preamble with
    | some text => text ++ Bytes.crlf
    | none => []) ++
  sent.flatMap (fun (padding, part) => encodePart boundary padding part) ++
  delimiter boundary ++ [45, 45] ++ epilogue

example : encode "b" (some [7]) [([32], ⟨"a\"", some "f", some "t/x", [8]⟩)] [9] =
    [7] ++ Bytes.ofString "\r\n--b \r\nContent-Disposition: form-data; name=\"a\\\"\"; filename=\"f\"\r\n" ++
      Bytes.ofString "Content-Type: t/x\r\n\r\n" ++ [8] ++ Bytes.ofString "\r\n--b--" ++ [9] := by
  decide +kernel

/-- What a part may hold to be written so: names without line ends, a content type without line ends
and without blanks around it, data without a separator, and a header block within the limit.
Quotes, backslashes and semicolons in names are fine. -/
structure Part.Writable (boundary : String) (part : Part) : Prop where
  name : ¬ lineEnd <:+: part.name.toList
  fileName : ∀ fileName ∈ part.fileName, ¬ lineEnd <:+: fileName.toList
  contentType : ∀ contentType ∈ part.contentType, ¬ lineEnd <:+: contentType.toList ∧
    (∀ c ∈ contentType.toList.head?, isBlank c = false) ∧
    ∀ c ∈ contentType.toList.getLast?, isBlank c = false
  data : ¬ separator boundary <:+: part.data
  short : (blockOf part.headers).length ≤ maxHeaderBytes

/-- Whether a part is writable can be computed. -/
theorem Part.writable_iff {boundary : String} {part : Part} :
    part.Writable boundary ↔
      lines part.name.toList = [part.name.toList] ∧
      (∀ fileName ∈ part.fileName, lines fileName.toList = [fileName.toList]) ∧
      (∀ contentType ∈ part.contentType, lines contentType.toList = [contentType.toList] ∧
        contentType.toList.head?.all (!isBlank ·) = true ∧
        contentType.toList.getLast?.all (!isBlank ·) = true) ∧
      Bytes.find? (separator boundary) part.data = none ∧
      (blockOf part.headers).length ≤ maxHeaderBytes := by
  simp only [lines_eq_singleton_iff, Bytes.find?_eq_none_iff, Option.all_eq_true, Bool.not_eq_true']
  exact ⟨fun ⟨h₁, h₂, h₃, h₄, h₅⟩ => ⟨h₁, h₂, h₃, h₄, h₅⟩,
    fun ⟨h₁, h₂, h₃, h₄, h₅⟩ => ⟨h₁, h₂, h₃, h₄, h₅⟩⟩

instance (boundary : String) (part : Part) : Decidable (part.Writable boundary) :=
  decidable_of_iff _ Part.writable_iff.symm

/-! ## What was written is a form -/

/-- A parameter is a piece if its key is one. -/
theorem isPiece_parameter {key : List Char} (hkey : IsPiece (' ' :: key)) (value : List Char) :
    IsPiece (parameter key value) :=
  hkey.append (IsPiece.append (s := ['=']) (by decide) (isPiece_quote value))

/-- What a parameter gives: its value, under its key in any case, and nothing under other keys. -/
theorem paramGives_parameter_iff {key name value w : List Char} (hkey : '=' ∉ key) :
    ParamGives name (parameter key value) w ↔ sameFolded (trim key) name = true ∧ w = value := by
  have hkey' : '=' ∉ ' ' :: key := fun h => (List.mem_cons.mp h).elim (by decide) hkey
  constructor
  · rintro ⟨k, v, heq, hk, hname, hw⟩
    have hcut : cut '=' (parameter key value) = some (' ' :: key, quote value) :=
      cut_eq_some_iff.mpr ⟨rfl, hkey'⟩
    rw [cut_eq_some_iff.mpr ⟨heq, hk⟩, Option.some.injEq, Prod.mk.injEq] at hcut
    obtain ⟨rfl, rfl⟩ := hcut
    rw [trim_cons_blank (by decide)] at hname
    rw [trim_quote, unquote_quote] at hw
    exact ⟨hname, hw⟩
  · rintro ⟨hname, rfl⟩
    refine ⟨' ' :: key, quote w, rfl, hkey', ?_, by rw [trim_quote, unquote_quote]⟩
    rw [trim_cons_blank (by decide)]
    exact hname

/-- A parameter ends in a quote. -/
theorem getLast?_parameter (key value : List Char) : (parameter key value).getLast? = some '"' := by
  rw [parameter, ← List.cons_append, List.getLast?_append, List.getLast?_cons, getLast?_quote]
  rfl

/-- A header line with one blank behind its colon. -/
theorem RawHeader.wellFormed_of {name value : List Char} (hname : '\r' ∉ name ∧ ':' ∉ name)
    (hnamed : trim name ≠ []) (hhead : ∀ c ∈ name.head?, c ≠ ' ' ∧ c ≠ '\t')
    (hvalue : ¬ lineEnd <:+: value) : RawHeader.WellFormed ⟨name, ' ' :: value⟩ where
  single := free_append (free_of_not_mem hname.1) (free_cons (by decide) (free_cons (by decide) hvalue))
    (by simp)
  unfolded := by
    cases name with
    | nil => exact absurd rfl hnamed
    | cons c r => exact hhead
  colon := hname.2
  named := hnamed

/-- What such a header gives is not changed by the blank. -/
theorem RawHeader.gives_iff {name key value w : List Char} :
    RawHeader.Gives name ⟨key, ' ' :: value⟩ w ↔
      sameFolded (trim key) name = true ∧ w = trim value := by
  rw [RawHeader.Gives, trim_cons_blank (by decide)]

namespace Part

/-- There are two kinds of parameters in a disposition. -/
theorem mem_parameters {part : Part} {p : List Char} (h : p ∈ part.parameters) :
    p = parameter "name".toList part.name.toList ∨
      ∃ fileName ∈ part.fileName, p = parameter "filename".toList fileName.toList := by
  rcases List.mem_cons.mp h with rfl | h
  · exact Or.inl rfl
  · obtain ⟨fileName, hfile, rfl⟩ := List.mem_map.mp h
    exact Or.inr ⟨fileName, Option.mem_toList.mp hfile, rfl⟩

/-- A disposition is made of pieces, so it is cut where it was put together. -/
theorem isPiece_parameters (part : Part) : ∀ p ∈ "form-data".toList :: part.parameters, IsPiece p := by
  have hkind : IsPiece "form-data".toList := by decide
  have hname : IsPiece (' ' :: "name".toList) := by decide
  have hfile : IsPiece (' ' :: "filename".toList) := by decide
  intro p hp
  rcases List.mem_cons.mp hp with rfl | hp
  · exact hkind
  · rcases mem_parameters hp with rfl | ⟨fileName, -, rfl⟩
    · exact isPiece_parameter hname _
    · exact isPiece_parameter hfile _

/-- A disposition is not changed by trimming: it begins with a letter and ends in a letter or a
quote. -/
theorem trim_parameters (part : Part) :
    trim (join [';'] ("form-data".toList :: part.parameters)) =
      join [';'] ("form-data".toList :: part.parameters) := by
  have hkind : "form-data".toList ≠ [] ∧ "form-data".toList.head? = some 'f' ∧
      "form-data".toList.getLast? = some 'a' := by decide
  have hends : ∀ p ∈ "form-data".toList :: part.parameters, ∃ c, p.getLast? = some c ∧
      isBlank c = false := by
    intro p hp
    rcases List.mem_cons.mp hp with rfl | hp
    · exact ⟨'a', hkind.2.2, by decide⟩
    · refine ⟨'"', ?_, by decide⟩
      rcases mem_parameters hp with rfl | ⟨fileName, -, rfl⟩ <;> exact getLast?_parameter _ _
  obtain ⟨d, hd, hblank⟩ : ∃ c, (join [';'] ("form-data".toList :: part.parameters)).getLast? = some c ∧
      isBlank c = false := getLast?_join (List.cons_ne_nil _ _) hends
  refine trim_eq_self ?_ ?_
  · rw [head?_join hkind.1, hkind.2.1]
    rintro c ⟨⟩
    decide
  · rw [hd]
    rintro c ⟨⟩
    exact hblank

variable {boundary : String} {part : Part} (h : part.Writable boundary)
include h

/-- The header lines of a part are header lines.  The only way for a line end to get in would be a
name or a type that has one. -/
theorem Writable.wellFormed_headers : ∀ raw ∈ part.headers, raw.WellFormed := by
  have hkind : '\r' ∉ "form-data".toList := by decide
  have hkeys : ∀ key ∈ ["name".toList, "filename".toList], '\r' ∉ key := by decide
  have hnames : ∀ name ∈ ["Content-Disposition".toList, "Content-Type".toList],
      ('\r' ∉ name ∧ ':' ∉ name) ∧ trim name ≠ [] ∧ isFolded name = false := by decide
  have hparameter : ∀ {key value : List Char}, '\r' ∉ key → ¬ lineEnd <:+: value →
      ¬ lineEnd <:+: parameter key value := fun hkey hvalue =>
    free_cons (by decide) (free_append (free_of_not_mem hkey) (free_cons (by decide) (quote_free hvalue))
      (by simp))
  intro raw hraw
  rcases List.mem_cons.mp hraw with rfl | hraw
  · obtain ⟨hname, hnamed, hhead⟩ := hnames _ List.mem_cons_self
    refine RawHeader.wellFormed_of hname hnamed (isFolded_eq_false_iff.mp hhead) (join_free fun p hp => ?_)
    rcases List.mem_cons.mp hp with rfl | hp
    · exact free_of_not_mem hkind
    · rcases mem_parameters hp with rfl | ⟨fileName, hfile, rfl⟩
      · exact hparameter (hkeys _ (by simp)) h.name
      · exact hparameter (hkeys _ (by simp)) (h.fileName fileName hfile)
  · obtain ⟨contentType, htype, rfl⟩ := List.mem_map.mp hraw
    obtain ⟨hname, hnamed, hhead⟩ := hnames "Content-Type".toList (by simp)
    exact RawHeader.wellFormed_of hname hnamed (isFolded_eq_false_iff.mp hhead)
      (h.contentType contentType (Option.mem_toList.mp htype)).1

/-- The header lines of a part describe it.  Each of the four things that are read is given once,
and nothing else gives it. -/
theorem Writable.describes_headers : Describes part.headers part.data part := by
  have hkeys : '=' ∉ "name".toList ∧ '=' ∉ "filename".toList := by decide
  have hsame : sameFolded (trim "name".toList) "name".toList = true ∧
      sameFolded (trim "filename".toList) "filename".toList = true := by decide
  have hother : sameFolded (trim "filename".toList) "name".toList = false ∧
      sameFolded (trim "name".toList) "filename".toList = false := by decide
  have hnames : sameFolded (trim "Content-Disposition".toList) "content-disposition".toList = true ∧
      sameFolded (trim "Content-Type".toList) "content-type".toList = true := by decide
  have hnames' : sameFolded (trim "Content-Type".toList) "content-disposition".toList = false ∧
      sameFolded (trim "Content-Disposition".toList) "content-type".toList = false := by decide
  refine ⟨⟨join [';'] ("form-data".toList :: part.parameters), "form-data".toList, part.parameters,
    ?_, splitParams_join (List.cons_ne_nil _ _) (isPiece_parameters part), by decide, ?_, ?_⟩, ?_, rfl⟩
  -- the disposition: no other line has its name
  · refine ⟨[], _, _, rfl, RawHeader.gives_iff.mpr ⟨hnames.1, (trim_parameters part).symm⟩, ?_⟩
    intro other hmem w hgives
    obtain ⟨contentType, -, rfl⟩ := List.mem_map.mp hmem
    rw [RawHeader.gives_iff, hnames'.1] at hgives
    exact absurd hgives.1 Bool.false_ne_true
  -- the name, which only its own parameter gives
  · refine ⟨[], _, _, rfl, (paramGives_parameter_iff hkeys.1).mpr ⟨hsame.1, rfl⟩, ?_⟩
    intro other hmem w hgives
    obtain ⟨fileName, -, rfl⟩ := List.mem_map.mp hmem
    rw [paramGives_parameter_iff hkeys.2, hother.1] at hgives
    exact absurd hgives.1 Bool.false_ne_true
  -- the file name, if there is one
  · rw [parameters]
    cases part.fileName with
    | none =>
      intro other hmem w hgives
      rw [List.mem_singleton.mp hmem, paramGives_parameter_iff hkeys.1, hother.2] at hgives
      exact absurd hgives.1 Bool.false_ne_true
    | some fileName =>
      exact ⟨[parameter "name".toList part.name.toList], _, [], rfl,
        (paramGives_parameter_iff hkeys.2).mpr ⟨hsame.2, rfl⟩, by simp⟩
  -- the content type, if there is one
  · rw [headers]
    cases htype : part.contentType with
    | none =>
      intro other hmem w hgives
      rw [List.mem_singleton.mp hmem, RawHeader.gives_iff, hnames'.2] at hgives
      exact absurd hgives.1 Bool.false_ne_true
    | some contentType =>
      obtain ⟨-, hhead, hlast⟩ := h.contentType contentType htype
      refine ⟨[_], _, [], rfl, RawHeader.gives_iff.mpr ⟨hnames.2, ?_⟩, by simp⟩
      exact (trim_eq_self hhead hlast).symm

/-- A part that is written so means itself. -/
theorem Writable.denotes {padding : Bytes} (hpadding : ∀ b ∈ padding, b = 32 ∨ b = 9) :
    Section.Denotes boundary ⟨padding, part.headers, part.data⟩ part where
  padding := hpadding
  nonempty := List.cons_ne_nil _ _
  headers := h.wellFormed_headers
  short := h.short
  free := h.data
  describes := h.describes_headers

end Part

/-- The section that a part is written as. -/
def Part.asSection (padding : Bytes) (part : Part) : Section := ⟨padding, part.headers, part.data⟩

/-- What stands in front of the first delimiter. -/
def opening (preamble : Option Bytes) : Bytes :=
  match preamble with
  | some text => text ++ Bytes.crlf
  | none => []

section

variable {boundary : String} {preamble : Option Bytes} {sent : List (Bytes × Part)} {epilogue : Bytes}

/-- Writing makes a layout, with a preamble that the line end behind it belongs to. -/
theorem encode_eq :
    encode boundary preamble sent epilogue =
      opening preamble ++ formOf boundary (sent.map fun (padding, part) => part.asSection padding) epilogue := by
  have hsections : ∀ sent : List (Bytes × Part),
      sent.flatMap (fun (padding, part) => encodePart boundary padding part) ++ delimiter boundary ++
        [45, 45] ++ epilogue =
      formOf boundary (sent.map fun (padding, part) => part.asSection padding) epilogue := by
    intro sent
    induction sent with
    | nil => simp only [formOf, List.flatMap_nil, List.map_nil, List.nil_append, List.append_assoc]
    | cons s rest ih =>
      rw [List.map_cons, formOf_cons, ← ih]
      simp only [List.flatMap_cons, encodePart, Section.lead, Part.asSection, List.append_assoc]
  rw [← hsections]
  simp only [encode, opening, List.append_assoc]

variable (hb : checkBoundary boundary = .ok ()) (hne : sent ≠ [])
  (hpadding : ∀ s ∈ sent, ∀ b ∈ s.1, b = 32 ∨ b = 9) (hparts : ∀ s ∈ sent, s.2.Writable boundary)
  (hpreamble : ∀ text ∈ preamble, ¬ separator boundary <:+: text ∧
    ¬ delimiter boundary <+: encode boundary preamble sent epilogue)
include hb hne hpadding hparts hpreamble

/-- What was written has a layout that means the parts.  The data end where they should because they
hold no separator, and the preamble does because it holds none either. -/
theorem derives_encode :
    Layout.Derives boundary
      ⟨opening preamble, sent.map fun (padding, part) => part.asSection padding, epilogue⟩
      (encode boundary preamble sent epilogue) (sent.map Prod.snd) := by
  have hbytes : Layout.bytes boundary
      ⟨opening preamble, sent.map fun (padding, part) => part.asSection padding, epilogue⟩ =
      encode boundary preamble sent epilogue := encode_eq.symm
  refine ⟨hbytes, ?_, fun h => hne (List.map_eq_nil_iff.mp h), ?_⟩
  · rw [Layout.Opens, hbytes]
    cases preamble with
    | none => exact Or.inl rfl
    | some text =>
      obtain ⟨hfree, hstart⟩ := hpreamble text rfl
      refine Or.inr ⟨text, rfl, hstart, ?_⟩
      -- the line end behind the preamble and the first delimiter are a separator
      obtain ⟨tail, htail, hnot⟩ := separator_eq hb
      have hcut : encode boundary (some text) sent epilogue = text ++ separator boundary ++
          ((sent.map fun (padding, part) => part.asSection padding).flatMap (Section.bytes boundary) ++
            ([45, 45] ++ epilogue)) := by
        rw [encode_eq]
        simp only [opening, formOf, separator, List.append_assoc]
      rw [htail] at hfree hcut ⊢
      rw [hcut]
      exact (Bytes.find?_eq_some_iff.mp ((Bytes.find?_append_iff hnot).mpr hfree)).2
  · rw [List.forall₂_map_left_iff, List.forall₂_map_right_iff, List.forall₂_same]
    exact fun s hs => (hparts s hs).denotes (hpadding s hs)

/-- Reading undoes writing, whatever stands around the parts. -/
theorem parse_encode :
    parse (encode boundary preamble sent epilogue) boundary = .ok (sent.map Prod.snd) :=
  parse_eq_ok_iff.mpr ⟨hb, _, derives_encode hb hne hpadding hparts hpreamble⟩

end

/-- Names made of what the format is made of, data and a preamble that nearly hold a delimiter, and a
boundary that looks like the end of one. -/
theorem parse_encode_awkward :
    let boundary := " a=b:?--"
    let preamble := some (Bytes.ofString "--\r\n-- a=b:?-\r")
    let sent : List (Bytes × Part) :=
      [([32, 9], ⟨"a;b=\"\\\n\ré", some "\"", some "", Bytes.ofString "-- a=b:?--\r\n-- a=b:?-\r"⟩),
        ([], ⟨"", none, some "t/x; charset=\"", []⟩)]
    let epilogue := Bytes.ofString "\r\n-- a=b:?--"
    checkBoundary boundary = .ok () ∧ sent ≠ [] ∧ (∀ s ∈ sent, ∀ b ∈ s.1, b = 32 ∨ b = 9) ∧
      (∀ s ∈ sent, s.2.Writable boundary) ∧
      (∀ text ∈ preamble, ¬ separator boundary <:+: text ∧
        ¬ delimiter boundary <+: encode boundary preamble sent epilogue) ∧
      parse (encode boundary preamble sent epilogue) boundary = .ok (sent.map Prod.snd) := by
  intro boundary preamble sent epilogue
  have hb : checkBoundary boundary = .ok () := by decide +kernel
  have hne : sent ≠ [] := List.cons_ne_nil _ _
  have hpadding : ∀ s ∈ sent, ∀ b ∈ s.1, b = 32 ∨ b = 9 := by simp [sent]
  have hparts : ∀ s ∈ sent, s.2.Writable boundary := by decide +kernel
  have hpreamble : ∀ text ∈ preamble, ¬ separator boundary <:+: text ∧
      ¬ delimiter boundary <+: encode boundary preamble sent epilogue := by
    intro text htext
    have htext : Bytes.ofString "--\r\n-- a=b:?-\r" = text := Option.some.inj htext
    subst htext
    exact ⟨Bytes.find?_eq_none_iff.mp (by decide +kernel), by decide +kernel⟩
  exact ⟨hb, hne, hpadding, hparts, hpreamble,
    parse_encode hb hne hpadding hparts hpreamble⟩

end Form

end LiveIngest
