import Mathlib
import LiveIngest.Form.Part
import LiveIngest.Proofs.Occurrences

/-!
# What a header block says

A header block is lines of the form `name:value` with line ends between them.  `RawHeader` is such a
line before anything is trimmed, and `RawHeader.WellFormed` says when a line is one: it is not
folded, its name has no colon and is not blank.  A block is read exactly when it is written that way,
and it is so in one way only (`ofBlock_eq_ok_iff`, `blockOf_injective`).

Of repeated headers and of repeated parameters the last one counts.  `LastOf` says this of any list
and any way to take a value from an item, and `Describes` puts it together: when raw headers describe
a part.  `ofHeaders_eq_ok_iff` is the reader's side of it.

Each reader has a lemma of the same shape, `..._eq_ok_iff`: it succeeds with a result exactly when
the bytes are written in a certain way from which the result can be told.  Reading is then never
unfolded again.
-/

namespace LiveIngest

namespace Text

/-! ## Cutting at the first separator -/

/-- Cutting at the first separator: what comes before has none in it. -/
theorem cut_eq_some_iff {sep : Char} {s before after : List Char} :
    cut sep s = some (before, after) ↔ s = before ++ sep :: after ∧ sep ∉ before := by
  induction s generalizing before with
  | nil => simp [cut]
  | cons c r ih =>
    rw [cut]
    by_cases hc : c = sep
    · subst hc
      rw [if_pos rfl, Option.some.injEq, Prod.mk.injEq]
      constructor
      · rintro ⟨rfl, rfl⟩
        exact ⟨rfl, List.not_mem_nil⟩
      · rintro ⟨h, hmem⟩
        cases before with
        | nil => exact ⟨rfl, (List.cons.inj h).2⟩
        | cons b bs => exact absurd ((List.cons.inj h).1 ▸ List.mem_cons_self) hmem
    · rw [if_neg hc, Option.map_eq_some_iff]
      constructor
      · rintro ⟨⟨a, b⟩, hab, heq⟩
        obtain ⟨rfl, rfl⟩ := Prod.mk.inj heq
        obtain ⟨rfl, hmem⟩ := ih.mp hab
        exact ⟨rfl, fun h => (List.mem_cons.mp h).elim (fun he => hc he.symm) hmem⟩
      · rintro ⟨h, hmem⟩
        cases before with
        | nil => exact absurd (List.cons.inj h).1 hc
        | cons b bs =>
          obtain ⟨rfl, rfl⟩ := List.cons.inj h
          exact ⟨(bs, after), ih.mpr ⟨rfl, fun h => hmem (List.mem_cons_of_mem _ h)⟩, rfl⟩

/-! ## Lines -/

/-- A character that does not open a line end belongs to the first line. -/
theorem lines_cons {c : Char} {r : List Char} (h : ¬ lineEnd <+: c :: r) :
    lines (c :: r) = extendHead c (lines r) := by
  refine lines.eq_3 c r fun t hc hr => h ?_
  subst hc hr
  exact ⟨t, rfl⟩

/-- Text without a line end is one line. -/
theorem lines_of_free {l : List Char} (h : ¬ lineEnd <:+: l) : lines l = [l] := by
  induction l with
  | nil => rfl
  | cons c r ih =>
    rw [List.infix_cons_iff, not_or] at h
    rw [lines_cons h.1, ih h.2, extendHead]

/-- The first line ends at the first line end.  A carriage return at the end of the line does not
join with the line end behind it to an earlier one. -/
theorem lines_append {l : List Char} (h : ¬ lineEnd <:+: l) (rest : List Char) :
    lines (l ++ lineEnd ++ rest) = l :: lines rest := by
  induction l with
  | nil => rfl
  | cons c r ih =>
    rw [List.infix_cons_iff, not_or] at h
    -- the line end would begin in the line, and so be in it as a whole
    have hhead : ¬ lineEnd <+: c :: (r ++ lineEnd ++ rest) := by
      intro hp
      cases r with
      | nil => exact absurd (List.cons_prefix_cons.mp (List.cons_prefix_cons.mp hp).2).1 (by decide)
      | cons d ds =>
        refine h.1 ?_
        rw [List.append_assoc, List.cons_append, lineEnd, List.cons_prefix_cons,
          List.cons_prefix_cons] at hp
        rw [lineEnd, List.cons_prefix_cons, List.cons_prefix_cons]
        exact ⟨hp.1, hp.2.1, List.nil_prefix⟩
    rw [List.cons_append, List.cons_append, lines_cons hhead, ih h.2, extendHead]

/-- Lines are read back from the text they make up, if none of them has a line end in it. -/
theorem lines_join {ls : List (List Char)} (hne : ls ≠ []) (hls : ∀ l ∈ ls, ¬ lineEnd <:+: l) :
    lines (join lineEnd ls) = ls := by
  induction ls with
  | nil => exact absurd rfl hne
  | cons l rest ih =>
    have hl := hls l List.mem_cons_self
    cases rest with
    | nil => exact lines_of_free hl
    | cons l' rest' =>
      rw [join_cons_cons, lines_append hl, ih (List.cons_ne_nil _ _) fun l h =>
        hls l (List.mem_cons_of_mem _ h)]

/-- No line has a line end in it.  The induction is the recursion of `lines`. -/
theorem free_of_mem_lines {s l : List Char} (h : l ∈ lines s) : ¬ lineEnd <:+: l := by
  fun_induction lines s generalizing l with
  | case1 =>
    rw [List.mem_singleton.mp h]
    exact fun hl => absurd (List.eq_nil_of_infix_nil hl) (by decide)
  | case2 r ih =>
    rcases List.mem_cons.mp h with rfl | h
    · exact fun hl => absurd (List.eq_nil_of_infix_nil hl) (by decide)
    · exact ih h
  | case3 c r hc ih =>
    cases hr : lines r with
    | nil => exact absurd hr (lines_ne_nil r)
    | cons p ps =>
      rw [hr, extendHead] at h
      rw [hr] at ih
      rcases List.mem_cons.mp h with rfl | h
      · rw [List.infix_cons_iff]
        rintro (hp | hp)
        · -- the line feed would be the first character behind `c`
          obtain ⟨rfl, t, ht⟩ := List.cons_prefix_cons.mp hp
          have hjoin := join_lines r
          rw [hr, ← ht] at hjoin
          cases ps with
          | nil => exact hc t rfl hjoin.symm
          | cons q qs => exact hc _ rfl hjoin.symm
        · exact ih List.mem_cons_self hp
      · exact ih (List.mem_cons_of_mem _ h)

/-- Text is one line exactly if it has no line end. -/
theorem lines_eq_singleton_iff {s : List Char} : lines s = [s] ↔ ¬ lineEnd <:+: s :=
  ⟨fun h => free_of_mem_lines (by rw [h]; exact List.mem_singleton_self s), lines_of_free⟩

/-! ## Folding twice -/

/-- Folding a second time changes nothing. -/
theorem lower_lower (a : List Char) : lower (lower a) = lower a := by
  rw [lower, lower, List.map_map]
  exact List.map_congr_left fun c _ => c.toLower_toLower_eq_toLower

/-- Names may be folded before they are compared. -/
theorem sameFolded_lower (a b : List Char) : sameFolded (lower a) b = sameFolded a b := by
  rw [sameFolded, lower_lower, sameFolded]

/-! ## The last one counts -/

/-- What the last item gives that gives anything; nothing, if no item does.  Items behind it may be
there, as long as they give nothing. -/
def LastOf {α β : Type} (Gives : α → β → Prop) (items : List α) : Option β → Prop
  | some v => ∃ before item after, items = before ++ item :: after ∧ Gives item v ∧
      ∀ other ∈ after, ∀ w, ¬ Gives other w
  | none => ∀ item ∈ items, ∀ w, ¬ Gives item w

/-- A search from behind finds what the last one gives. -/
theorem lastOf_iff {α β : Type} {read : α → Option β} {Gives : α → β → Prop}
    (hread : ∀ item v, read item = some v ↔ Gives item v) {items : List α} {v? : Option β} :
    items.reverse.findSome? read = v? ↔ LastOf Gives items v? := by
  have hnone : ∀ item, read item = none ↔ ∀ w, ¬ Gives item w := by
    intro item
    rw [Option.eq_none_iff_forall_ne_some]
    exact forall_congr' fun w => not_congr (hread item w)
  cases v? with
  | none =>
    rw [List.findSome?_eq_none_iff]
    simp only [List.mem_reverse, hnone, LastOf]
  | some v =>
    rw [List.findSome?_eq_some_iff]
    simp only [hread, hnone, LastOf]
    constructor
    · rintro ⟨after, item, before, hitems, hgives, hafter⟩
      refine ⟨before.reverse, item, after.reverse, ?_, hgives, fun other h => ?_⟩
      · rw [← List.reverse_reverse items, hitems]
        simp
      · exact hafter other (List.mem_reverse.mp h)
    · rintro ⟨before, item, after, rfl, hgives, hafter⟩
      refine ⟨after.reverse, item, before.reverse, by simp, hgives, fun other h => ?_⟩
      exact hafter other (List.mem_reverse.mp h)

/-- Finding an item and then taking its value is one search. -/
theorem map_find?_eq_findSome? {α β : Type} (p : α → Bool) (f : α → β) (l : List α) :
    (l.find? p).map f = l.findSome? fun a => if p a = true then some (f a) else none := by
  induction l with
  | nil => rfl
  | cons a r ih =>
    rw [List.find?_cons, List.findSome?_cons]
    cases p a with
    | true => rfl
    | false => exact ih

end Text

namespace Bytes

/-! ## Bytes that are text -/

/-- Bytes read as text are the UTF-8 form of that text.  Decoding and encoding are inverse to each
other where decoding succeeds. -/
theorem text?_eq_some_iff {bs : Bytes} {s : List Char} : text? bs = some s ↔ bs = ofText s := by
  constructor
  · intro h
    rw [text?, Option.map_eq_some_iff] at h
    obtain ⟨chars, hchars, rfl⟩ := h
    have hsome : (ByteArray.mk bs.toArray).utf8Decode?.isSome = true := by rw [hchars]; rfl
    have hget : (ByteArray.mk bs.toArray).utf8Decode?.get hsome = chars := by
      rw [Option.get_of_eq_some hsome hchars]
    rw [ofText_eq_utf8Encode, ← hget, ByteArray.utf8Encode_get_utf8Decode?]
  · rintro rfl
    exact text?_ofText s

/-- Different texts have different bytes. -/
theorem ofText_injective {s t : List Char} (h : ofText s = ofText t) : s = t := by
  have hs := text?_ofText s
  rw [h, text?_ofText, Option.some.injEq] at hs
  exact hs.symm

end Bytes

namespace Form

open LiveIngest.Text

/-! ## Header lines -/

/-- A header line as it was sent: what stands before its first colon and what stands behind it. -/
structure RawHeader where
  name : List Char
  value : List Char
deriving DecidableEq, Repr

/-- The line. -/
def RawHeader.line (h : RawHeader) : List Char := h.name ++ ':' :: h.value

/-- What is kept of the line: the name in lower case, and the value, both trimmed. -/
def RawHeader.header (h : RawHeader) : Header := ⟨lower (trim h.name), trim h.value⟩

/-- The line is one line and not a folded one, and the name ends at its first colon and is not
blank. -/
structure RawHeader.WellFormed (h : RawHeader) : Prop where
  single : ¬ lineEnd <:+: h.line
  unfolded : ∀ c ∈ h.line.head?, c ≠ ' ' ∧ c ≠ '\t'
  colon : ':' ∉ h.name
  named : trim h.name ≠ []

/-- The bytes of a block of header lines. -/
def blockOf (hs : List RawHeader) : Bytes := Bytes.ofText (join lineEnd (hs.map RawHeader.line))

/-- A line that begins with a blank or a tab would go on with the line before. -/
theorem isFolded_eq_false_iff {line : List Char} :
    isFolded line = false ↔ ∀ c ∈ line.head?, c ≠ ' ' ∧ c ≠ '\t' := by
  fun_cases isFolded line with
  | case1 => simp
  | case2 => simp
  | case3 line hspace htab =>
    cases line with
    | nil => simp
    | cons c r =>
      simp only [List.head?_cons, Option.mem_some_iff, forall_eq', true_iff]
      exact ⟨fun h => hspace r (h ▸ rfl), fun h => htab r (h ▸ rfl)⟩

/-- A line is read exactly when it is a header line, and gives what is kept of it. -/
theorem Header.ofLine_eq_ok_iff {line : List Char} {header : Header} (hline : ¬ lineEnd <:+: line) :
    Header.ofLine line = .ok header ↔
      ∃ h : RawHeader, h.WellFormed ∧ h.line = line ∧ h.header = header := by
  rw [Header.ofLine]
  constructor
  · intro h
    split at h
    · cases h
    · rename_i hfold
      split at h
      · cases h
      · rename_i name value hcut
        obtain ⟨rfl, hcolon⟩ := cut_eq_some_iff.mp hcut
        split at h
        · cases h
        · rename_i hname
          refine ⟨⟨name, value⟩, ⟨hline, ?_, hcolon, hname⟩, rfl, Except.ok.inj h⟩
          exact isFolded_eq_false_iff.mp (Bool.eq_false_iff.mpr hfold)
  · rintro ⟨h, hwf, rfl, rfl⟩
    have hfold : ¬ isFolded h.line = true := by
      rw [isFolded_eq_false_iff.mpr hwf.unfolded]
      exact Bool.false_ne_true
    have hcut : cut ':' h.line = some (h.name, h.value) := cut_eq_some_iff.mpr ⟨rfl, hwf.colon⟩
    rw [if_neg hfold, hcut]
    exact if_neg hwf.named

/-- Lines are read exactly when each of them is a header line.  The first that is not one is the
error. -/
theorem Header.ofLines_eq_ok_iff {ls : List (List Char)} {headers : List Header}
    (hls : ∀ l ∈ ls, ¬ lineEnd <:+: l) :
    Header.ofLines ls = .ok headers ↔
      ∃ hs : List RawHeader, (∀ h ∈ hs, h.WellFormed) ∧ hs.map RawHeader.line = ls ∧
        hs.map RawHeader.header = headers := by
  induction ls generalizing headers with
  | nil =>
    rw [Header.ofLines, Except.ok.injEq]
    constructor
    · rintro rfl
      exact ⟨[], by simp, rfl, rfl⟩
    · rintro ⟨hs, -, hnil, rfl⟩
      rw [List.map_eq_nil_iff.mp hnil, List.map_nil]
  | cons line rest ih =>
    have hline := hls line List.mem_cons_self
    replace ih := fun headers => @ih headers fun l hl => hls l (List.mem_cons_of_mem _ hl)
    rw [Header.ofLines]
    constructor
    · intro h
      split at h
      · cases h
      · rename_i header hheader
        split at h
        · cases h
        · rename_i headers' hheaders
          obtain ⟨raw, hwf, rfl, rfl⟩ := (Header.ofLine_eq_ok_iff hline).mp hheader
          obtain ⟨hs, hwfs, rfl, rfl⟩ := (ih _).mp hheaders
          refine ⟨raw :: hs, ?_, rfl, Except.ok.inj h⟩
          exact fun h hh => (List.mem_cons.mp hh).elim (fun he => he ▸ hwf) (hwfs h)
    · rintro ⟨hs, hwfs, hmap, rfl⟩
      obtain ⟨raw, hs, rfl, hraw, hrest⟩ := List.map_eq_cons_iff.mp hmap
      rw [(Header.ofLine_eq_ok_iff hline).mpr ⟨raw, hwfs raw List.mem_cons_self, hraw, rfl⟩,
        (ih _).mpr ⟨hs, fun h hh => hwfs h (List.mem_cons_of_mem _ hh), hrest, rfl⟩]
      rfl

/-! ## Blocks -/

/-- A header line has at least its colon. -/
theorem RawHeader.line_ne_nil (h : RawHeader) : h.line ≠ [] := by
  simp [RawHeader.line]

/-- A line has one name and one value: the name ends at the first colon. -/
theorem RawHeader.line_injective {h h' : RawHeader} (hc : ':' ∉ h.name) (hc' : ':' ∉ h'.name)
    (heq : h.line = h'.line) : h = h' := by
  have hcut : cut ':' h.line = some (h.name, h.value) := cut_eq_some_iff.mpr ⟨rfl, hc⟩
  have hcut' : cut ':' h'.line = some (h'.name, h'.value) := cut_eq_some_iff.mpr ⟨rfl, hc'⟩
  rw [heq, hcut', Option.some.injEq, Prod.mk.injEq] at hcut
  cases h
  cases h'
  obtain ⟨rfl, rfl⟩ := hcut
  rfl

/-- So lines have one list of names and values. -/
theorem RawHeader.map_line_injective {hs hs' : List RawHeader} (hc : ∀ h ∈ hs, ':' ∉ h.name)
    (hc' : ∀ h ∈ hs', ':' ∉ h.name) (heq : hs.map RawHeader.line = hs'.map RawHeader.line) :
    hs = hs' := by
  induction hs generalizing hs' with
  | nil => exact (List.map_eq_nil_iff.mp heq.symm).symm
  | cons h rest ih =>
    obtain ⟨h', rest', rfl, hline, hrest⟩ := List.map_eq_cons_iff.mp heq.symm
    rw [RawHeader.line_injective (hc h List.mem_cons_self) (hc' h' List.mem_cons_self) hline.symm,
      ih (fun h hh => hc h (List.mem_cons_of_mem _ hh))
        (fun h hh => hc' h (List.mem_cons_of_mem _ hh)) hrest.symm]

section

variable {hs : List RawHeader} (hne : hs ≠ []) (hwf : ∀ h ∈ hs, h.WellFormed)
include hne hwf

/-- A block is cut into the lines that it was put together from. -/
theorem lines_blockOf : lines (join lineEnd (hs.map RawHeader.line)) = hs.map RawHeader.line := by
  refine lines_join (fun h => hne (List.map_eq_nil_iff.mp h)) fun l hl => ?_
  obtain ⟨h, hh, rfl⟩ := List.mem_map.mp hl
  exact (hwf h hh).single

/-- The blank line behind a block closes it. -/
theorem find?_blankLine_blockOf (after : Bytes) :
    Bytes.find? (Bytes.crlf ++ Bytes.crlf) (blockOf hs ++ (Bytes.crlf ++ Bytes.crlf) ++ after) =
      some (blockOf hs).length := by
  refine Bytes.find?_blankLine (fun h => hne (List.map_eq_nil_iff.mp h)) (fun l hl => ?_) after
  obtain ⟨h, hh, rfl⟩ := List.mem_map.mp hl
  exact ⟨h.line_ne_nil, (hwf h hh).single⟩

/-- A block does not start with a line end, so it is not taken for an empty one. -/
theorem not_crlf_prefix_blockOf (after : Bytes) :
    ¬ Bytes.crlf <+: blockOf hs ++ (Bytes.crlf ++ Bytes.crlf) ++ after := by
  cases hs with
  | nil => exact absurd rfl hne
  | cons h rest =>
    obtain ⟨behind, hbehind⟩ := Bytes.exists_behind_line h.line (rest.map RawHeader.line) after
    rw [blockOf, List.map_cons, hbehind]
    exact Bytes.not_crlf_prefix_drop (m := 0) (hwf h List.mem_cons_self).single
      (Bytes.ofText_ne_nil h.line_ne_nil)

/-- A block is written from one list of header lines only. -/
theorem blockOf_injective {hs' : List RawHeader} (hne' : hs' ≠ []) (hwf' : ∀ h ∈ hs', h.WellFormed)
    (heq : blockOf hs = blockOf hs') : hs = hs' := by
  have hlines : hs.map RawHeader.line = hs'.map RawHeader.line := by
    rw [← lines_blockOf hne hwf, ← lines_blockOf hne' hwf', Bytes.ofText_injective heq]
  exact RawHeader.map_line_injective (fun h hh => (hwf h hh).colon) (fun h hh => (hwf' h hh).colon)
    hlines

end

/-- A block is read exactly when it is written from header lines. -/
theorem Header.ofBlock_eq_ok_iff {block : Bytes} {headers : List Header} :
    Header.ofBlock block = .ok headers ↔
      ∃ hs : List RawHeader, hs ≠ [] ∧ (∀ h ∈ hs, h.WellFormed) ∧ blockOf hs = block ∧
        hs.map RawHeader.header = headers := by
  rw [Header.ofBlock]
  constructor
  · intro h
    split at h
    · cases h
    · rename_i text htext
      obtain ⟨hs, hwf, hlines, rfl⟩ :=
        (Header.ofLines_eq_ok_iff fun l hl => free_of_mem_lines hl).mp h
      refine ⟨hs, fun he => lines_ne_nil text ?_, hwf, ?_, rfl⟩
      · rw [← hlines, he, List.map_nil]
      · rw [blockOf, hlines, lineEnd, join_lines, ← Bytes.text?_eq_some_iff.mp htext]
  · rintro ⟨hs, hne, hwf, rfl, rfl⟩
    rw [blockOf, Bytes.text?_ofText]
    -- the text is cut where it was put together
    show Header.ofLines (lines (join lineEnd (hs.map RawHeader.line))) = _
    rw [lines_blockOf hne hwf, Header.ofLines_eq_ok_iff fun l hl => ?_]
    · exact ⟨hs, hwf, rfl, rfl⟩
    · obtain ⟨h, hh, rfl⟩ := List.mem_map.mp hl
      exact (hwf h hh).single

/-! ## What headers and parameters give -/

/-- A raw header gives its trimmed value under its trimmed name, in any case. -/
def RawHeader.Gives (name : List Char) (h : RawHeader) (value : List Char) : Prop :=
  sameFolded (trim h.name) name = true ∧ value = trim h.value

/-- A parameter `key=value` gives its trimmed and unquoted value under its trimmed key, in any
case. -/
def ParamGives (key param value : List Char) : Prop :=
  ∃ k v, param = k ++ '=' :: v ∧ '=' ∉ k ∧ sameFolded (trim k) key = true ∧ value = unquote (trim v)

/-- The value of a name is what the last header of that name gives. -/
theorem Header.last?_eq_iff {hs : List RawHeader} {name : List Char} {value? : Option (List Char)} :
    Header.last? (hs.map RawHeader.header) name = value? ↔
      LastOf (RawHeader.Gives name) hs value? := by
  rw [Header.last?, map_find?_eq_findSome?, ← List.map_reverse, List.findSome?_map]
  refine lastOf_iff fun h value => ?_
  show (if sameFolded (lower (trim h.name)) name = true then some (trim h.value) else none) =
    some value ↔ _
  rw [sameFolded_lower, Option.ite_none_right_eq_some, Option.some.injEq]
  exact and_congr_right fun _ => eq_comm

/-- And so for parameters. -/
theorem lastParam?_eq_iff {params : List (List Char)} {key : List Char}
    {value? : Option (List Char)} :
    lastParam? key params = value? ↔ LastOf (ParamGives key) params value? := by
  refine lastOf_iff fun param value => ?_
  constructor
  · intro h
    split at h
    · rename_i k v hcut
      obtain ⟨rfl, hmem⟩ := cut_eq_some_iff.mp hcut
      split at h
      · exact ⟨k, v, rfl, hmem, ‹_›, (Option.some.inj h).symm⟩
      · cases h
    · cases h
  · rintro ⟨k, v, rfl, hmem, hkey, rfl⟩
    rw [cut_eq_some_iff.mpr ⟨rfl, hmem⟩]
    exact if_pos hkey

/-! ## Parts -/

/-- The header lines and the data of a part: its disposition is that of a form, and has a name.
File name and content type may be missing; then no header and no parameter gives them. -/
structure Describes (hs : List RawHeader) (data : Bytes) (part : Part) : Prop where
  disposition : ∃ value head params,
    LastOf (RawHeader.Gives "content-disposition".toList) hs (some value) ∧
      splitParams value = head :: params ∧ sameFolded (trim head) "form-data".toList = true ∧
      LastOf (ParamGives "name".toList) params (some part.name.toList) ∧
      LastOf (ParamGives "filename".toList) params (part.fileName.map String.toList)
  contentType : LastOf (RawHeader.Gives "content-type".toList) hs
    (part.contentType.map String.toList)
  data_eq : part.data = data

/-- A part is read exactly when the header lines describe it.  Both directions go through the
disposition and then through its parameters. -/
theorem Part.ofHeaders_eq_ok_iff {hs : List RawHeader} {data : Bytes} {part : Part} :
    Part.ofHeaders (hs.map RawHeader.header) data = .ok part ↔ Describes hs data part := by
  have hmap : ∀ o : Option (List Char), (o.map String.ofList).map String.toList = o := by
    intro o
    cases o <;> simp
  have hmap' : ∀ o : Option String, (o.map String.toList).map String.ofList = o := by
    intro o
    cases o <;> simp
  constructor
  · intro h
    rw [Part.ofHeaders] at h
    split at h
    · cases h
    · rename_i value hvalue
      split at h
      · cases h
      · rename_i disposition hdisposition
        rw [← Except.ok.inj h]
        refine ⟨?_, ?_, rfl⟩
        · rw [Disposition.ofValue] at hdisposition
          split at hdisposition
          · cases hdisposition
          · rename_i head params hparams
            split at hdisposition
            · rename_i hhead
              split at hdisposition
              · cases hdisposition
              · rename_i name hname
                rw [← Except.ok.inj hdisposition]
                refine ⟨value, head, params, Header.last?_eq_iff.mp hvalue, hparams, hhead, ?_, ?_⟩
                · show LastOf _ params (some (String.ofList name).toList)
                  rw [show (String.ofList name).toList = name from String.toList_ofList]
                  exact lastParam?_eq_iff.mp hname
                · rw [hmap]
                  exact lastParam?_eq_iff.mp rfl
            · cases hdisposition
        · rw [hmap]
          exact Header.last?_eq_iff.mp rfl
  · rintro ⟨⟨value, head, params, hvalue, hparams, hhead, hname, hfile⟩, htype, hdata⟩
    rw [Part.ofHeaders, Header.last?_eq_iff.mpr hvalue]
    have hdisposition : Disposition.ofValue value =
        .ok ⟨part.name.toList, part.fileName.map String.toList⟩ := by
      rw [Disposition.ofValue, hparams]
      simp only
      rw [if_pos hhead, lastParam?_eq_iff.mpr hname, lastParam?_eq_iff.mpr hfile]
    simp only [hdisposition, Header.last?_eq_iff.mpr htype, hmap', String.ofList_toList, ← hdata]

end Form

end LiveIngest
