import LiveIngest.Bytes
import LiveIngest.Text.Split

/-!
# First occurrences

`Bytes.find?` scans from the left, so what it finds is the first occurrence (`find?_eq_some_iff`).
Two kinds of patterns are searched for.

A separator starts with a carriage return and has no other.  Such a pattern cannot overlap itself:
where it stands behind some bytes, the search ends there exactly when these bytes are free of it,
however they end (`find?_append_iff`).

A blank line is two line ends in a row.  This pattern does overlap itself, and what keeps the search
from ending too early is that the lines before it are not empty (`find?_blankLine`).  Lines are text,
and the search is over bytes; a line end among the bytes is one in the text (`crlf_infix_ofText`).
-/

namespace LiveIngest

namespace Text

/-- A line end, as text. -/
def lineEnd : List Char := ['\r', '\n']

/-- Two pieces and more are joined by glue behind the first. -/
theorem join_cons_cons (glue l l' : List Char) (rest : List (List Char)) :
    join glue (l :: l' :: rest) = l ++ glue ++ join glue (l' :: rest) := rfl

end Text

namespace Bytes

open LiveIngest.Text

/-! ## What a search finds -/

/-- A search that starts counting at some number finds the first occurrence, counted from there. -/
theorem findFrom_eq_some_iff {pattern : Bytes} :
    ∀ {bs : Bytes} {i n : Nat}, findFrom pattern i bs = some n ↔
      ∃ k, n = i + k ∧ pattern <+: bs.drop k ∧ ∀ m < k, ¬ pattern <+: bs.drop m
  | [], i, n => by
    rw [findFrom]
    constructor
    · intro h
      split at h
      · rename_i he
        rw [List.isEmpty_iff] at he
        rw [Option.some.injEq] at h
        exact ⟨0, by omega, by simp [he], by omega⟩
      · cases h
    · rintro ⟨k, rfl, hk, hfirst⟩
      have hpattern : pattern = [] := by simpa using hk
      subst hpattern
      have hzero : k = 0 := Nat.eq_zero_of_not_pos fun hlt => hfirst 0 hlt List.nil_prefix
      simp [hzero]
  | b :: r, i, n => by
    rw [findFrom]
    by_cases hp : pattern.isPrefixOf (b :: r) = true
    · rw [if_pos hp, Option.some.injEq]
      rw [List.isPrefixOf_iff_prefix] at hp
      constructor
      · rintro rfl
        exact ⟨0, rfl, hp, by omega⟩
      · rintro ⟨k, rfl, -, hfirst⟩
        have hzero : k = 0 := Nat.eq_zero_of_not_pos fun hlt => hfirst 0 hlt hp
        omega
    · rw [if_neg hp, findFrom_eq_some_iff]
      rw [List.isPrefixOf_iff_prefix] at hp
      constructor
      · rintro ⟨k, rfl, hk, hfirst⟩
        refine ⟨k + 1, by omega, hk, fun m hm => ?_⟩
        cases m with
        | zero => exact hp
        | succ m => exact hfirst m (by omega)
      · rintro ⟨k, rfl, hk, hfirst⟩
        cases k with
        | zero => exact absurd hk hp
        | succ k => exact ⟨k, by omega, hk, fun m hm => hfirst (m + 1) (by omega)⟩

/-- A search finds the first occurrence. -/
theorem find?_eq_some_iff {pattern bs : Bytes} {n : Nat} :
    find? pattern bs = some n ↔
      pattern <+: bs.drop n ∧ ∀ m < n, ¬ pattern <+: bs.drop m := by
  rw [find?, findFrom_eq_some_iff]
  constructor
  · rintro ⟨k, rfl, h⟩
    rw [Nat.zero_add]
    exact h
  · exact fun h => ⟨n, by omega, h⟩

/-- Where the counting starts makes no difference to whether something is found. -/
theorem findFrom_eq_none_iff {pattern : Bytes} :
    ∀ {bs : Bytes} {i : Nat}, findFrom pattern i bs = none ↔ ¬ pattern <:+: bs
  | [], i => by
    rw [findFrom, List.infix_nil]
    cases pattern <;> simp
  | b :: r, i => by
    rw [findFrom, List.infix_cons_iff, not_or, ← List.isPrefixOf_iff_prefix]
    split
    · rename_i hp
      simp [hp]
    · rename_i hp
      rw [findFrom_eq_none_iff]
      exact (and_iff_right hp).symm

/-- A search fails when there is no occurrence. -/
theorem find?_eq_none_iff {pattern bs : Bytes} : find? pattern bs = none ↔ ¬ pattern <:+: bs :=
  findFrom_eq_none_iff

/-- What was found cuts the bytes in three: what is before it, the pattern, and what is behind. -/
theorem eq_of_find? {pattern bs : Bytes} {n : Nat} (h : find? pattern bs = some n) :
    ∃ after, bs = bs.take n ++ pattern ++ after := by
  obtain ⟨after, hafter⟩ := (find?_eq_some_iff.mp h).1
  exact ⟨after, by rw [List.append_assoc, hafter, List.take_append_drop]⟩

/-- There are as many bytes before it as the search says. -/
theorem length_take_of_find? {pattern bs : Bytes} {n : Nat} (h : find? pattern bs = some n) :
    (bs.take n).length = n := by
  have := find?_bound h
  rw [List.length_take]
  omega

/-! ## Patterns that do not overlap themselves -/

section

variable {c : UInt8} {tail before after : Bytes}

/-- In front of a place where its head stands, such a pattern occurs only inside what precedes that. -/
theorem infix_of_prefix_drop_cons (hc : c ∉ tail) {m : Nat} (hm : m < before.length)
    (h : c :: tail <+: (before ++ c :: after).drop m) : c :: tail <:+: before := by
  rw [List.drop_append_of_le_length (by omega)] at h
  have hsuffix : before.drop m <:+ before := List.drop_suffix m before
  rcases List.prefix_or_prefix_of_prefix h (List.prefix_append _ _) with hinside | hacross
  · exact hinside.isInfix.trans hsuffix.isInfix
  · -- the occurrence would reach the head behind, which is not in its tail
    obtain ⟨rest, hrest⟩ := hacross
    cases hd : before.drop m with
    | nil =>
      have hlen := congrArg List.length hd
      rw [List.length_drop, List.length_nil] at hlen
      omega
    | cons d ds =>
      rw [hd, List.cons_append, List.cons.injEq] at hrest
      obtain ⟨rfl, rfl⟩ := hrest
      rw [hd, List.cons_append, List.cons_prefix_cons, List.prefix_append_right_inj] at h
      cases rest with
      | nil =>
        rw [List.append_nil, ← hd]
        exact hsuffix.isInfix
      | cons e es =>
        rw [List.cons_prefix_cons] at h
        rw [h.2.1] at hc
        exact absurd (List.mem_append_right ds List.mem_cons_self) hc

/-- Before its end, such a pattern occurs only inside what precedes it. -/
theorem infix_of_prefix_drop (hc : c ∉ tail) {m : Nat} (hm : m < before.length)
    (h : c :: tail <+: (before ++ (c :: tail) ++ after).drop m) : c :: tail <:+: before := by
  rw [List.append_assoc, List.cons_append] at h
  exact infix_of_prefix_drop_cons hc hm h

/-- Behind bytes that are free of such a pattern, and only there, the search ends where it stands.
Nothing can begin in them and end in the pattern. -/
theorem find?_append_iff (hc : c ∉ tail) :
    find? (c :: tail) (before ++ (c :: tail) ++ after) = some before.length ↔
      ¬ c :: tail <:+: before := by
  rw [find?_eq_some_iff]
  constructor
  · rintro ⟨-, hfirst⟩ ⟨s, t, hst⟩
    refine hfirst s.length ?_ ?_
    · rw [← hst]
      simp only [List.length_append, List.length_cons]
      omega
    · rw [← hst, List.append_assoc, List.append_assoc, List.append_assoc, List.drop_left]
      exact List.prefix_append _ _
  · intro hfree
    refine ⟨?_, fun m hm h => hfree (infix_of_prefix_drop hc hm h)⟩
    rw [List.append_assoc, List.drop_left]
    exact List.prefix_append _ _

/-- Where a search for such a pattern ends: behind bytes that are free of it. -/
theorem find?_cons_eq_some_iff (hc : c ∉ tail) {bs : Bytes} {n : Nat} :
    find? (c :: tail) bs = some n ↔
      ∃ before after, bs = before ++ (c :: tail) ++ after ∧ before.length = n ∧
        ¬ c :: tail <:+: before := by
  constructor
  · intro h
    obtain ⟨after, hbs⟩ := eq_of_find? h
    have hlen := length_take_of_find? h
    have hfound : find? (c :: tail) (bs.take n ++ (c :: tail) ++ after) = some (bs.take n).length := by
      rw [← hbs, hlen]
      exact h
    exact ⟨bs.take n, after, hbs, hlen, (find?_append_iff hc).mp hfound⟩
  · rintro ⟨before, after, rfl, rfl, hfree⟩
    exact (find?_append_iff hc).mpr hfree

/-- The bytes before the first occurrence are determined, and so are those behind it. -/
theorem append_inj_of_free (hc : c ∉ tail) {before' after' : Bytes} (hfree : ¬ c :: tail <:+: before)
    (hfree' : ¬ c :: tail <:+: before')
    (h : before ++ (c :: tail) ++ after = before' ++ (c :: tail) ++ after') :
    before = before' ∧ after = after' := by
  have hfound : find? (c :: tail) (before ++ (c :: tail) ++ after) = some before.length :=
    (find?_append_iff hc).mpr hfree
  rw [h, (find?_append_iff hc).mpr hfree', Option.some.injEq] at hfound
  rw [List.append_assoc, List.append_assoc] at h
  obtain ⟨hbefore, hrest⟩ := List.append_inj h hfound.symm
  exact ⟨hbefore, List.append_cancel_left hrest⟩

end

/-! ## Line ends among the bytes of a text -/

/-- The bytes of a text are its UTF-8 form. -/
theorem ofText_eq_utf8Encode (s : List Char) : ofText s = s.utf8Encode.data.toList := by
  rw [ofText, ofString, ← String.utf8Encode_toList, String.toList_ofList]

/-- They are those of its characters, one after the other. -/
theorem ofText_eq_flatMap (s : List Char) : ofText s = s.flatMap String.utf8EncodeChar := by
  rw [ofText_eq_utf8Encode, List.utf8Encode, List.data_toByteArray]

/-- The bytes of two texts. -/
theorem ofText_append (s t : List Char) : ofText (s ++ t) = ofText s ++ ofText t := by
  rw [ofText_eq_flatMap, ofText_eq_flatMap, ofText_eq_flatMap, List.flatMap_append]

/-- The bytes of the first character, and of the rest. -/
theorem ofText_cons (c : Char) (s : List Char) :
    ofText (c :: s) = String.utf8EncodeChar c ++ ofText s := by
  rw [ofText_eq_flatMap, ofText_eq_flatMap, List.flatMap_cons]

/-- A line end is the same as text and as bytes. -/
theorem ofText_lineEnd : ofText lineEnd = crlf := by decide

/-- A character is one byte below 128, which is its code point, or it is made of other bytes.  So a
byte below 128 always stands for itself. -/
theorem utf8EncodeChar_cases (c : Char) :
    String.utf8EncodeChar c = [UInt8.ofNat c.toNat] ∧ c.toNat < 128 ∨
      128 ≤ c.toNat ∧ ∀ b ∈ String.utf8EncodeChar c, 128 ≤ b.toNat := by
  unfold String.utf8EncodeChar
  simp only
  split
  · exact Or.inl ⟨rfl, by unfold Char.toNat; omega⟩
  · refine Or.inr ⟨by unfold Char.toNat; omega, fun b hb => ?_⟩
    split at hb
    · simp only [List.mem_cons, List.not_mem_nil, or_false] at hb
      rcases hb with rfl | rfl <;> simp only [UInt8.toNat_ofNat'] <;> omega
    · split at hb
      · simp only [List.mem_cons, List.not_mem_nil, or_false] at hb
        rcases hb with rfl | rfl | rfl <;> simp only [UInt8.toNat_ofNat'] <;> omega
      · simp only [List.mem_cons, List.not_mem_nil, or_false] at hb
        rcases hb with rfl | rfl | rfl | rfl <;> simp only [UInt8.toNat_ofNat'] <;> omega

/-- A byte below 128 among the bytes of a text is a character of it. -/
theorem mem_of_mem_ofText {b : UInt8} {s : List Char} (h : b ∈ ofText s) (hb : b.toNat < 128) :
    Char.ofNat b.toNat ∈ s := by
  rw [ofText_eq_flatMap, List.mem_flatMap] at h
  obtain ⟨c, hc, hbc⟩ := h
  rcases utf8EncodeChar_cases c with ⟨henc, hlt⟩ | ⟨-, hlarge⟩
  · rw [henc, List.mem_singleton] at hbc
    have hcode := congrArg UInt8.toNat hbc
    rw [UInt8.toNat_ofNat', Nat.mod_eq_of_lt (by omega)] at hcode
    rw [hcode, Char.ofNat_toNat]
    exact hc
  · have := hlarge b hbc
    omega

/-- A byte below 128 at the front of a text is a character at its front. -/
theorem head_of_ofText {b : UInt8} {bs : Bytes} {s : List Char} (h : ofText s = b :: bs)
    (hb : b.toNat < 128) : ∃ r, s = Char.ofNat b.toNat :: r ∧ bs = ofText r := by
  cases s with
  | nil => cases h
  | cons c r =>
    rw [ofText_cons] at h
    rcases utf8EncodeChar_cases c with ⟨hc, hlt⟩ | ⟨-, hlarge⟩
    · rw [hc, List.singleton_append, List.cons.injEq] at h
      obtain ⟨rfl, rfl⟩ := h
      refine ⟨r, ?_, rfl⟩
      rw [UInt8.toNat_ofNat', Nat.mod_eq_of_lt (by omega), Char.ofNat_toNat]
    · cases henc : String.utf8EncodeChar c with
      | nil => exact absurd henc String.utf8EncodeChar_ne_nil
      | cons d ds =>
        rw [henc, List.cons_append, List.cons.injEq] at h
        have hd := hlarge d (henc ▸ List.mem_cons_self)
        rw [h.1] at hd
        omega

/-- A pattern does not start among bytes that do not have its head. -/
theorem infix_of_infix_append {c : UInt8} {tail after : Bytes} :
    ∀ {before : Bytes}, c ∉ before → c :: tail <:+: before ++ after → c :: tail <:+: after
  | [], _, h => h
  | b :: r, hc, h => by
    rw [List.mem_cons, not_or] at hc
    rw [List.cons_append, List.infix_cons_iff, List.cons_prefix_cons] at h
    rcases h with hhead | hrest
    · exact absurd hhead.1 hc.1
    · exact infix_of_infix_append hc.2 hrest

/-- Where a line end stands among the bytes of a text, it stands in the text.  Both its bytes are
below 128. -/
theorem crlf_infix_ofText {s : List Char} (h : crlf <:+: ofText s) : lineEnd <:+: s := by
  induction s with
  | nil => exact absurd (List.eq_nil_of_infix_nil h) (by decide)
  | cons c r ih =>
    rw [ofText_cons] at h
    rcases utf8EncodeChar_cases c with ⟨hc, hlt⟩ | ⟨-, hlarge⟩
    -- `c` is one byte, and the line end may start there
    · rw [hc, List.singleton_append, crlf, List.infix_cons_iff, List.cons_prefix_cons] at h
      rcases h with ⟨hcr, t, ht⟩ | hrest
      · obtain ⟨r', rfl, -⟩ := head_of_ofText ht.symm (by decide)
        have hcode : c.toNat = 13 := by
          have := congrArg UInt8.toNat hcr
          rw [UInt8.toNat_ofNat', Nat.mod_eq_of_lt (by omega)] at this
          exact this.symm
        rw [← Char.ofNat_toNat c, hcode]
        exact ⟨[], r', rfl⟩
      · exact (ih hrest).trans (List.suffix_cons c r).isInfix
    -- the bytes of `c` are all above those of a line end
    · refine (ih (infix_of_infix_append (fun hmem => ?_) h)).trans (List.suffix_cons c r).isInfix
      exact absurd (hlarge 13 hmem) (by decide)

/-! ## The blank line behind a block of lines -/

/-- Behind a line without line ends the first line end is its own. -/
theorem not_crlf_prefix_drop {line : List Char} {after : Bytes} {m : Nat}
    (hline : ¬ lineEnd <:+: line) (hm : m < (ofText line).length) :
    ¬ crlf <+: (ofText line ++ crlf ++ after).drop m := fun h =>
  hline (crlf_infix_ofText (infix_of_prefix_drop (by decide) hm h))

/-- A text that is not empty has bytes. -/
theorem ofText_ne_nil {s : List Char} (h : s ≠ []) : 0 < (ofText s).length := by
  cases s with
  | nil => exact absurd rfl h
  | cons c r =>
    rw [ofText_cons, List.length_append]
    have := List.length_pos_iff.mpr (String.utf8EncodeChar_ne_nil (c := c))
    omega

/-- Behind the first line of a block there is a line end. -/
theorem exists_behind_line (l : List Char) (rest : List (List Char)) (after : Bytes) :
    ∃ behind, ofText (join lineEnd (l :: rest)) ++ (crlf ++ crlf) ++ after =
      ofText l ++ crlf ++ behind := by
  cases rest with
  | nil => exact ⟨crlf ++ after, by simp only [join, List.append_assoc]⟩
  | cons l' rest' =>
    refine ⟨ofText (join lineEnd (l' :: rest')) ++ (crlf ++ crlf) ++ after, ?_⟩
    simp only [join_cons_cons, ofText_append, ofText_lineEnd, List.append_assoc]

/-- The first blank line behind lines that are not empty is the one that closes them.  The induction
is on the lines: a blank line would have to begin at the end of one of them, and then the next would
be empty. -/
theorem find?_blankLine {ls : List (List Char)} (hne : ls ≠ [])
    (hls : ∀ l ∈ ls, l ≠ [] ∧ ¬ lineEnd <:+: l) (after : Bytes) :
    find? (crlf ++ crlf) (ofText (join lineEnd ls) ++ (crlf ++ crlf) ++ after) =
      some (ofText (join lineEnd ls)).length := by
  rw [find?_eq_some_iff]
  refine ⟨by rw [List.append_assoc, List.drop_left]; exact List.prefix_append _ _, ?_⟩
  induction ls with
  | nil => exact absurd rfl hne
  | cons l rest ih =>
    intro m hm h
    have hcrlf := (List.prefix_append crlf crlf).trans h
    by_cases hml : m < (ofText l).length
    · obtain ⟨behind, hbehind⟩ := exists_behind_line l rest after
      rw [hbehind] at hcrlf
      exact not_crlf_prefix_drop (hls l List.mem_cons_self).2 hml hcrlf
    · cases rest with
      | nil => exact hml hm
      | cons l' rest' =>
        have hl' := hls l' (List.mem_cons_of_mem _ List.mem_cons_self)
        have hcut : ofText (join lineEnd (l :: l' :: rest')) ++ (crlf ++ crlf) ++ after =
            ofText l ++ (crlf ++ (ofText (join lineEnd (l' :: rest')) ++ (crlf ++ crlf) ++ after)) := by
          simp only [join_cons_cons, ofText_append, ofText_lineEnd, List.append_assoc]
        obtain ⟨k, rfl⟩ : ∃ k, m = (ofText l).length + k := ⟨m - (ofText l).length, by omega⟩
        rw [hcut, ← List.drop_drop, List.drop_left] at h
        -- at the line end of `l`, in its middle, or behind it
        match k with
        | 0 =>
          obtain ⟨behind, hbehind⟩ := exists_behind_line l' rest' after
          rw [List.drop_zero, List.prefix_append_right_inj, hbehind] at h
          exact not_crlf_prefix_drop (m := 0) hl'.2 (ofText_ne_nil hl'.1) h
        | 1 => exact absurd (List.cons_prefix_cons.mp h).1 (by decide)
        | k + 2 =>
          refine ih (List.cons_ne_nil _ _) (fun l hl => hls l (List.mem_cons_of_mem _ hl)) k ?_ h
          rw [join_cons_cons, ofText_append, ofText_append, ofText_lineEnd] at hm
          simp only [List.length_append, crlf, List.length_cons, List.length_nil] at hm
          omega

end Bytes

end LiveIngest
