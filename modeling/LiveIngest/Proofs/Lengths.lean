import LiveIngest.Proofs.Agreement

/-!
# Which lengths are accepted

A request says how long its body is, and that number decides how much of the body is read.  So it matters
which texts pass for a number.

1. **Specification.**  `Numeral` is a run of digits together with its value, in `Nat`, so nothing can wrap
   around; `Headers.Reads` says what the last header of a name reads as once it is trimmed.

2. **The reader.**  Digit by digit, the value read so far grows, so a number that ends within the limit was
   within it all the time: stopping at the first value beyond is no loss (`digitsUpTo_eq_ok_iff`).

3. **The header.**  A length is accepted if and only if the last `content-length` reads as a numeral within
   64 bits and within the limit of the configuration (`declaredLength_eq_ok_iff`), and every other text is
   refused for the reason that applies.

A numeral is accepted with a plus sign in front of it as well, which is no length as far as HTTP is
concerned (`signed_length_accepted`).
-/

namespace LiveIngest

namespace Text

/-! ## Numerals -/

/-- A run of digits, at least one, and its value. -/
structure Numeral (s : List Char) (n : Nat) : Prop where
  nonempty : s ≠ []
  digits : ∀ c ∈ s, c.isDigit = true
  value : Nat.ofDigits 10 (s.reverse.map digitValue) = n

instance (s : List Char) (n : Nat) : Decidable (Numeral s n) :=
  decidable_of_iff (s ≠ [] ∧ s.all Char.isDigit = true ∧ Nat.ofDigits 10 (s.reverse.map digitValue) = n)
    ⟨fun h => ⟨h.1, List.all_eq_true.mp h.2.1, h.2.2⟩,
      fun h => ⟨h.nonempty, List.all_eq_true.mpr h.digits, h.value⟩⟩

/-- One more digit in front counts as much as its place. -/
theorem ofDigits_cons_reverse (c : Char) (r : List Char) :
    Nat.ofDigits 10 ((c :: r).reverse.map digitValue) =
      Nat.ofDigits 10 (r.reverse.map digitValue) + 10 ^ r.length * digitValue c := by
  rw [List.reverse_cons, List.map_append, Nat.ofDigits_append, List.length_map, List.length_reverse,
    List.map_singleton, Nat.ofDigits_singleton]

section

variable {limit n : Nat} {s : List Char}

/-- Digits are read up to a limit: all of them, and the value is exact. -/
theorem digitsUpTo_eq_ok_iff {beyond : NumberFault} {acc : Nat} (hacc : acc ≤ limit) :
    digitsUpTo limit beyond acc s = .ok n ↔
      (∀ c ∈ s, c.isDigit = true) ∧
        acc * 10 ^ s.length + Nat.ofDigits 10 (s.reverse.map digitValue) = n ∧ n ≤ limit := by
  -- on the digits, with the value read so far general
  induction s generalizing acc with
  | nil =>
    simp only [digitsUpTo, Except.ok.injEq, List.not_mem_nil, false_implies, implies_true, true_and,
      List.length_nil, pow_zero, mul_one, List.reverse_nil, List.map_nil, Nat.ofDigits_nil, add_zero]
    exact ⟨fun h => ⟨h, h ▸ hacc⟩, fun h => h.1⟩
  | cons c r ih =>
    have hshift : acc * 10 ^ (c :: r).length + Nat.ofDigits 10 ((c :: r).reverse.map digitValue) =
        (acc * 10 + digitValue c) * 10 ^ r.length + Nat.ofDigits 10 (r.reverse.map digitValue) := by
      rw [ofDigits_cons_reverse, List.length_cons]
      ring
    rw [digitsUpTo, hshift]
    by_cases hc : c.isDigit = true
    · rw [if_neg (by simpa using hc)]
      by_cases hle : acc * 10 + digitValue c ≤ limit
      · rw [if_pos hle, ih hle, List.forall_mem_cons, and_iff_right hc]
      · -- the value does not come back within the limit
        rw [if_neg hle]
        have hgrows : acc * 10 + digitValue c ≤ (acc * 10 + digitValue c) * 10 ^ r.length :=
          Nat.le_mul_of_pos_right _ (by positivity)
        constructor
        · intro h
          cases h
        · rintro ⟨-, hvalue, hlimit⟩
          omega
    · rw [if_pos (by simpa using hc)]
      constructor
      · intro h
        cases h
      · intro h
        exact absurd (h.1 c List.mem_cons_self) hc

/-- From zero on, a run of digits is read as a numeral. -/
theorem digitsUpTo_zero_eq_ok_iff {beyond : NumberFault} (hs : s ≠ []) :
    digitsUpTo limit beyond 0 s = .ok n ↔ Numeral s n ∧ n ≤ limit := by
  rw [digitsUpTo_eq_ok_iff (Nat.zero_le limit), Nat.zero_mul, Nat.zero_add]
  exact ⟨fun ⟨hdigits, hvalue, hle⟩ => ⟨⟨hs, hdigits, hvalue⟩, hle⟩,
    fun ⟨hnumeral, hle⟩ => ⟨hnumeral.digits, hnumeral.value, hle⟩⟩

/-- A sign is no digit, so a text is read in one of two ways only. -/
theorem Numeral.head_ne {d : Char} {r : List Char} (h : Numeral (d :: r) n) : d ≠ '+' := by
  rintro rfl
  exact absurd (h.digits _ List.mem_cons_self) (by decide)

/-- A number is read if and only if the text is a numeral within the limit, or one behind a plus sign. -/
theorem parseUpTo_eq_ok_iff :
    parseUpTo limit s = .ok n ↔
      (Numeral s n ∨ ∃ digits, s = '+' :: digits ∧ Numeral digits n) ∧ n ≤ limit := by
  fun_cases parseUpTo limit s with
  | case1 =>
    refine ⟨nofun, ?_⟩
    rintro ⟨h | ⟨digits, hs, -⟩, -⟩
    · exact absurd rfl h.nonempty
    · cases hs
  | case2 =>
    refine ⟨nofun, ?_⟩
    rintro ⟨h | ⟨digits, hs, hdigits⟩, -⟩
    · exact absurd rfl h.head_ne
    · cases hs
      exact absurd rfl hdigits.nonempty
  | case3 r hr =>
    have hne : r ≠ [] := fun he => hr (by rw [he])
    rw [digitsUpTo_zero_eq_ok_iff hne]
    refine and_congr_left fun _ => ⟨fun h => Or.inr ⟨r, rfl, h⟩, ?_⟩
    rintro (h | ⟨digits, hs, hdigits⟩)
    · exact absurd rfl h.head_ne
    · cases hs
      exact hdigits
  | case4 _ hnil _ hsigned =>
    rw [digitsUpTo_zero_eq_ok_iff hnil]
    refine and_congr_left fun _ => ⟨Or.inl, ?_⟩
    rintro (h | ⟨digits, hs, -⟩)
    · exact h
    · exact absurd hs (hsigned digits)

example :
    parseUpTo maxWord "00018446744073709551615".toList = .ok maxWord ∧
      parseUpTo maxWord "18446744073709551616".toList = .error .tooLarge := by
  decide +kernel

end

end Text

namespace Http

open LiveIngest.Text

/-! ## What a header reads as -/

/-- The last header of that name is visible text, which comes to `text` when it is trimmed. -/
def Headers.Reads (headers : Headers) (name : String) (text : List Char) : Prop :=
  ∃ bytes, LastOf (fun (line : HeaderLine) (bytes : Bytes) =>
      sameFolded line.name.toList name.toList = true ∧ bytes = line.value) headers (some bytes) ∧
    (∀ b ∈ bytes, isVisible b = true) ∧ trim (bytes.map fun b => Char.ofNat b.toNat) = text

variable {headers : Headers}

/-- A look-up returns what the last header of that name reads as. -/
theorem Headers.get?_eq_some_iff {name value : String} :
    headers.get? name = some value ↔ headers.Reads name value.toList := by
  have hbytes : ∀ bytes, (visibleText? bytes).map (fun text => String.ofList (trim text)) = some value ↔
      (∀ b ∈ bytes, isVisible b = true) ∧
        trim (bytes.map fun b => Char.ofNat b.toNat) = value.toList := by
    intro bytes
    rw [visibleText?, ← List.all_eq_true]
    split
    · rename_i hall
      rw [Option.map_some, Option.some.injEq, and_iff_right hall]
      exact ⟨fun h => by rw [← h, String.toList_ofList], fun h => by rw [h, String.ofList_toList]⟩
    · rename_i hall
      constructor
      · intro h
        cases h
      · exact fun h => absurd h.1 hall
  have hget : headers.get? name =
      ((headers.reverse.find? fun line => sameFolded line.name.toList name.toList).map
        HeaderLine.value).bind fun bytes => (visibleText? bytes).map fun text =>
          String.ofList (trim text) := by
    rw [get?]
    cases headers.reverse.find? fun line => sameFolded line.name.toList name.toList <;> rfl
  rw [hget, Option.bind_eq_some_iff]
  exact exists_congr fun bytes => and_congr map_value_find?_eq_iff (hbytes bytes)

/-- A look-up returns nothing if the header is missing, and if it is not visible text. -/
theorem Headers.get?_eq_none_iff {name : String} :
    headers.get? name = none ↔ ∀ text, ¬ headers.Reads name text := by
  rw [Option.eq_none_iff_forall_ne_some]
  constructor
  · intro h text hreads
    refine h (String.ofList text) (get?_eq_some_iff.mpr ?_)
    rwa [String.toList_ofList]
  · exact fun h value hvalue => h _ (get?_eq_some_iff.mp hvalue)

/-- A header reads as one text only. -/
theorem Headers.Reads.eq {name : String} {a b : List Char} (ha : headers.Reads name a)
    (hb : headers.Reads name b) : a = b := by
  rw [← String.toList_ofList (l := a), ← get?_eq_some_iff] at ha
  rw [← String.toList_ofList (l := b), ← get?_eq_some_iff, ha, Option.some.injEq] at hb
  exact String.ofList_inj.mp hb

/-- The last `content-length` reads as a numeral of that value behind `sign`. -/
def Headers.Declares (headers : Headers) (sign : List Char) (n : Nat) : Prop :=
  ∃ digits, Numeral digits n ∧ headers.Reads "content-length" (sign ++ digits)

/-- The length that a request declares: a numeral within 64 bits, behind a plus sign or not. -/
structure Headers.DeclaresWord (headers : Headers) (n : Nat) : Prop where
  declares : headers.Declares [] n ∨ headers.Declares ['+'] n
  word : n ≤ maxWord

/-- A declared length is what is read of the last `content-length`. -/
theorem Headers.declaresWord_iff {n : Nat} :
    headers.DeclaresWord n ↔
      ∃ value, headers.contentLength? = some value ∧ parseUpTo maxWord value.toList = .ok n := by
  constructor
  · rintro ⟨⟨digits, hdigits, hreads⟩ | ⟨digits, hdigits, hreads⟩, hword⟩
    · rw [List.nil_append, ← String.toList_ofList (l := digits), ← get?_eq_some_iff] at hreads
      refine ⟨_, hreads, parseUpTo_eq_ok_iff.mpr ⟨Or.inl ?_, hword⟩⟩
      rwa [String.toList_ofList]
    · rw [← String.toList_ofList (l := ['+'] ++ digits), ← get?_eq_some_iff] at hreads
      refine ⟨_, hreads, parseUpTo_eq_ok_iff.mpr ⟨Or.inr ⟨digits, ?_, hdigits⟩, hword⟩⟩
      rw [String.toList_ofList]
      rfl
  · rintro ⟨value, hvalue, hparse⟩
    have hreads := get?_eq_some_iff.mp hvalue
    -- back from the number to the two forms of its text
    obtain ⟨hdigits | ⟨digits, hsigned, hdigits⟩, hword⟩ := parseUpTo_eq_ok_iff.mp hparse
    · exact ⟨Or.inl ⟨_, hdigits, hreads⟩, hword⟩
    · exact ⟨Or.inr ⟨digits, hdigits, by rwa [hsigned] at hreads⟩, hword⟩

/-- A header that declares a length is there. -/
theorem Headers.DeclaresWord.reads {n : Nat} (h : headers.DeclaresWord n) :
    ∃ text, headers.Reads "content-length" text := by
  rcases h.declares with ⟨digits, -, hreads⟩ | ⟨digits, -, hreads⟩
  · exact ⟨_, hreads⟩
  · exact ⟨_, hreads⟩

/-- A request declares one length only. -/
theorem Headers.DeclaresWord.eq {n m : Nat} (hn : headers.DeclaresWord n)
    (hm : headers.DeclaresWord m) : n = m := by
  obtain ⟨value, hvalue, hread⟩ := declaresWord_iff.mp hn
  obtain ⟨value', hvalue', hread'⟩ := declaresWord_iff.mp hm
  rw [hvalue, Option.some.injEq] at hvalue'
  subst hvalue'
  rw [hread, Except.ok.injEq] at hread'
  exact hread'

end Http

namespace Upload

open LiveIngest.Http
open LiveIngest.Text

/-! ## Lengths -/

/-- What a declared length comes to. -/
inductive Judged (config : Config) (headers : Headers) : Except Rejection Nat → Prop
  | accepted {n : Nat} (h : headers.DeclaresWord n) (hle : n ≤ config.maxUploadBytes) :
      Judged config headers (.ok n)
  | missing (h : ∀ text, ¬ headers.Reads "content-length" text) :
      Judged config headers (.error .missingLength)
  | invalid {value : String} (h : headers.Reads "content-length" value.toList)
      (hnone : ∀ n, ¬ headers.DeclaresWord n) : Judged config headers (.error (.invalidLength value))
  | overLimit {n : Nat} (h : headers.DeclaresWord n) (hlt : config.maxUploadBytes < n) :
      Judged config headers (.error (.lengthOverLimit n config.maxUploadBytes))

section

variable {config : Config} {path : String} {headers : Headers} {result result' : Except Rejection Nat}

/-- At most one of them is the case. -/
theorem Judged.eq (h : Judged config headers result) (h' : Judged config headers result') :
    result = result' := by
  cases h with
  | accepted h hle =>
    cases h' with
    | accepted h' _ => rw [h.eq h']
    | missing hnone => exact absurd h.reads (not_exists.mpr hnone)
    | invalid _ hnone => exact absurd h (hnone _)
    | overLimit h' hlt =>
      have := h.eq h'
      omega
  | missing hnone =>
    cases h' with
    | accepted h' _ => exact absurd h'.reads (not_exists.mpr hnone)
    | missing _ => rfl
    | invalid h' _ => exact absurd h' (hnone _)
    | overLimit h' _ => exact absurd h'.reads (not_exists.mpr hnone)
  | invalid h hnone =>
    cases h' with
    | accepted h' _ => exact absurd h' (hnone _)
    | missing hnone' => exact absurd h (hnone' _)
    | invalid h' _ => rw [String.toList_inj.mp (h.eq h')]
    | overLimit h' _ => exact absurd h' (hnone _)
  | overLimit h hlt =>
    cases h' with
    | accepted h' _ =>
      have := h.eq h'
      omega
    | missing hnone => exact absurd h.reads (not_exists.mpr hnone)
    | invalid _ hnone => exact absurd h (hnone _)
    | overLimit h' _ => rw [h.eq h']

/-- What is computed is one of the four. -/
theorem judged_declaredLength (config : Config) (headers : Headers) :
    Judged config headers (declaredLength config headers) := by
  unfold declaredLength
  split
  · rename_i hnone
    exact .missing (Headers.get?_eq_none_iff.mp hnone)
  · rename_i value hvalue
    split
    · rename_i hread
      refine .invalid (Headers.get?_eq_some_iff.mp hvalue) fun n hn => ?_
      obtain ⟨value', hvalue', hread'⟩ := Headers.declaresWord_iff.mp hn
      rw [hvalue, Option.some.injEq] at hvalue'
      rw [← hvalue', hread] at hread'
      cases hread'
    · rename_i n hread
      have hn : headers.DeclaresWord n := Headers.declaresWord_iff.mpr ⟨value, hvalue, hread⟩
      split
      · rename_i hlt
        exact .overLimit hn hlt
      · rename_i hle
        exact .accepted hn (Nat.le_of_not_lt hle)

/-- The length is what the header makes it, in each of the four ways. -/
theorem declaredLength_eq_iff : declaredLength config headers = result ↔ Judged config headers result :=
  ⟨fun h => h ▸ judged_declaredLength config headers, (judged_declaredLength config headers).eq⟩

/-- A declared length within the limit is accepted, and no other. -/
theorem declaredLength_eq_ok_iff {n : Nat} :
    declaredLength config headers = .ok n ↔
      headers.DeclaresWord n ∧ n ≤ config.maxUploadBytes := by
  rw [declaredLength_eq_iff]
  constructor
  -- of the four, only one is a length
  · rintro ⟨⟩
    exact ⟨‹_›, ‹_›⟩
  · exact fun ⟨h, hle⟩ => .accepted h hle

/-- A request is classified with a length if that is accepted and its mode can do with it. -/
theorem classify_eq_ok_iff {mode : Mode} {n : Nat} :
    classify config path headers = .ok ⟨mode, n⟩ ↔
      modeOf config path headers = .ok mode ∧ declaredLength config headers = .ok n ∧
        (n = 0 → mode.takesEmpty config = true) := by
  refine ⟨classify_ok, ?_⟩
  rintro ⟨hmode, hlength, hempty⟩
  rw [classify, hmode, hlength]
  exact if_neg fun h => h.2 (hempty h.1)

/-- Which lengths are accepted.  The length `n` is accepted if and only if the last `content-length` is
visible text that comes to a numeral of the value `n`, within 64 bits and within the limit, perhaps with a
plus sign in front; what is missing, no such numeral or over the limit is refused as just that.  And a
request is classified with the length that is accepted, unless its path and type are refused or it is
empty and must not be. -/
theorem length_accepted_iff (config : Config) (path : String) (headers : Headers) (n : Nat) :
    (declaredLength config headers = .ok n ↔
      (headers.Declares [] n ∨ headers.Declares ['+'] n) ∧ n ≤ maxWord ∧ n ≤ config.maxUploadBytes) ∧
    (∀ result, declaredLength config headers = result ↔ Judged config headers result) ∧
    ((∃ mode, classify config path headers = .ok ⟨mode, n⟩) ↔
      declaredLength config headers = .ok n ∧
        ∃ mode, modeOf config path headers = .ok mode ∧ (n = 0 → mode.takesEmpty config = true)) := by
  refine ⟨?_, fun result => declaredLength_eq_iff, ?_⟩
  · rw [declaredLength_eq_ok_iff]
    exact ⟨fun ⟨h, hle⟩ => ⟨h.declares, h.word, hle⟩, fun ⟨h, hword, hle⟩ => ⟨⟨h, hword⟩, hle⟩⟩
  · simp only [classify_eq_ok_iff]
    exact ⟨fun ⟨mode, hmode, hlength, hempty⟩ => ⟨hlength, mode, hmode, hempty⟩,
      fun ⟨hlength, mode, hmode, hempty⟩ => ⟨mode, hmode, hlength, hempty⟩⟩

/-- With a plus sign the text is no run of digits, and is accepted all the same. -/
theorem signed_length_accepted :
    ∃ headers : Headers, headers.Reads "content-length" ['+', '5'] ∧ (∀ n, ¬ headers.Declares [] n) ∧
      declaredLength {} headers = .ok 5 ∧
      classify {} "/upload" headers = .ok ⟨.rawAppend, 5⟩ := by
  have hget : Headers.get? [⟨"content-type", Bytes.ofString "video/webm"⟩,
      ⟨"Content-Length", Bytes.ofString " +5"⟩] "content-length" = some "+5" := by decide +kernel
  have hreads := Headers.get?_eq_some_iff.mp hget
  refine ⟨_, hreads, fun n ⟨digits, hdigits, hdeclared⟩ => ?_, by decide +kernel, by decide +kernel⟩
  have hsame : "+5".toList = digits := hreads.eq hdeclared
  subst hsame
  exact absurd rfl hdigits.head_ne

end

end Upload

end LiveIngest
