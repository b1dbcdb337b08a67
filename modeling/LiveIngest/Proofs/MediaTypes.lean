import LiveIngest.Proofs.Lengths

/-!
# Which content types are raw uploads

The configuration names the content type of raw uploads.  Is a name that was accepted as such one under
which raw uploads get through?  Three readings of it have to fit together: the check of the configuration
looks for a `/` in it, the classifier reduces it to its media type, and a request is compared with it by
the media type that it sends, behind the test for forms.

1. **Media types.**  A media type does not depend on case, on blanks around the text or on anything behind
   the first `;` (`essence_lower`, `essence_trim`, `essence_append`).  So every way to write the configured
   type, with any parameters, has the media type of the configured type.

2. **Classification.**  Apart from that, a raw upload needs a type that raw uploads can have at all:
   `Config.TakesRaw` (`wholeMode_eq_rawAppend_iff`).

`raw_upload_iff` is the statement.  The check is done on the text and not on its media type, so two kinds of
names pass under which there are no raw uploads: the media type of forms, and a text with nothing in front
of its first `;` (`raw_type_without_uploads`).
-/

namespace LiveIngest

namespace Text

/-! ## Case and blanks -/

/-- What holds of every character and itself, and of the first 128 and their small letters, holds of every
character and its small letter: no other characters are folded. -/
theorem forall_toLower {P : Char → Char → Prop} (hsame : ∀ c, P c c)
    (hascii : ∀ n < 128, P (Char.ofNat n) (Char.ofNat n).toLower) (c : Char) : P c c.toLower := by
  by_cases hc : c.toNat < 128
  · have h := hascii c.toNat hc
    rwa [Char.ofNat_toNat] at h
  · have hfix : c.toLower = c := by
      rw [Char.toLower, dif_neg]
      rintro ⟨-, hle⟩
      have hle : c.toNat ≤ 90 := hle
      omega
    rw [hfix]
    exact hsame c

/-- Blanks have no capitals. -/
theorem isBlank_toLower (c : Char) : isBlank c.toLower = isBlank c :=
  forall_toLower (P := fun c d => isBlank d = isBlank c) (fun _ => rfl) (by decide +kernel) c

/-- Folding and trimming can be done in any order. -/
theorem trim_lower (s : List Char) : trim (lower s) = lower (trim s) := by
  have hblank : isBlank ∘ Char.toLower = isBlank := funext isBlank_toLower
  rw [trim, trimStart, lower, List.dropWhile_map, hblank, trimEnd, ← List.map_reverse,
    List.dropWhile_map, hblank, ← List.map_reverse]
  rfl

/-- Trimming first does not matter for what stands before the first character of a class, if no blank is
in it. -/
theorem trim_takeWhile_trim {p : Char → Bool} (hp : ∀ c, isBlank c = true → p c = true) (s : List Char) :
    trim ((trim s).takeWhile p) = trim (s.takeWhile p) := by
  obtain ⟨lead, trail, hlead, htrail, hs⟩ := exists_blanks_around s
  have hfront : s.takeWhile p = lead ++ (trim s ++ trail).takeWhile p := by
    conv_lhs => rw [hs, List.append_assoc]
    exact List.takeWhile_append_of_pos fun c hc => hp c (hlead c hc)
  rw [hfront, trim_blanks_append hlead, List.takeWhile_append]
  split
  · rename_i hall
    have hself : (trim s).takeWhile p = trim s :=
      (List.takeWhile_prefix p).eq_of_length hall
    have htrail' : trail.takeWhile p = trail :=
      List.takeWhile_eq_self_iff.mpr fun c hc => hp c (htrail c hc)
    rw [htrail', trim_append_blanks htrail, hself]
  · rfl

/-- The first piece of a text is what stands before the first separator. -/
theorem headD_splitOn (p : Char → Bool) (s : List Char) :
    (splitOn p s).headD [] = s.takeWhile fun c => !p c := by
  induction s with
  | nil => rfl
  | cons c r ih =>
    rw [splitOn]
    cases hc : p c with
    | true => simp [hc]
    | false =>
      rw [List.takeWhile_cons_of_pos (by rw [hc]; rfl), ← ih]
      cases hr : splitOn p r with
      | nil => exact absurd hr (splitOn_ne_nil p r)
      | cons piece rest => rfl

end Text

namespace Http

open LiveIngest.Text

/-! ## Media types -/

/-- What a media type says, as text. -/
def essence (s : List Char) : List Char := lower (trim (s.takeWhile fun c => !decide (c = ';')))

/-- The media type of a header is that of its text. -/
theorem mediaType_eq (s : String) : mediaType s = String.ofList (essence s.toList) := by
  rw [mediaType, headD_splitOn, essence]

/-- Case does not matter. -/
theorem essence_lower (s : List Char) : essence (lower s) = essence s := by
  have hsep : ((fun c => !decide (c = ';')) ∘ Char.toLower) = fun c => !decide (c = ';') :=
    funext (forall_toLower (P := fun c d => (!decide (d = ';')) = !decide (c = ';')) (fun _ => rfl)
      (by decide +kernel))
  have hcut : (lower s).takeWhile (fun c => !decide (c = ';')) =
      lower (s.takeWhile fun c => !decide (c = ';')) := by
    rw [lower, List.takeWhile_map, hsep, lower]
  rw [essence, hcut, trim_lower, lower_lower, essence]

/-- Blanks around the text do not matter. -/
theorem essence_trim (s : List Char) : essence (trim s) = essence s := by
  rw [essence, trim_takeWhile_trim, essence]
  intro c hc
  have hne : c ≠ ';' := by
    rintro rfl
    exact absurd hc (by decide)
  simpa using hne

/-- What stands behind the first `;` does not matter. -/
theorem essence_append {s suffix : List Char} (hsuffix : ∀ c ∈ suffix.head?, c = ';') :
    essence (s ++ suffix) = essence s := by
  have hstop : suffix.takeWhile (fun c => !decide (c = ';')) = [] := by
    cases suffix with
    | nil => rfl
    | cons c r => exact List.takeWhile_cons_of_neg (by simpa using hsuffix c rfl)
  rw [essence, List.takeWhile_append, essence]
  split
  · rename_i hall
    rw [hstop, List.append_nil, (List.takeWhile_prefix _).eq_of_length hall]
  · rfl

/-- The characters that a value of visible text is made of. -/
def Visible (s : List Char) : Prop := ∀ c ∈ s, 32 ≤ c.toNat ∧ c.toNat < 127

instance (s : List Char) : Decidable (Visible s) := List.decidableBAll _ s

/-- Capitals and small letters are visible alike. -/
theorem visible_lower_iff {s : List Char} : Visible (lower s) ↔ Visible s := by
  have hfold : ∀ c : Char, (32 ≤ c.toLower.toNat ∧ c.toLower.toNat < 127) ↔
      (32 ≤ c.toNat ∧ c.toNat < 127) :=
    forall_toLower (P := fun c d => (32 ≤ d.toNat ∧ d.toNat < 127) ↔ (32 ≤ c.toNat ∧ c.toNat < 127))
      (fun _ => Iff.rfl) (by decide +kernel)
  simp only [Visible, lower, List.forall_mem_map, hfold]

/-- A header of visible text reads as that text, trimmed. -/
theorem Headers.Carry.reads {headers : Headers} {name : String} {s : List Char}
    (h : headers.Carry name (String.ofList s)) (hs : Visible s) : headers.Reads name (trim s) := by
  have htext := visibleText?_ofText hs
  rw [visibleText?] at htext
  split at htext
  · rename_i hall
    refine ⟨_, h, List.all_eq_true.mp hall, ?_⟩
    exact congrArg trim (Option.some.inj htext)
  · cases htext

end Http

/-- Whether there can be raw uploads: their type is a media type, and not that of forms. -/
structure Config.TakesRaw (c : Config) : Prop where
  named : Http.mediaType c.rawMediaType ≠ ""
  noForm : Http.mediaType c.rawMediaType ≠ "multipart/form-data"

namespace Upload

open LiveIngest.Http
open LiveIngest.Text

/-! ## Raw uploads -/

section

variable {c : Config} {path : String} {headers : Headers} {n : Nat}

/-- A raw upload is one of the configured media type, if there can be any. -/
theorem wholeMode_eq_rawAppend_iff :
    wholeMode c headers = .ok .rawAppend ↔
      c.TakesRaw ∧ mediaType (headers.contentType?.getD "") = mediaType c.rawMediaType := by
  unfold wholeMode
  simp only
  split
  · rename_i hform
    refine ⟨fun h => ?_, fun ⟨htakes, hsame⟩ => absurd (hsame.symm.trans hform) htakes.noForm⟩
    -- forms are tried first
    split at h
    · cases h
    · split at h <;> cases h
  · rename_i hform
    split
    · rename_i hraw
      exact iff_of_true rfl ⟨⟨hraw.2 ▸ hraw.1, hraw.2 ▸ hform⟩, hraw.2⟩
    · rename_i hraw
      refine ⟨nofun, fun ⟨htakes, hsame⟩ => absurd ⟨?_, hsame⟩ hraw⟩
      rw [hsame]
      exact htakes.named

/-- Under the chunked path nothing is a raw upload. -/
theorem modeOf_eq_rawAppend_iff :
    modeOf c path headers = .ok .rawAppend ↔
      ¬ chunkedPath.toList <+: path.toList ∧ c.TakesRaw ∧
        mediaType (headers.contentType?.getD "") = mediaType c.rawMediaType := by
  unfold modeOf
  split
  · rename_i hpath
    rw [List.isPrefixOf_iff_prefix] at hpath
    refine ⟨fun h => ?_, fun h => absurd hpath h.1⟩
    unfold chunkedMode at h
    split at h
    · cases h
    · split at h
      · cases h
      · split at h
        · cases h
        · split at h <;> cases h
  · rename_i hpath
    rw [List.isPrefixOf_iff_prefix] at hpath
    rw [and_iff_right hpath, wholeMode_eq_rawAppend_iff]

/-- The configured type, written with any capitals and with any parameters behind it. -/
def RawType (c : Config) (text : List Char) : Prop :=
  ∃ type suffix, text = type ++ suffix ∧ lower type = lower c.rawMediaType.toList ∧
    (∀ ch ∈ suffix.head?, ch = ';') ∧ Visible suffix

/-- However it is written, it has the media type of the configured type. -/
theorem RawType.mediaType_eq {text : List Char} (h : RawType c text) :
    mediaType (String.ofList (trim text)) = mediaType c.rawMediaType := by
  obtain ⟨type, suffix, rfl, hcase, hsuffix, -⟩ := h
  rw [Http.mediaType_eq, Http.mediaType_eq, String.toList_ofList, essence_trim, essence_append hsuffix,
    ← essence_lower, hcase, essence_lower]

/-- It can be sent in a header, if the configured type can. -/
theorem RawType.visible {text : List Char} (h : RawType c text) (hraw : Visible c.rawMediaType.toList) :
    Visible text := by
  obtain ⟨type, suffix, rfl, hcase, -, hsuffix⟩ := h
  have htype : Visible type := by rwa [← visible_lower_iff, hcase, visible_lower_iff]
  exact fun ch hch => (List.mem_append.mp hch).elim (htype ch) (hsuffix ch)

/-- A request for a raw upload: one of the configured type, not under the chunked path, which declares a
length from one byte to the limit. -/
structure RawRequest (c : Config) (path : String) (headers : Headers) (n : Nat) : Prop where
  path : ¬ chunkedPath.toList <+: path.toList
  type : ∃ text, RawType c text ∧ headers.Carry "content-type" (String.ofList text)
  length : headers.Declares [] n
  positive : 1 ≤ n
  limit : n ≤ c.maxUploadBytes

/-- A request for a raw upload has everything that a raw upload needs, except that there may be
none. -/
theorem RawRequest.classify_iff (h : RawRequest c path headers n) (hraw : Visible c.rawMediaType.toList)
    (hword : c.maxUploadBytes ≤ maxWord) :
    classify c path headers = .ok ⟨.rawAppend, n⟩ ↔ c.TakesRaw := by
  obtain ⟨text, htype, hcarry⟩ := h.type
  have hget : headers.contentType? = some (String.ofList (trim text)) := by
    rw [Headers.contentType?, Headers.get?_eq_some_iff, String.toList_ofList]
    exact hcarry.reads (htype.visible hraw)
  have hlength : declaredLength c headers = .ok n :=
    declaredLength_eq_ok_iff.mpr ⟨⟨Or.inl h.length, h.limit.trans hword⟩, h.limit⟩
  have hpositive := h.positive
  rw [classify_eq_ok_iff, modeOf_eq_rawAppend_iff, hget, Option.getD_some, htype.mediaType_eq]
  exact ⟨fun hall => hall.1.2.1, fun htakes => ⟨⟨h.path, htakes, rfl⟩, hlength, fun hn => by omega⟩⟩

/-- The plainest request for a raw upload. -/
theorem rawRequest_plain (c : Config) (hlimit : 5 ≤ c.maxUploadBytes) :
    RawRequest c "/upload" [⟨"content-type", Bytes.ofString c.rawMediaType⟩,
      ⟨"content-length", Bytes.ofString "5"⟩] 5 := by
  have htype : RawType c c.rawMediaType.toList :=
    ⟨_, [], (List.append_nil _).symm, rfl, nofun, nofun⟩
  have hother : sameFolded "content-length".toList "content-type".toList = false := by decide +kernel
  refine ⟨by decide +kernel, ⟨_, htype, ?_⟩, ⟨['5'], by decide +kernel, Bytes.ofString "5", ?_, ?_⟩,
    by decide, hlimit⟩
  · rw [String.ofList_toList]
    refine ⟨[], _, [_], rfl, ⟨sameFolded_iff.mpr rfl, rfl⟩, fun other hmem _ hsame => ?_⟩
    rw [List.mem_singleton.mp hmem, hother] at hsame
    exact Bool.false_ne_true hsame.1
  · exact ⟨[_], _, [], rfl, ⟨sameFolded_iff.mpr rfl, rfl⟩, nofun⟩
  · decide +kernel

/-- A name that was accepted has a `/` in it. -/
theorem slash_mem_rawMediaType (hvalid : c.validate = .ok ()) : '/' ∈ c.rawMediaType.toList := by
  have hlooks : Config.looksLikeMediaType c.rawMediaType = true := by
    unfold Config.validate at hvalid
    by_contra hlooks
    rw [if_pos hlooks] at hvalid
    split_ifs at hvalid
  unfold Config.looksLikeMediaType at hlooks
  split at hlooks
  · rename_i type subtype hcut
    rw [(cut_eq_some_iff.mp hcut).1]
    exact List.mem_append_right _ List.mem_cons_self
  · cases hlooks

/-- So it is a media type if it has no parameters. -/
theorem mediaType_ne_empty (hvalid : c.validate = .ok ()) (hplain : ';' ∉ c.rawMediaType.toList) :
    mediaType c.rawMediaType ≠ "" := by
  have hslash := slash_mem_rawMediaType hvalid
  have hwhole : c.rawMediaType.toList.takeWhile (fun ch => !decide (ch = ';')) = c.rawMediaType.toList := by
    refine List.takeWhile_eq_self_iff.mpr fun ch hch => ?_
    have hne : ch ≠ ';' := fun heq => hplain (heq ▸ hch)
    simpa using hne
  -- trimming takes blanks away, and a slash is none
  have hmem : '/' ∈ trim c.rawMediaType.toList := by
    obtain ⟨lead, trail, hlead, htrail, htext⟩ := exists_blanks_around c.rawMediaType.toList
    have hblank : isBlank '/' = false := by decide
    rw [htext, List.mem_append, List.mem_append] at hslash
    rcases hslash with (hslash | hslash) | hslash
    · exact absurd (hlead _ hslash) (by rw [hblank]; exact Bool.false_ne_true)
    · exact hslash
    · exact absurd (htrail _ hslash) (by rw [hblank]; exact Bool.false_ne_true)
  intro hempty
  rw [Http.mediaType_eq, essence, hwhole, String.ofList_eq_empty_iff, lower, List.map_eq_nil_iff] at hempty
  rw [hempty] at hmem
  exact absurd hmem List.not_mem_nil

/-- Which names of raw uploads can be used.  If a name that was accepted is a media type and not that of
forms, every request of that type is a raw upload, whatever its capitals and its parameters, and whatever
length it declares within the limit.  If not, no request is.  A name without parameters is always a media
type. -/
theorem raw_upload_iff (hvalid : c.validate = .ok ()) (hraw : Visible c.rawMediaType.toList)
    (hword : c.maxUploadBytes ≤ maxWord) :
    (∀ path headers n, RawRequest c path headers n →
      (classify c path headers = .ok ⟨.rawAppend, n⟩ ↔ c.TakesRaw)) ∧
    (¬ c.TakesRaw → ∀ path headers n, classify c path headers ≠ .ok ⟨.rawAppend, n⟩) ∧
    (';' ∉ c.rawMediaType.toList →
      (c.TakesRaw ↔ mediaType c.rawMediaType ≠ "multipart/form-data")) := by
  refine ⟨fun path headers n h => h.classify_iff hraw hword, fun hnone path headers n h => ?_,
    fun hplain => ⟨Config.TakesRaw.noForm, fun hform => ⟨mediaType_ne_empty hvalid hplain, hform⟩⟩⟩
  exact hnone (modeOf_eq_rawAppend_iff.mp (classify_ok h).1).2.1

/-- A name with blanks around it and a parameter, and a request of other capitals that has more blanks, more
parameters and zeros in front of its length. -/
theorem raw_upload_of_odd_name :
    ∃ (c : Config) (headers : Headers), c.validate = .ok () ∧ Visible c.rawMediaType.toList ∧
      c.maxUploadBytes ≤ maxWord ∧ RawRequest c "/upload" headers 12 ∧ c.TakesRaw ∧
      classify c "/upload" headers = .ok ⟨.rawAppend, 12⟩ := by
  let c : Config := { rawMediaType := " Video/WebM ; x=1", maxUploadBytes := 12 }
  let text := " vIDEO/webm ; X=1; codecs=\"vp8; video/mp4\" "
  let headers : Headers := [⟨"Content-Length", Bytes.ofString "00012"⟩,
    ⟨"Content-Type", Bytes.ofString "text/plain"⟩, ⟨"content-TYPE", Bytes.ofString text⟩]
  have hvalid : c.validate = .ok () := by decide +kernel
  have hraw : Visible c.rawMediaType.toList := by decide +kernel
  have hword : c.maxUploadBytes ≤ maxWord := by decide +kernel
  have htype : RawType c text.toList := by
    refine ⟨" vIDEO/webm ; X=1".toList, ';' :: " codecs=\"vp8; video/mp4\" ".toList, by decide +kernel,
      by decide +kernel, ?_, by decide +kernel⟩
    rintro ch ⟨⟩
    rfl
  have hcarry : headers.Carry "content-type" (String.ofList text.toList) :=
    Headers.map_value_find?_eq_iff.mp (by decide +kernel)
  have hget : headers.get? "content-length" = some "00012" := by decide +kernel
  have hlength : headers.Declares [] 12 :=
    ⟨"00012".toList, by decide +kernel, Headers.get?_eq_some_iff.mp hget⟩
  have hrequest : RawRequest c "/upload" headers 12 :=
    ⟨by decide +kernel, ⟨_, htype, hcarry⟩, hlength, by decide, by decide⟩
  have htakes : c.TakesRaw := ⟨by decide +kernel, by decide +kernel⟩
  exact ⟨c, headers, hvalid, hraw, hword, hrequest, htakes,
    ((raw_upload_iff hvalid hraw hword).1 "/upload" headers 12 hrequest).mpr htakes⟩

/-- Names that are accepted and under which there are no raw uploads: requests that ask for one are refused,
as forms without a boundary, or for their type. -/
theorem raw_type_without_uploads :
    ∃ (form nameless : Config) (headers headers' : Headers),
      form.validate = .ok () ∧ Visible form.rawMediaType.toList ∧
      RawRequest form "/upload" headers 5 ∧
      classify form "/upload" headers = .error .missingBoundary ∧
      nameless.validate = .ok () ∧ Visible nameless.rawMediaType.toList ∧
      RawRequest nameless "/upload" headers' 5 ∧
      classify nameless "/upload" headers' = .error .unsupportedContentType :=
  ⟨{ rawMediaType := "multipart/form-data" }, { rawMediaType := ";/x" }, _, _,
    by decide +kernel, by decide +kernel, rawRequest_plain _ (by decide +kernel), by decide +kernel,
    by decide +kernel, by decide +kernel, rawRequest_plain _ (by decide +kernel), by decide +kernel⟩

end

end Upload

end LiveIngest
