import LiveIngest.Proofs.Arriving
import LiveIngest.Proofs.Dispatching
import LiveIngest.Proofs.Encoding

/-!
# Two ways to upload the same

A payload can be sent as it is, or as the one field of a form.  Both uploads leave the endpoint in
the same state and get the same reply, whatever that is.

The way of the form is the longer one, and each of its steps undoes one of the sender's: the boundary
is taken out of the content type that announces it (`classify_form`), the body is read in full from
the pieces it came in (`readBody_of_arrives`), and the form gives back the part that was written
(`derives_encode`).  From there on both uploads are the same call: `dispatch_form_eq_raw`.
-/

namespace LiveIngest

open LiveIngest.Text

/-! ## Header values that are text -/

namespace Http

/-- The last header of that name has that value.  Names are compared without regard to case, and the
last of several wins, as `Headers.get?` has it. -/
def Headers.Carry (headers : Headers) (name value : String) : Prop :=
  LastOf (fun (line : HeaderLine) (bytes : Bytes) =>
    sameFolded line.name.toList name.toList = true ∧ bytes = line.value) headers
    (some (Bytes.ofString value))

/-- A value of visible characters reads back.  Each of them is one byte, so the way through bytes
can be undone one by one. -/
theorem visibleText?_ofText {s : List Char} (hs : ∀ c ∈ s, 32 ≤ c.toNat ∧ c.toNat < 127) :
    visibleText? (Bytes.ofText s) = some s := by
  have hbytes : Bytes.ofText s = s.map fun c => UInt8.ofNat c.toNat := by
    rw [Bytes.ofText_eq_flatMap, List.map_eq_flatMap]
    refine List.flatMap_congr fun c hc => ?_
    have hrange := hs c hc
    rcases Bytes.utf8EncodeChar_cases c with ⟨henc, -⟩ | ⟨hlarge, -⟩
    · exact henc
    · omega
  -- no character is lost, because all are below 256
  have hback : ∀ c ∈ s, (UInt8.ofNat c.toNat).toNat = c.toNat := by
    intro c hc
    have := hs c hc
    rw [UInt8.toNat_ofNat', Nat.mod_eq_of_lt (by omega)]
  have hall : (s.map fun c => UInt8.ofNat c.toNat).all isVisible = true := by
    rw [List.all_map, List.all_eq_true]
    intro c hc
    have hrange := hs c hc
    have hcode := hback c hc
    show isVisible (UInt8.ofNat c.toNat) = true
    simp only [isVisible, Bool.or_eq_true, Bool.and_eq_true, decide_eq_true_eq, UInt8.le_iff_toNat_le,
      UInt8.lt_iff_toNat_lt, hcode]
    exact Or.inr hrange
  rw [visibleText?, hbytes, if_pos hall, List.map_map, Option.some.injEq]
  refine (List.map_congr_left fun c hc => ?_).trans (List.map_id s)
  show Char.ofNat (UInt8.ofNat c.toNat).toNat = c
  rw [hback c hc, Char.ofNat_toNat]

/-- A search from behind finds the last header of that name. -/
theorem Headers.map_value_find?_eq_iff {headers : Headers} {name : String} {bytes? : Option Bytes} :
    (headers.reverse.find? fun line => sameFolded line.name.toList name.toList).map HeaderLine.value =
        bytes? ↔
      LastOf (fun (line : HeaderLine) (bytes : Bytes) =>
        sameFolded line.name.toList name.toList = true ∧ bytes = line.value) headers bytes? := by
  rw [map_find?_eq_findSome?]
  refine lastOf_iff fun line bytes => ?_
  rw [Option.ite_none_right_eq_some, Option.some.injEq]
  exact and_congr_right fun _ => eq_comm

/-- What a value reads as, visible or not. -/
theorem Headers.Carry.get?_eq {headers : Headers} {name value : String} (h : headers.Carry name value) :
    headers.get? name =
      (visibleText? (Bytes.ofText value.toList)).map fun text => String.ofList (trim text) := by
  obtain ⟨line, hline, hvalue⟩ := Option.map_eq_some_iff.mp (map_value_find?_eq_iff.mpr h)
  rw [Headers.get?, hline]
  simp only
  rw [hvalue, Bytes.ofText_toList]

/-- A visible value with nothing to trim is read as it was sent. -/
theorem Headers.Carry.get? {headers : Headers} {name value : String} (h : headers.Carry name value)
    (hvisible : ∀ c ∈ value.toList, 32 ≤ c.toNat ∧ c.toNat < 127)
    (htrim : trim value.toList = value.toList) : headers.get? name = some value := by
  rw [h.get?_eq, visibleText?_ofText hvisible, Option.map_some, htrim, String.ofList_toList]

end Http

/-! ## The content type of a form -/

namespace Form

/-- The characters of a boundary are visible, and none of them means anything in a header value.
There are fewer than 128 of them, so they can be tried. -/
theorem isBoundaryChar_cases {c : Char} (h : isBoundaryChar c = true) :
    (32 ≤ c.toNat ∧ c.toNat < 127) ∧ c ≠ ';' ∧ c ≠ '"' ∧ c ≠ '\\' := by
  have hascii : c.toNat < 128 := by
    rw [isBoundaryChar, Bool.or_eq_true] at h
    rcases h with h | h
    · simp only [Char.isAlphanum, Char.isAlpha, Char.isUpper, Char.isLower, Char.isDigit,
        Bool.or_eq_true, Bool.and_eq_true, decide_eq_true_eq, ge_iff_le, UInt32.le_iff_toNat_le] at h
      have hsmall : 'Z'.val.toNat = 90 ∧ 'z'.val.toNat = 122 ∧ '9'.val.toNat = 57 := by decide
      show c.val.toNat < 128
      omega
    · have hmarks : ∀ c ∈ "'()+_,-./:=? ".toList, c.toNat < 128 :=
        List.all_iff_forall_prop.mp (by decide)
      exact hmarks c (List.contains_iff_mem.mp h)
  have hall : ∀ n < 128, isBoundaryChar (Char.ofNat n) = true →
      (32 ≤ n ∧ n < 127) ∧ Char.ofNat n ≠ ';' ∧ Char.ofNat n ≠ '"' ∧ Char.ofNat n ≠ '\\' := by
    decide +kernel
  have hc := hall c.toNat hascii
  rw [Char.ofNat_toNat] at hc
  exact hc h

/-- The content type of a form with that boundary, which is quoted since it may hold blanks and
colons. -/
def contentTypeOf (boundary : String) : String :=
  "multipart/form-data; boundary=\"" ++ boundary ++ "\""

/-- Quoting has nothing to escape in a boundary. -/
theorem escape_boundary {s : List Char} (hs : ∀ c ∈ s, isBoundaryChar c = true) : escape s = s := by
  induction s with
  | nil => rfl
  | cons c r ih =>
    obtain ⟨-, -, hquote, hslash⟩ := isBoundaryChar_cases (hs c List.mem_cons_self)
    rw [escape, if_neg (by simp [hquote, hslash]), ih fun c h => hs c (List.mem_cons_of_mem _ h)]

section

variable {boundary : String} (hb : checkBoundary boundary = .ok ())
include hb

omit hb in
/-- The three pieces that the text was put together from. -/
theorem toList_contentTypeOf_append :
    (contentTypeOf boundary).toList =
      "multipart/form-data; boundary=\"".toList ++ boundary.toList ++ "\"".toList :=
  String.toList_append.trans (congrArg (· ++ _) String.toList_append)

/-- The content type is visible text with nothing to trim: it begins with a letter and ends in a
quote. -/
theorem visible_contentTypeOf :
    (∀ c ∈ (contentTypeOf boundary).toList, 32 ≤ c.toNat ∧ c.toNat < 127) ∧
      trim (contentTypeOf boundary).toList = (contentTypeOf boundary).toList := by
  have hchars := (checkBoundary_eq_ok_iff.mp hb).2.2.2
  have hhead : ∀ c ∈ "multipart/form-data; boundary=\"".toList, 32 ≤ c.toNat ∧ c.toNat < 127 :=
    List.all_iff_forall_prop.mp (by decide)
  have hlast : ∀ c ∈ "\"".toList, 32 ≤ c.toNat ∧ c.toNat < 127 :=
    List.all_iff_forall_prop.mp (by decide)
  have hfirst : "multipart/form-data; boundary=\"".toList.head? = some 'm' := by decide
  have hend : "\"".toList.getLast? = some '"' := by decide
  rw [toList_contentTypeOf_append]
  refine ⟨fun c hc => ?_, trim_eq_self ?_ ?_⟩
  · rcases List.mem_append.mp hc with hc | hc
    · rcases List.mem_append.mp hc with hc | hc
      · exact hhead c hc
      · exact (isBoundaryChar_cases (hchars c hc)).1
    · exact hlast c hc
  · rw [List.append_assoc, List.head?_append, hfirst]
    rintro c ⟨⟩
    decide
  · rw [List.getLast?_append, hend]
    rintro c ⟨⟩
    decide

/-- The content type is the media type and one parameter.  In this form the lemmas about splitting
apply. -/
theorem toList_contentTypeOf :
    (contentTypeOf boundary).toList =
      "multipart/form-data".toList ++ ';' :: parameter "boundary".toList boundary.toList := by
  have hescape := escape_boundary (checkBoundary_eq_ok_iff.mp hb).2.2.2
  have hhead : "multipart/form-data; boundary=\"".toList =
      "multipart/form-data".toList ++ ';' :: ' ' :: ("boundary".toList ++ ['=', '"']) := by decide
  have hend : "\"".toList = ['"'] := by decide
  have hparameter : ∀ media key : List Char,
      media ++ ';' :: ' ' :: (key ++ ['=', '"']) ++ boundary.toList ++ ['"'] =
        media ++ ';' :: parameter key boundary.toList := by
    intro media key
    simp only [parameter, quote, hescape, List.append_assoc, List.cons_append, List.nil_append]
  calc (contentTypeOf boundary).toList
      = "multipart/form-data; boundary=\"".toList ++ boundary.toList ++ "\"".toList :=
        toList_contentTypeOf_append
    _ = _ := congrArg₂ (fun head last => head ++ boundary.toList ++ last) hhead hend
    _ = _ := hparameter _ _

/-- Splitting at semicolons comes to these two, since no boundary has one.  A quoted value with a
semicolon would be torn apart here. -/
theorem pieces_contentTypeOf :
    splitOn (· = ';') (contentTypeOf boundary).toList =
      ["multipart/form-data".toList, parameter "boundary".toList boundary.toList] := by
  have hchars := (checkBoundary_eq_ok_iff.mp hb).2.2.2
  have hmedia : ∀ c ∈ "multipart/form-data".toList, decide (c = ';') = false :=
    List.all_iff_forall_prop.mp (by decide)
  have hkey : ∀ c ∈ ' ' :: "boundary".toList, decide (c = ';') = false :=
    List.all_iff_forall_prop.mp (by decide)
  have hquote : ∀ c ∈ '=' :: quote boundary.toList, decide (c = ';') = false := by
    rw [quote, escape_boundary hchars]
    intro c hc
    simp only [List.mem_cons, List.mem_append, List.not_mem_nil, or_false] at hc
    rcases hc with rfl | rfl | hc | rfl
    · decide
    · decide
    · exact decide_eq_false (isBoundaryChar_cases (hchars c hc)).2.1
    · decide
  rw [toList_contentTypeOf hb, splitOn_append_cons _ (by decide), splitOn_of_not_mem _ _ hmedia,
    splitOn_of_not_mem]
  · rfl
  · intro c hc
    have hc : c ∈ (' ' :: "boundary".toList) ++ ('=' :: quote boundary.toList) := hc
    rcases List.mem_append.mp hc with hc | hc
    · exact hkey c hc
    · exact hquote c hc

/-- It is the media type of forms. -/
theorem mediaType_contentTypeOf : Http.mediaType (contentTypeOf boundary) = "multipart/form-data" := by
  have hmedia : lower (trim "multipart/form-data".toList) = "multipart/form-data".toList := by decide
  rw [Http.mediaType, pieces_contentTypeOf hb, List.headD_cons, hmedia, String.ofList_toList]

/-- And the boundary is the one that was put in. -/
theorem boundaryOf?_contentTypeOf : boundaryOf? (contentTypeOf boundary) = some boundary := by
  have hkey : sameFolded (trim (' ' :: "boundary".toList)) "boundary".toList = true := by decide
  have hcut : cut '=' (parameter "boundary".toList boundary.toList) =
      some (' ' :: "boundary".toList, quote boundary.toList) :=
    cut_eq_some_iff.mpr ⟨rfl, by decide⟩
  have hvalue : boundaryValue? (parameter "boundary".toList boundary.toList) = some boundary.toList := by
    simp only [boundaryValue?, hcut, hkey, trim_quote, unquote_quote, if_true]
  rw [boundaryOf?, pieces_contentTypeOf hb, List.drop_one, List.tail_cons, List.findSome?_cons, hvalue]
  exact congrArg some String.ofList_toList

end

end Form

namespace Upload

open LiveIngest.Body
open LiveIngest.Form
open LiveIngest.Storage
open LiveIngest.Traffic.Machine (payloadOf)

/-! ## Both ways -/

section

variable {boundary : String} (hb : checkBoundary boundary = .ok ())
include hb

/-- A content type that announces a valid boundary is that of a form upload.  An empty form is not
accepted, whatever the configuration says of empty uploads. -/
theorem classify_form {c : Config} {path : String} {headers : Http.Headers} {n : Nat}
    (hpath : ¬ chunkedPath.toList <+: path.toList)
    (htype : headers.Carry "content-type" (contentTypeOf boundary))
    (hlength : declaredLength c headers = .ok n) (hn : n ≠ 0) :
    classify c path headers = .ok ⟨.form boundary c.uploadField, n⟩ := by
  have hget : headers.contentType? = some (contentTypeOf boundary) :=
    htype.get? (visible_contentTypeOf hb).1 (visible_contentTypeOf hb).2
  have hwhole : wholeMode c headers = .ok (.form boundary c.uploadField) := by
    rw [wholeMode, hget]
    simp only [Option.getD_some, mediaType_contentTypeOf hb, boundaryOf?_contentTypeOf hb, hb, if_true]
  have hmode : modeOf c path headers = .ok (.form boundary c.uploadField) := by
    rw [modeOf, if_neg (by rwa [List.isPrefixOf_iff_prefix]), hwhole]
  rw [classify, hmode, hlength]
  exact if_neg fun h => hn h.1

/-- The payload of a form that was written is the data of its part: writing is a derivation of the
grammar, and parsing finds the only one there is. -/
theorem formPayload_encode {preamble : Option Bytes} {padding epilogue : Bytes} {part : Part}
    (hpadding : ∀ b ∈ padding, b = 32 ∨ b = 9) (hpart : part.Writable boundary)
    (hpreamble : ∀ text ∈ preamble, ¬ separator boundary <:+: text ∧
      ¬ delimiter boundary <+: encode boundary preamble [(padding, part)] epilogue) :
    formPayload boundary part.name (encode boundary preamble [(padding, part)] epilogue) =
      .ok part.data := by
  have hparse : parse (encode boundary preamble [(padding, part)] epilogue) boundary = .ok [part] :=
    parse_eq_ok_iff.mpr ⟨hb, _, derives_encode hb (List.cons_ne_nil _ _) (by simpa using hpadding)
      (by simpa using hpart) hpreamble⟩
  have hfield : field? [part] part.name = some part := by
    rw [field?, List.find?_cons_of_pos (by simp)]
  rw [formPayload, hparse]
  simp only [hfield]

end

/-- The reply to an upload that is appended does not show in what form it came.  The mode is only
asked for whether it is chunked. -/
theorem replyTo?_appended {mode : Mode} (hmode : mode.isChunked = false)
    (result : Except Stop Outcome) : replyTo? mode result = replyTo? .rawAppend result := by
  cases result with
  | ok outcome =>
    show some (Reply.stored (some mode)) = some (Reply.stored (some .rawAppend))
    rw [Reply.stored, hmode]
    rfl
  | error stop => cases stop <;> rfl

/-- An upload whose bytes arrive in time and hold a payload comes to that payload being appended.
What is appended, and whether that succeeds, depends on the payload and the disk only, so two
uploads with one payload cannot be told apart. -/
theorem dispatch_appends {g : Ingest} {request : Request} {plan : Plan} {bytes payload : Bytes}
    (hplan : classify g.config request.path request.headers = .ok plan)
    (hmode : plan.mode.isChunked = false) (hlength : plan.length = bytes.length) (hne : bytes ≠ [])
    (harrives : Arrives g.config.readTimeout g.clock request.body bytes)
    (hpayload : payloadOf plan.mode bytes = .ok payload) :
    let appended := appendPayload g.tree g.config.rawOutputPath payload
    (g.dispatch request).reply ≠ none ∧
      (g.dispatch request).reply = replyTo? .rawAppend
        (appended.1.map fun _ => ⟨g.config.rawOutputPath, payload.length⟩) ∧
      (g.dispatch request).ingest.tree = appended.2 ∧
      (g.dispatch request).ingest.counter = g.counter := by
  intro appended
  obtain ⟨reading, hread⟩ := readBody_of_arrives harrives
  have hlen : plan.length ≠ 0 := by
    rw [hlength]
    exact fun h => hne (List.length_eq_zero_iff.mp h)
  have hcollected : g.collected plan request.body =
      appendRead payload g.config.rawOutputPath reading g.tree := by
    rw [Ingest.collected, hlength, hread]
    simp only [hpayload]
  obtain ⟨hreply, hingest⟩ := Ingest.dispatch_planned hplan
  obtain ⟨hresult, htree, -⟩ := appendRead_result payload g.config.rawOutputPath reading g.tree
  rw [hreply, hingest, Ingest.execute_collected hmode hlen, hcollected]
  refine ⟨replyTo?_ne_none (appendRead_ne_overflow _ _ _ _), ?_, htree, rfl⟩
  rw [replyTo?_appended hmode]
  exact congrArg _ hresult

/-- A form upload and a raw upload of the same payload agree.  If the payload is the data of the
field that the endpoint looks for, both get the same reply, and leave the same files and the same
counter.  The disk may be full or broken: then both fail alike. -/
theorem dispatch_form_eq_raw {g : Ingest} {form raw : Request} {boundary : String} {part : Part}
    {preamble : Option Bytes} {padding epilogue : Bytes}
    (hb : checkBoundary boundary = .ok ()) (hfield : part.name = g.config.uploadField)
    (hpart : part.Writable boundary) (hne : part.data ≠ [])
    (hpadding : ∀ b ∈ padding, b = 32 ∨ b = 9)
    (hpreamble : ∀ text ∈ preamble, ¬ separator boundary <:+: text ∧
      ¬ delimiter boundary <+: encode boundary preamble [(padding, part)] epilogue)
    (hpath : ¬ chunkedPath.toList <+: form.path.toList)
    (htype : form.headers.Carry "content-type" (contentTypeOf boundary))
    (hlength : declaredLength g.config form.headers =
      .ok (encode boundary preamble [(padding, part)] epilogue).length)
    (hraw : classify g.config raw.path raw.headers = .ok ⟨.rawAppend, part.data.length⟩)
    (hformBody : Arrives g.config.readTimeout g.clock form.body
      (encode boundary preamble [(padding, part)] epilogue))
    (hrawBody : Arrives g.config.readTimeout g.clock raw.body part.data) :
    ∃ reply, (g.dispatch form).reply = some reply ∧ (g.dispatch raw).reply = some reply ∧
      (g.dispatch form).ingest.tree = (g.dispatch raw).ingest.tree ∧
      (g.dispatch form).ingest.counter = (g.dispatch raw).ingest.counter := by
  have hbody : encode boundary preamble [(padding, part)] epilogue ≠ [] := by
    simp [encode, delimiter]
  have hplan := classify_form hb hpath htype hlength fun h => hbody (List.length_eq_zero_iff.mp h)
  have hpayload := formPayload_encode hb hpadding hpart hpreamble
  rw [hfield] at hpayload
  obtain ⟨-, hreply, htree, hcounter⟩ := dispatch_appends hplan rfl rfl hbody hformBody hpayload
  obtain ⟨hanswered, hreply', htree', hcounter'⟩ := dispatch_appends hraw rfl rfl hne hrawBody rfl
  obtain ⟨reply, hsome⟩ := Option.ne_none_iff_exists'.mp hanswered
  exact ⟨reply, (hreply.trans hreply'.symm).trans hsome, hsome, htree.trans htree'.symm,
    hcounter.trans hcounter'.symm⟩

/-- A payload that ends with most of a separator, in a field whose name has to be escaped, cut in the
middle of the delimiter; the last piece comes in the last moment, and the raw body is too long. -/
theorem dispatch_form_eq_raw_awkward :
    let config : Config := { uploadField := "a\";b" }
    let g : Ingest := ⟨config, Tree.empty.put (Tree.home ++ ["test.webm"]) (.file [7]), 3, 40⟩
    let boundary := " a=b:?"
    let part : Part := ⟨"a\";b", none, none, Bytes.ofString "x\r\n-- a=b:\r"⟩
    let bytes := encode boundary none [([32], part)] [45]
    let form : Request :=
      ⟨"/up", [⟨"Content-Type", Bytes.ofString (contentTypeOf boundary)⟩,
        ⟨"content-length", Bytes.ofString "83"⟩],
        Pieces.schedule [(9, bytes.take 4), (0, []), (29991, bytes.drop 4)] ++ [⟨0, .hang⟩]⟩
    let raw : Request :=
      .declaring "/" "video/webm" "11" (Pieces.schedule [(0, part.data ++ [8])])
    ∃ reply, (g.dispatch form).reply = some reply ∧ (g.dispatch raw).reply = some reply ∧
      (g.dispatch form).ingest.tree = (g.dispatch raw).ingest.tree ∧
      (g.dispatch form).ingest.counter = (g.dispatch raw).ingest.counter := by
  intro config g boundary part bytes form raw
  have hb : checkBoundary boundary = .ok () := by decide +kernel
  have hpart : part.Writable boundary := by decide +kernel
  have htype : form.headers.Carry "content-type" (contentTypeOf boundary) := by
    refine ⟨[], _, _, rfl, ⟨by decide +kernel, rfl⟩, ?_⟩
    intro other hother bytes hcarry
    rw [List.mem_singleton.mp hother] at hcarry
    exact absurd hcarry.1 (by decide +kernel)
  have hformBody : Arrives g.config.readTimeout g.clock form.body bytes :=
    ⟨[(9, bytes.take 4), (0, []), (29991, bytes.drop 4)], _, rfl, by decide +kernel,
      ⟨by decide +kernel, by decide +kernel, by decide +kernel, by decide +kernel⟩⟩
  have hrawBody : Arrives g.config.readTimeout g.clock raw.body part.data :=
    ⟨[(0, part.data ++ [8])], [], rfl, by decide +kernel,
      ⟨by decide +kernel, by decide +kernel, by decide +kernel, by decide +kernel⟩⟩
  exact dispatch_form_eq_raw hb rfl hpart (by decide +kernel) (by simp) (by simp) (by decide +kernel)
    htype (by decide +kernel) (by decide +kernel) hformBody hrawBody

end Upload

end LiveIngest
