import LiveIngest.Proofs.Encoding
import LiveIngest.Proofs.Names

/-!
# Which boundary is found

The boundary of a form is a parameter of its content type, and there are two ways to cut a parameter list:
`splitParams` minds quotes, the search for the boundary cuts at every `;`.  A quoted value may hold a `;`, so
they can come to different boundaries.  How far apart are they?

1. **Specification.**  `ContentType` is a media type and any parameters, each with a bare or a quoted value,
   and `ContentType.text` is how that is written.  What it announces is the value of its first parameter of
   that name, `announced?`.

2. **Pieces and fragments.**  Cutting with an eye on the quotes gives the parameters back, so that search
   finds what is announced.  Cutting at every `;` cuts those pieces again (`splitOn_eq_flatMap`): the search
   goes through the fragments of one parameter after the other (`boundaryOf?_text`).

3. **The crux.**  The first fragment of a parameter has its name and the beginning of its value; the others
   are from inside the quotes and may pass for parameters of their own (`Parameter.heard?_of_isBoundary`,
   `Parameter.heard?_eq_decoy?`).  What is found has no `;` in it, so a boundary that is cut is lost, and one
   behind a fragment that passes for it is overlooked.

`boundary_of_parameters` says when the search finds what is announced: as long as nothing of the kind is
met, in particular if no value has a `;`.  A quoted `;` is enough for a wrong boundary
(`quoted_separator_cuts`).
-/

namespace LiveIngest

namespace Text

/-! ## Cutting at every separator -/

section

variable {p : Char → Bool}

/-- A text without separators in front is a part of the first piece. -/
theorem exists_splitOn_append {a : List Char} (ha : ∀ c ∈ a, p c = false) (b : List Char) :
    ∃ piece rest, splitOn p (a ++ b) = (a ++ piece) :: rest := by
  induction a with
  | nil => exact List.exists_cons_of_ne_nil (splitOn_ne_nil p b)
  | cons c a ih =>
    obtain ⟨piece, rest, hab⟩ := ih fun d hd => ha d (List.mem_cons_of_mem _ hd)
    refine ⟨piece, rest, ?_⟩
    rw [List.cons_append, splitOn, if_neg (by rw [ha c List.mem_cons_self]; exact Bool.false_ne_true), hab,
      extendHead]
    rfl

/-- Pieces with separators between them are cut one by one. -/
theorem splitOn_join {glue : Char} (hglue : p glue = true) {ps : List (List Char)} (hne : ps ≠ []) :
    splitOn p (join [glue] ps) = ps.flatMap (splitOn p) := by
  induction ps with
  | nil => exact absurd rfl hne
  | cons piece rest ih =>
    cases rest with
    | nil => rw [List.flatMap_singleton]; rfl
    | cons next rest =>
      rw [join_cons_cons, List.append_assoc, List.singleton_append, splitOn_append_cons _ hglue,
        ih (List.cons_ne_nil _ _), ← List.flatMap_cons]

end

/-- Cutting at every `;` cuts the pieces of a parameter list once more. -/
theorem splitOn_eq_flatMap (s : List Char) :
    splitOn (· = ';') s = (splitParams s).flatMap (splitOn (· = ';')) := by
  have hglue : decide (';' = ';') = true := rfl
  have hjoin := splitOn_join (p := (· = ';')) hglue (splitFrom_ne_nil .outside s)
  rwa [join_splitFrom] at hjoin

/-! ## Pieces -/

/-- A text without separators and quotes is a piece. -/
theorem isPiece_of_forall {s : List Char} (hs : ∀ c ∈ s, c ≠ ';' ∧ c ≠ '"') : IsPiece s := by
  induction s with
  | nil => exact ⟨rfl, rfl⟩
  | cons c r ih =>
    obtain ⟨hc, hquote⟩ := hs c List.mem_cons_self
    have hsingle : IsPiece [c] := by
      have hnext : Quoting.outside.next c = .outside := by rw [Quoting.next, if_neg hquote]
      refine ⟨?_, hnext⟩
      rw [splitFrom, if_neg fun h => hc h.1]
      rfl
    exact hsingle.append (ih fun d hd => hs d (List.mem_cons_of_mem _ hd))

/-! ## What reading a value keeps -/

/-- A value that is not quoted is read as it stands. -/
theorem unquote_of_not_mem {s : List Char} (hs : '"' ∉ s) : unquote s = s := by
  have hnone : enclosed? s = none := by
    cases s with
    | nil => rfl
    | cons c r =>
      have hc : c ≠ '"' := fun h => hs (h ▸ List.mem_cons_self)
      unfold enclosed?
      split
      · rename_i heq
        exact absurd (List.cons.inj heq).1 hc
      · rfl
  rw [unquote, hnone]

/-- Taking backslashes away makes no characters. -/
theorem mem_of_mem_unescape {c : Char} {s : List Char} (h : c ∈ unescape s) : c ∈ s := by
  fun_induction unescape s with
  | case1 => exact h
  | case2 => exact absurd h List.not_mem_nil
  | case3 d r ih =>
    rcases List.mem_cons.mp h with rfl | h
    · exact List.mem_cons_of_mem _ List.mem_cons_self
    · exact List.mem_cons_of_mem _ (List.mem_cons_of_mem _ (ih h))
  | case4 d r _ _ ih =>
    rcases List.mem_cons.mp h with rfl | h
    · exact List.mem_cons_self
    · exact List.mem_cons_of_mem _ (ih h)

/-- Reading a value makes no characters. -/
theorem mem_of_mem_unquote {c : Char} {s : List Char} (h : c ∈ unquote s) : c ∈ s := by
  rw [unquote] at h
  split at h
  · rename_i inner hinner
    unfold enclosed? at hinner
    split at hinner
    · rename_i r
      split at hinner
      · obtain rfl := Option.some.inj hinner
        exact List.mem_cons_of_mem _ (List.mem_of_mem_dropLast (mem_of_mem_unescape h))
      · cases hinner
    · cases hinner
  · exact h

/-- Escaping adds backslashes only, and so no separators. -/
theorem mem_of_mem_escape {c : Char} {s : List Char} (h : c ∈ escape s) : c = '\\' ∨ c ∈ s := by
  induction s with
  | nil => exact Or.inr h
  | cons d r ih =>
    rw [escape] at h
    split at h
    · rcases List.mem_cons.mp h with rfl | h
      · exact Or.inl rfl
      · rcases List.mem_cons.mp h with rfl | h
        · exact Or.inr List.mem_cons_self
        · exact (ih h).imp_right (List.mem_cons_of_mem _)
    · rcases List.mem_cons.mp h with rfl | h
      · exact Or.inr List.mem_cons_self
      · exact (ih h).imp_right (List.mem_cons_of_mem _)

end Text

namespace Form

open LiveIngest.Text

/-! ## Content types -/

/-- The characters of names and of bare values: neither blanks nor separators nor quotes. -/
def isBare (c : Char) : Bool := !isBlank c && c != ';' && c != '"'

/-- A parameter of a content type: a name and a value, bare or quoted, with blanks around. -/
structure Parameter where
  lead : List Char
  name : List Char
  quoted : Bool
  value : List Char
  trail : List Char
  blank : ∀ c ∈ lead ++ trail, isBlank c = true
  token : ∀ c ∈ name, isBare c = true ∧ c ≠ '='
  bare : quoted = false → ∀ c ∈ value, isBare c = true

namespace Parameter

/-- The value as it is written. -/
def written (p : Parameter) : List Char := if p.quoted then quote p.value else p.value

/-- The parameter as it is written. -/
def text (p : Parameter) : List Char := p.lead ++ p.name ++ '=' :: (p.written ++ p.trail)

/-- Whether this is the parameter that announces the boundary. -/
def isBoundary (p : Parameter) : Bool := sameFolded p.name "boundary".toList

/-- The pieces that cutting at every `;` makes of a parameter. -/
def fragments (p : Parameter) : List (List Char) := splitOn (· = ';') p.text

/-- The boundary that its fragments pass for, if one of them does. -/
def heard? (p : Parameter) : Option (List Char) := p.fragments.findSome? boundaryValue?

/-- The same without the first fragment: what stands inside the quotes. -/
def decoy? (p : Parameter) : Option (List Char) := (p.fragments.drop 1).findSome? boundaryValue?

end Parameter

/-- A media type and parameters. -/
structure ContentType where
  media : List Char
  params : List Parameter
  plain : ∀ c ∈ media, c ≠ ';' ∧ c ≠ '"'

namespace ContentType

/-- The content type as it is written. -/
def text (t : ContentType) : List Char := join [';'] (t.media :: t.params.map Parameter.text)

end ContentType

/-- The value of the first parameter of that name. -/
def announced? (ps : List Parameter) : Option (List Char) :=
  (ps.find? Parameter.isBoundary).map Parameter.value

/-- The search for a boundary among the pieces that are cut with an eye on the quotes. -/
def boundaryParam? (contentType : String) : Option String :=
  ((splitParams contentType.toList).drop 1).findSome? boundaryValue? |>.map String.ofList

/-! ## Pieces of a content type -/

namespace Parameter

variable {p : Parameter}

/-- Either the value is quoted, or it has nothing in it that would have to be. -/
theorem written_cases (p : Parameter) :
    (p.quoted = true ∧ p.written = quote p.value) ∨
      (p.written = p.value ∧ ∀ c ∈ p.value, isBlank c = false ∧ c ≠ ';' ∧ c ≠ '"') := by
  cases hquoted : p.quoted with
  | true => exact Or.inl ⟨rfl, by rw [written, hquoted, if_pos rfl]⟩
  | false =>
    refine Or.inr ⟨by rw [written, hquoted, if_neg Bool.false_ne_true], fun c hc => ?_⟩
    have hbare := p.bare hquoted c hc
    simpa [isBare, and_assoc] using hbare

/-- In front of the value there is no separator, no quote and no other `=`. -/
theorem front (p : Parameter) :
    ∀ c ∈ p.lead ++ p.name, c ≠ ';' ∧ c ≠ '"' ∧ c ≠ '=' := by
  intro c hc
  rcases List.mem_append.mp hc with hc | hc
  · have hblank := p.blank c (List.mem_append_left _ hc)
    refine ⟨?_, ?_, ?_⟩ <;> (rintro rfl; exact absurd hblank (by decide))
  · obtain ⟨hbare, heq⟩ := p.token c hc
    have hbare : (isBlank c = false ∧ c ≠ ';') ∧ c ≠ '"' := by simpa [isBare] using hbare
    exact ⟨hbare.1.2, hbare.2, heq⟩

/-- Nor is there any in the blanks behind the value. -/
theorem trail_ne (p : Parameter) : ∀ c ∈ p.trail, c ≠ ';' ∧ c ≠ '"' := by
  intro c hc
  have hblank := p.blank c (List.mem_append_right _ hc)
  refine ⟨?_, ?_⟩ <;> (rintro rfl; exact absurd hblank (by decide))

/-- A parameter is one piece, quotes and all. -/
theorem isPiece_text (p : Parameter) : IsPiece p.text := by
  have hfront : IsPiece (p.lead ++ p.name) :=
    isPiece_of_forall fun c hc => ⟨(p.front c hc).1, (p.front c hc).2.1⟩
  have hwritten : IsPiece p.written := by
    rcases p.written_cases with ⟨-, hquote⟩ | ⟨hbare, hvalue⟩
    · rw [hquote]
      exact isPiece_quote p.value
    · rw [hbare]
      exact isPiece_of_forall fun c hc => (hvalue c hc).2
  exact hfront.append (IsPiece.append (s := ['=']) (by decide)
    (hwritten.append (isPiece_of_forall p.trail_ne)))

/-- A parameter is recognized by what stands in front of its value. -/
theorem boundaryValue?_front (p : Parameter) (v : List Char) :
    boundaryValue? (p.lead ++ p.name ++ '=' :: v) =
      if p.isBoundary then some (unquote (trim v)) else none := by
  have hcut : cut '=' (p.lead ++ p.name ++ '=' :: v) = some (p.lead ++ p.name, v) :=
    cut_eq_some_iff.mpr ⟨rfl, fun h => (p.front _ h).2.2 rfl⟩
  have htrim : trim (p.lead ++ p.name) = p.name := by
    have hname : ∀ c ∈ p.name, isBlank c = false := by
      intro c hc
      have hbare := (p.token c hc).1
      simp only [isBare, Bool.and_eq_true, Bool.not_eq_true'] at hbare
      exact hbare.1.1
    rw [trim_blanks_append fun c hc => p.blank c (List.mem_append_left _ hc)]
    exact trim_eq_self (fun c hc => hname c (List.mem_of_mem_head? hc))
      fun c hc => hname c (List.mem_of_mem_getLast? hc)
  simp only [boundaryValue?, hcut, htrim, isBoundary]
  rfl

/-- The value of a parameter is read back. -/
theorem unquote_written (p : Parameter) : unquote (trim (p.written ++ p.trail)) = p.value := by
  rw [trim_append_blanks fun c hc => p.blank c (List.mem_append_right _ hc)]
  rcases p.written_cases with ⟨-, hquote⟩ | ⟨hbare, hvalue⟩
  · rw [hquote, trim_quote, unquote_quote]
  · rw [hbare, trim_eq_self (fun c hc => (hvalue c (List.mem_of_mem_head? hc)).1)
      fun c hc => (hvalue c (List.mem_of_mem_getLast? hc)).1]
    exact unquote_of_not_mem fun hmem => (hvalue _ hmem).2.2 rfl

/-- So a whole parameter is read as what it was written for. -/
theorem boundaryValue?_text (p : Parameter) :
    boundaryValue? p.text = if p.isBoundary then some p.value else none := by
  rw [text, boundaryValue?_front, unquote_written]

/-- A parameter whose value has no separator is not cut. -/
theorem fragments_of_not_mem (h : ';' ∉ p.value) : p.fragments = [p.text] := by
  refine splitOn_of_not_mem _ _ fun c hc => decide_eq_false ?_
  rintro rfl
  simp only [text, List.mem_append, List.mem_cons] at hc
  rw [← List.mem_append] at hc
  rcases hc with hc | hc | hc | hc
  · exact (p.front _ hc).1 rfl
  · exact absurd hc (by decide)
  · rcases p.written_cases with ⟨-, hquote⟩ | ⟨hbare, -⟩
    · rw [hquote, quote, List.mem_cons, List.mem_append, List.mem_singleton] at hc
      rcases hc with hc | hc | hc
      · exact absurd hc (by decide)
      · exact (mem_of_mem_escape hc).elim (by decide) h
      · exact absurd hc (by decide)
    · exact h (hbare ▸ hc)
  · exact (p.trail_ne _ hc).1 rfl

end Parameter

/-- A boundary that is found in a fragment has no separator in it. -/
theorem not_mem_of_boundaryValue? {piece v : List Char} (hpiece : ';' ∉ piece)
    (h : boundaryValue? piece = some v) : ';' ∉ v := by
  unfold boundaryValue? at h
  split at h
  · rename_i key value hcut
    split at h
    · obtain rfl := Option.some.inj h
      intro hmem
      refine hpiece ?_
      rw [(cut_eq_some_iff.mp hcut).1]
      exact List.mem_append_right _ (List.mem_cons_of_mem _ (Upload.mem_of_mem_trim (mem_of_mem_unquote hmem)))
    · cases h
  · cases h

namespace Parameter

variable {p : Parameter}

/-- The first fragment has the name and the beginning of the value. -/
theorem exists_fragments (p : Parameter) :
    ∃ piece rest, p.fragments = (p.lead ++ p.name ++ '=' :: piece) :: rest := by
  -- up to the value nothing is cut
  have hfront : ∀ c ∈ p.lead ++ p.name ++ ['='], decide (c = ';') = false := by
    intro c hc
    rcases List.mem_append.mp hc with hc | hc
    · exact decide_eq_false (p.front c hc).1
    · rw [List.mem_singleton.mp hc]
      decide
  obtain ⟨piece, rest, hsplit⟩ := exists_splitOn_append hfront (p.written ++ p.trail)
  refine ⟨piece, rest, ?_⟩
  rw [List.append_assoc _ ['='], List.append_assoc _ ['=']] at hsplit
  exact hsplit

/-- A boundary is found in the first fragment, and is the one that was written unless that was cut. -/
theorem heard?_of_isBoundary (hb : p.isBoundary = true) :
    ∃ v, p.heard? = some v ∧ (v = p.value ↔ ';' ∉ p.value) := by
  obtain ⟨piece, rest, hfragments⟩ := p.exists_fragments
  have hfirst : boundaryValue? (p.lead ++ p.name ++ '=' :: piece) = some (unquote (trim piece)) := by
    rw [boundaryValue?_front, if_pos hb]
  refine ⟨unquote (trim piece), ?_, fun hsame => ?_, fun hnone => ?_⟩
  · rw [heard?, hfragments, List.findSome?_cons, hfirst]
  · -- what is found has no separator in it
    have hpiece : ';' ∉ p.lead ++ p.name ++ '=' :: piece := fun hmem => by
      have hfragment : p.lead ++ p.name ++ '=' :: piece ∈ p.fragments := by
        rw [hfragments]
        exact List.mem_cons_self
      exact absurd (not_mem_of_mem_splitOn _ _ _ hfragment _ hmem) (by decide)
    rw [← hsame]
    exact not_mem_of_boundaryValue? hpiece hfirst
  · have hwhole := p.boundaryValue?_text
    have hsingle := fragments_of_not_mem hnone
    rw [hfragments, List.cons.injEq] at hsingle
    rw [← hsingle.1, hfirst, if_pos hb] at hwhole
    exact Option.some.inj hwhole

/-- Any other parameter is heard as what its quotes hide. -/
theorem heard?_eq_decoy? (hb : p.isBoundary = false) : p.heard? = p.decoy? := by
  obtain ⟨piece, rest, hfragments⟩ := p.exists_fragments
  have hfirst : boundaryValue? (p.lead ++ p.name ++ '=' :: piece) = none := by
    rw [boundaryValue?_front, hb, if_neg Bool.false_ne_true]
  rw [heard?, decoy?, hfragments, List.findSome?_cons, hfirst]
  rfl

end Parameter

namespace ContentType

variable (t : ContentType)

/-- The parameters are the pieces behind the media type. -/
theorem splitParams_text : splitParams t.text = t.media :: t.params.map Parameter.text := by
  refine splitParams_join (List.cons_ne_nil _ _) fun piece hpiece => ?_
  rcases List.mem_cons.mp hpiece with rfl | hpiece
  · exact isPiece_of_forall t.plain
  · obtain ⟨p, -, rfl⟩ := List.mem_map.mp hpiece
    exact p.isPiece_text

/-- With an eye on the quotes, what is announced is found. -/
theorem boundaryParam?_text :
    boundaryParam? (String.ofList t.text) = (announced? t.params).map String.ofList := by
  rw [boundaryParam?, String.toList_ofList, splitParams_text, List.drop_one, List.tail_cons,
    List.findSome?_map, announced?]
  congr 1
  induction t.params with
  | nil => rfl
  | cons p rest ih =>
    rw [List.findSome?_cons, Function.comp_apply, p.boundaryValue?_text, List.find?_cons]
    cases p.isBoundary with
    | true => rfl
    | false => exact ih

/-- Without, the search goes through the fragments of each parameter. -/
theorem boundaryOf?_text :
    boundaryOf? (String.ofList t.text) = (t.params.findSome? Parameter.heard?).map String.ofList := by
  have hmedia : splitOn (· = ';') t.media = [t.media] :=
    splitOn_of_not_mem _ _ fun c hc => decide_eq_false (t.plain c hc).1
  rw [boundaryOf?, String.toList_ofList, splitOn_eq_flatMap, splitParams_text, List.flatMap_cons, hmedia,
    List.singleton_append, List.drop_one, List.tail_cons, List.flatMap_map, ← List.head?_filterMap,
    List.filterMap_flatMap, List.head?_flatMap]
  simp only [List.head?_filterMap]
  rfl

end ContentType

/-! ## The boundary that is found -/

/-- Nothing comes between the search and what is announced: up to the boundary no fragment passes for one,
or the first that does says the same, and the boundary is not cut. -/
inductive Undisturbed : List Parameter → Prop
  | nil : Undisturbed []
  | whole {p : Parameter} {rest : List Parameter} (hb : p.isBoundary = true) (hvalue : ';' ∉ p.value) :
      Undisturbed (p :: rest)
  | echo {p : Parameter} {rest : List Parameter} {v : List Char} (hb : p.isBoundary = false)
      (hdecoy : p.decoy? = some v) (hsame : announced? rest = some v) : Undisturbed (p :: rest)
  | other {p : Parameter} {rest : List Parameter} (hb : p.isBoundary = false) (hdecoy : p.decoy? = none)
      (hrest : Undisturbed rest) : Undisturbed (p :: rest)

/-- The two searches come to the same just where the second is undisturbed.  By induction on the
parameters, with a case for what the first of them is heard as. -/
theorem findSome?_heard?_eq_iff {ps : List Parameter} :
    ps.findSome? Parameter.heard? = announced? ps ↔ Undisturbed ps := by
  induction ps with
  | nil => exact iff_of_true rfl .nil
  | cons p rest ih =>
    cases hb : p.isBoundary with
    | true =>
      obtain ⟨v, hv, hwhole⟩ := p.heard?_of_isBoundary hb
      have hannounced : announced? (p :: rest) = some p.value := by
        rw [announced?, List.find?_cons_of_pos hb, Option.map_some]
      rw [List.findSome?_cons, hv, hannounced, Option.some.injEq, hwhole]
      refine ⟨.whole hb, fun h => ?_⟩
      cases h with
      | whole _ hvalue => exact hvalue
      | echo hno => exact absurd (hb.symm.trans hno) (by decide)
      | other hno => exact absurd (hb.symm.trans hno) (by decide)
    | false =>
      have hannounced : announced? (p :: rest) = announced? rest := by
        rw [announced?, List.find?_cons_of_neg (by rw [hb]; exact Bool.false_ne_true), announced?]
      rw [List.findSome?_cons, p.heard?_eq_decoy? hb, hannounced]
      cases hdecoy : p.decoy? with
      | none =>
        rw [ih]
        refine ⟨.other hb hdecoy, fun h => ?_⟩
        cases h with
        | whole hyes => exact absurd (hb.symm.trans hyes) (by decide)
        | echo _ hsome => exact absurd (hdecoy.symm.trans hsome) (by simp)
        | other _ _ hrest => exact hrest
      | some v =>
        refine ⟨fun h => .echo hb hdecoy h.symm, fun h => ?_⟩
        cases h with
        | whole hyes => exact absurd (hb.symm.trans hyes) (by decide)
        | echo _ hsome hsame => rw [← hdecoy, hsome, hsame]
        | other _ hnone => exact absurd (hdecoy.symm.trans hnone) (by simp)

/-- Values without separators disturb nothing. -/
theorem undisturbed_of_forall {ps : List Parameter} (h : ∀ p ∈ ps, ';' ∉ p.value) : Undisturbed ps := by
  induction ps with
  | nil => exact .nil
  | cons p rest ih =>
    have hvalue := h p List.mem_cons_self
    cases hb : p.isBoundary with
    | true => exact .whole hb hvalue
    | false =>
      have hdecoy : p.decoy? = none := by
        rw [Parameter.decoy?, Parameter.fragments_of_not_mem hvalue]
        rfl
      exact .other hb hdecoy (ih fun q hq => h q (List.mem_cons_of_mem _ hq))

/-- Where nothing is quoted away, both ways to cut come to the same boundary. -/
theorem boundaryOf?_eq_boundaryParam? {contentType : String}
    (h : ∀ piece ∈ splitParams contentType.toList, ';' ∉ piece) :
    boundaryOf? contentType = boundaryParam? contentType := by
  have hpieces : splitOn (· = ';') contentType.toList = splitParams contentType.toList := by
    rw [splitOn_eq_flatMap]
    calc (splitParams contentType.toList).flatMap (splitOn (· = ';'))
        = (splitParams contentType.toList).flatMap fun piece => [piece] :=
          List.flatMap_congr fun piece hpiece => splitOn_of_not_mem _ _ fun c hc =>
            decide_eq_false fun heq => h piece hpiece (heq ▸ hc)
      _ = splitParams contentType.toList := List.flatMap_singleton' _
  rw [boundaryOf?, hpieces, boundaryParam?]

/-- Which boundary is found in a content type.  Cut with an eye on the quotes it falls into its media type
and its parameters, and the boundary that is announced is found.  The search cuts the parameters into
fragments and takes the first that passes for a boundary; that is the one that is announced if and only if
nothing disturbs it, as is the case if no value has a `;`. -/
theorem boundary_of_parameters (t : ContentType) :
    splitParams t.text = t.media :: t.params.map Parameter.text ∧
    boundaryParam? (String.ofList t.text) = (announced? t.params).map String.ofList ∧
    boundaryOf? (String.ofList t.text) = (t.params.findSome? Parameter.heard?).map String.ofList ∧
    (boundaryOf? (String.ofList t.text) = (announced? t.params).map String.ofList ↔
      Undisturbed t.params) ∧
    ((∀ p ∈ t.params, ';' ∉ p.value) → Undisturbed t.params) := by
  refine ⟨t.splitParams_text, t.boundaryParam?_text, t.boundaryOf?_text, ?_, undisturbed_of_forall⟩
  rw [t.boundaryOf?_text, ← findSome?_heard?_eq_iff]
  exact (Option.map_injective fun _ _ => String.ofList_inj.mp).eq_iff

/-- A quoted value in front of the boundary, with a `;` in it: what follows inside the quotes is taken for
the boundary. -/
theorem quoted_separator_cuts :
    ∃ t : ContentType,
      t.text = "multipart/form-data; charset=\"x; boundary=evil\"; boundary=good".toList ∧
      announced? t.params = some "good".toList ∧
      boundaryParam? (String.ofList t.text) = some "good" ∧
      boundaryOf? (String.ofList t.text) = some "evil\"" := by
  let charset : Parameter :=
    { lead := [' ']
      name := "charset".toList
      quoted := true
      value := "x; boundary=evil".toList
      trail := []
      blank := List.all_eq_true.mp (by decide)
      token := List.all_iff_forall_prop.mp (by decide +kernel)
      bare := nofun }
  let boundary : Parameter :=
    { lead := [' ']
      name := "boundary".toList
      quoted := false
      value := "good".toList
      trail := []
      blank := List.all_eq_true.mp (by decide)
      token := List.all_iff_forall_prop.mp (by decide +kernel)
      bare := fun _ => List.all_eq_true.mp (by decide +kernel) }
  let t : ContentType :=
    { media := "multipart/form-data".toList
      params := [charset, boundary]
      plain := List.all_iff_forall_prop.mp (by decide +kernel) }
  exact ⟨t, by decide +kernel, by decide +kernel, by decide +kernel, by decide +kernel⟩

end Form

end LiveIngest
