import LiveIngest.Proofs.Encoding
import LiveIngest.Proofs.Planning

/-!
# What a label can name

A client that names its uploads itself sends a label with each, and the label may say anything.  This file says
which file names come out of that, and that no two uploads and no part files get in each other's way by their
names.

1. **Taking labels apart.**  Only what is behind the last separator counts (`fileNameOf_append`), and what is left
   of it is a file name in the sense of `IsFileName`, which is read off without looking at the label.  Such names
   are exactly those that stand for themselves (`fileNameOf_eq_self_iff`).

2. **Reserved names.**  The test of a name's shape and the making of part file names are two functions that know
   nothing of each other; `isPartName_iff` says that the one tells exactly what the other makes.  So a label is
   accepted if its name is neither the raw output file nor the part file name of anything
   (`modeOf_eq_addressed_iff`).

`labels_apart` puts these together.
-/

namespace LiveIngest.Upload

open LiveIngest.Storage
open LiveIngest.Text

/-! ## Taking labels apart -/

/-- What is left of a label: a name without separators of either style and without blanks around it, which is
not empty and no dot name. -/
structure IsFileName (name : String) : Prop where
  ne_empty : name ≠ ""
  ne_dot : name ≠ "."
  ne_dots : name ≠ ".."
  single : '/' ∉ name.toList ∧ '\\' ∉ name.toList
  front : ∀ c ∈ name.toList.head?, isBlank c = false
  back : ∀ c ∈ name.toList.getLast?, isBlank c = false

/-- Labels may come with the paths of either style. -/
theorem isSeparator_iff {c : Char} : isSeparator c = true ↔ c = '/' ∨ c = '\\' := by simp [isSeparator]

/-- The same of a whole text. -/
theorem isSeparator_eq_false_iff {s : List Char} :
    (∀ c ∈ s, isSeparator c = false) ↔ '/' ∉ s ∧ '\\' ∉ s := by
  simp only [← Bool.not_eq_true, isSeparator_iff, not_or]
  exact ⟨fun h => ⟨fun hmem => (h _ hmem).1 rfl, fun hmem => (h _ hmem).2 rfl⟩,
    fun h c hc => ⟨fun he => h.1 (he ▸ hc), fun he => h.2 (he ▸ hc)⟩⟩

/-- What is in front of a separator does not matter. -/
theorem fileNameOf_append {front label : String} {s : Char} (hs : isSeparator s = true) :
    fileNameOf (front ++ String.singleton s ++ label) = fileNameOf label := by
  have hlist : (front ++ String.singleton s ++ label).toList = front.toList ++ s :: label.toList := by
    simp [String.toList_append]
  have hlast : (splitOn isSeparator (front ++ String.singleton s ++ label).toList).getLastD [] =
      (splitOn isSeparator label.toList).getLastD [] := by
    rw [hlist, splitOn_append_cons _ hs, List.getLastD_eq_getLast?, List.getLastD_eq_getLast?,
      List.getLast?_append_of_ne_nil _ (splitOn_ne_nil _ _)]
  rw [fileNameOf, hlast, fileNameOf]

/-- What is left of a label is a file name, whatever the label was. -/
theorem isFileName_of_fileNameOf {label name : String} (h : fileNameOf label = .ok name) :
    IsFileName name := by
  obtain ⟨hname, hempty, hdot, hdots⟩ := fileNameOf_eq_ok_iff.mp h
  refine ⟨?_, ?_, ?_, isSeparator_eq_false_iff.mp (not_isSeparator_of_fileNameOf h), ?_, ?_⟩
  · rintro rfl
    exact hempty rfl
  · rintro rfl
    exact hdot rfl
  · rintro rfl
    exact hdots rfl
  · rw [hname]
    exact fun c hc => head?_trim hc
  · rw [hname]
    exact fun c hc => getLast?_trim hc

/-- The names that stand for themselves. -/
theorem fileNameOf_eq_self_iff {name : String} : fileNameOf name = .ok name ↔ IsFileName name := by
  refine ⟨isFileName_of_fileNameOf, fun h => fileNameOf_eq_ok_iff.mpr ⟨?_, ?_, ?_, ?_⟩⟩
  · rw [splitOn_of_not_mem _ _ (isSeparator_eq_false_iff.mpr h.single)]
    exact (trim_eq_self h.front h.back).symm
  · exact fun he => h.ne_empty (String.toList_injective he)
  · exact fun he => h.ne_dot (String.toList_injective he)
  · exact fun he => h.ne_dots (String.toList_injective he)

/-- So it may stand in a path. -/
theorem IsFileName.isComponent {name : String} (h : IsFileName name) : Path.IsComponent name :=
  isComponent_of_fileNameOf (fileNameOf_eq_self_iff.mpr h)

/-! ## Reserved names -/

section

variable {c : Config} {path : String} {headers : Http.Headers} {name : String}

/-- A label is accepted if it names neither the raw output file nor a part file. -/
theorem modeOf_eq_addressed_iff :
    modeOf c path headers = .ok (.addressed name) ↔
      c.dashMode = .contentId ∧ chunkedPath.toList <+: path.toList ∧
        (∃ label, headers.contentId? = some label ∧ fileNameOf label = .ok name) ∧
        name ≠ c.rawOutputFile ∧ ∀ other, name ≠ partName other := by
  have hshape : isPartName name = false ↔ ∀ other, name ≠ partName other := by
    rw [← Bool.not_eq_true, isPartName_iff, not_exists]
  constructor
  · intro h
    obtain ⟨hdash, hlabel, hraw, hpart⟩ := modeOf_addressed h
    refine ⟨hdash, ?_, hlabel, hraw, hshape.mp hpart⟩
    -- what is sent to other paths is no chunk
    rw [← List.isPrefixOf_iff_prefix]
    unfold modeOf at h
    split at h
    · assumption
    · rcases wholeMode_ok h with h | ⟨boundary, -, h⟩ <;> cases h
  · rintro ⟨hdash, hpath, ⟨label, hlabel, hname⟩, hraw, hpart⟩
    rw [modeOf, if_pos (List.isPrefixOf_iff_prefix.mpr hpath)]
    simp [chunkedMode, hdash, hlabel, hname, hraw, hshape.mpr hpart]

/-- The part file of an accepted label has the part file name of its name. -/
theorem fileName?_partPath (h : IsFileName name) :
    Path.fileName? (partPath (c.destination name)) = some (partName name) := by
  rw [Config.destination, partPath_join h.isComponent,
    Path.fileName?_join (isComponent_partName h.isComponent)]

end

/-! ## Labels -/

/-- Whatever directory a label seems to lead through, it stands for the same file name, and that is a name
without separators and without blanks around it, which is not empty, no dot name, and stands for itself.  A name
that is accepted is neither the raw output file nor the part file of one that is accepted, and different names
have different part files. -/
theorem labels_apart :
    (∀ (front label : String) (s : Char), s = '/' ∨ s = '\\' →
      fileNameOf (front ++ String.singleton s ++ label) = fileNameOf label) ∧
    (∀ label name, fileNameOf label = .ok name → IsFileName name ∧ fileNameOf name = .ok name) ∧
    (∀ name, IsFileName name → fileNameOf name = .ok name) ∧
    ∀ (c : Config) (path path' : String) (headers headers' : Http.Headers) (a b : String),
      modeOf c path headers = .ok (.addressed a) → modeOf c path' headers' = .ok (.addressed b) →
        (a ≠ c.rawOutputFile ∧ b ≠ c.rawOutputFile) ∧ a ≠ partName b ∧ a ≠ partName a ∧
          (partName a = partName b → a = b) ∧
          Path.fileName? (c.destination a) = some a ∧
          Path.fileName? (partPath (c.destination a)) = some (partName a) := by
  refine ⟨fun front label s hs => fileNameOf_append (isSeparator_iff.mpr hs), fun label name h => ?_,
    fun name => fileNameOf_eq_self_iff.mpr, fun c path path' headers headers' a b ha hb => ?_⟩
  · have hname := isFileName_of_fileNameOf h
    exact ⟨hname, fileNameOf_eq_self_iff.mpr hname⟩
  · obtain ⟨-, -, ⟨label, -, hlabel⟩, haraw, hapart⟩ := modeOf_eq_addressed_iff.mp ha
    obtain ⟨-, -, -, hbraw, -⟩ := modeOf_eq_addressed_iff.mp hb
    have hname := isFileName_of_fileNameOf hlabel
    exact ⟨⟨haraw, hbraw⟩, hapart b, partName_ne_self a, partName_injective,
      Path.fileName?_join hname.isComponent, fileName?_partPath hname⟩

/-- At the edge of what is reserved: `.part` is a name like any other, while `..part` is the part file name of the
empty name, and blanks behind a separator do not hide it. -/
theorem labels_apart_edge :
    let c : Config := { dashMode := .contentId }
    let labelled (label : String) : Http.Headers := [⟨"X-Content-Id", Bytes.ofString label⟩]
    isSeparator '\\' = true ∧ fileNameOf ("C:" ++ String.singleton '\\' ++ " .part ") = fileNameOf " .part " ∧
      fileNameOf " .part " = .ok ".part" ∧ IsFileName ".part" ∧ fileNameOf ".part" = .ok ".part" ∧
      modeOf c "/dash/1" (labelled "../ .part\t") = .ok (.addressed ".part") ∧
      modeOf c "/dash/2" (labelled "a\\part") = .ok (.addressed "part") ∧
      modeOf c "/dash/3" (labelled "a/\\ ..part ") = .error (.reservedContentId "..part") ∧
      ".part" ≠ c.rawOutputFile ∧ ".part" ≠ partName "part" ∧
      (partName ".part" = partName "part" → ".part" = "part") ∧
      Path.fileName? (partPath (c.destination ".part")) = some "..part.part" := by
  intro c labelled
  obtain ⟨hfront, hback, hself, haccept⟩ := labels_apart
  have hlabel : fileNameOf " .part " = .ok ".part" := by decide +kernel
  have hname := (hback _ _ hlabel).1
  have ha : modeOf c "/dash/1" (labelled "../ .part\t") = .ok (.addressed ".part") := by decide +kernel
  have hb : modeOf c "/dash/2" (labelled "a\\part") = .ok (.addressed "part") := by decide +kernel
  have hreserved : modeOf c "/dash/3" (labelled "a/\\ ..part ") = .error (.reservedContentId "..part") := by
    decide +kernel
  obtain ⟨⟨hraw, -⟩, hpart, -, hinj, -, hpath⟩ := haccept c _ _ _ _ _ _ ha hb
  exact ⟨by decide, hfront "C:" " .part " '\\' (Or.inr rfl), hlabel, hname, hself _ hname, ha, hb, hreserved,
    hraw, hpart, hinj, hpath⟩

end LiveIngest.Upload
