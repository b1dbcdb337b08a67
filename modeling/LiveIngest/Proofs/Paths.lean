import LiveIngest.Storage.Path

/-!
# Paths of joined names

Everything that an upload writes is a directory joined with one name, or a sibling of such a path.
This file says what the operations on the text of paths do to these two.

`Path.IsComponent` is a name that comes to one component on disk and is not a dot name.
`components_join` takes a joined path apart again.  The last name of such a path is replaced in the
directory `dirOf`, whose text may have lost separators and `.` components at its end;
`components_dirOf` says that it has lost nothing else.

`dirOf` is a matter of text only: a path and its directory are the same to the walk, with or without
the separators, and a trailing `.` stays where it is.  So part files lie beside the files they
become, in whatever way the output directory was written.
-/

namespace LiveIngest.Text

/-- Extending the first piece leaves the others alone. -/
theorem extendHead_append (c : Char) {ps : List (List Char)} (qs : List (List Char))
    (h : ps ≠ []) : extendHead c (ps ++ qs) = extendHead c ps ++ qs := by
  cases ps with
  | nil => exact absurd rfl h
  | cons p r => rfl

/-- A separator between two texts separates their pieces. -/
theorem splitOn_append_cons (p : Char → Bool) {c : Char} (hc : p c = true) (b : List Char) :
    ∀ a : List Char, splitOn p (a ++ c :: b) = splitOn p a ++ splitOn p b
  | [] => by simp [splitOn, hc]
  | x :: a => by
    have ih := splitOn_append_cons p hc b a
    by_cases hx : p x = true
    · simp [splitOn, hx, ih]
    · simp [splitOn, hx, ih, extendHead_append _ _ (splitOn_ne_nil p a)]

/-- A text without separators is one piece. -/
theorem splitOn_of_not_mem (p : Char → Bool) :
    ∀ s : List Char, (∀ c ∈ s, p c = false) → splitOn p s = [s]
  | [], _ => rfl
  | x :: s, h => by
    have hx : p x = false := h x List.mem_cons_self
    have ih := splitOn_of_not_mem p s fun c hc => h c (List.mem_cons_of_mem x hc)
    simp [splitOn, hx, ih, extendHead]

/-- No piece of a text holds a separator. -/
theorem not_mem_of_mem_splitOn (p : Char → Bool) :
    ∀ (s piece : List Char), piece ∈ splitOn p s → ∀ c ∈ piece, p c = false
  | [], piece, h, c, hc => by
    rw [splitOn, List.mem_singleton] at h
    rw [h] at hc
    exact absurd hc List.not_mem_nil
  | x :: s, piece, h, c, hc => by
    have ih := not_mem_of_mem_splitOn p s
    rw [splitOn] at h
    split at h
    · rcases List.mem_cons.mp h with rfl | h
      · exact absurd hc List.not_mem_nil
      · exact ih piece h c hc
    · rename_i hx
      cases hs : splitOn p s with
      | nil => exact absurd hs (splitOn_ne_nil p s)
      | cons q qs =>
        rw [hs] at h ih
        rcases List.mem_cons.mp h with rfl | h
        · rcases List.mem_cons.mp hc with rfl | hc
          · simpa using hx
          · exact ih q List.mem_cons_self c hc
        · exact ih piece (List.mem_cons_of_mem q h) c hc

end LiveIngest.Text

namespace LiveIngest.Storage.Path

open LiveIngest.Text

/-! ## Components -/

/-- One component of a path that is not a dot name. -/
structure IsComponent (name : String) : Prop where
  ne_empty : name.toList ≠ []
  ne_dot : name.toList ≠ ['.']
  ne_dots : name.toList ≠ ['.', '.']
  no_slash : '/' ∉ name.toList

/-- The components of a path given as characters. -/
def pieces (s : List Char) : List String :=
  ((splitOn (· = '/') s).filter fun piece => !piece.isEmpty).map String.ofList

/-- The components of a path are the pieces of its characters. -/
theorem components_eq_pieces (path : String) : components path = pieces path.toList := rfl

/-- A slash divides a path into the components on both sides. -/
theorem pieces_append_slash (a b : List Char) : pieces (a ++ '/' :: b) = pieces a ++ pieces b := by
  rw [pieces, splitOn_append_cons _ (by simp) b a, List.filter_append, List.map_append]
  rfl

/-- No characters, no components. -/
theorem pieces_nil : pieces [] = [] := by decide

/-- A component is the only one of its text. -/
theorem IsComponent.pieces_eq {name : String} (h : IsComponent name) :
    pieces name.toList = [name] := by
  have hs : splitOn (· = '/') name.toList = [name.toList] := by
    refine splitOn_of_not_mem _ _ fun c hc => ?_
    have : c ≠ '/' := fun e => h.no_slash (e ▸ hc)
    simpa using this
  have hne : name.toList.isEmpty = false := by
    simpa using h.ne_empty
  rw [pieces, hs]
  simp [hne]

/-! ## Joined paths -/

/-- The text of a joined path in front of its last name: the directory, with one separator behind it
unless it is empty or has one. -/
def stem (dir : String) : List Char :=
  if dir.toList = [] ∨ dir.toList.getLast? = some '/' then dir.toList else dir.toList ++ ['/']

/-- A component is not an absolute path, so joining does not drop the directory. -/
theorem IsComponent.not_isAbsolute {name : String} (h : IsComponent name) :
    isAbsolute name = false := by
  cases hn : name.toList with
  | nil => exact absurd hn h.ne_empty
  | cons c r =>
    have hc : c ≠ '/' := fun e => h.no_slash (by rw [hn, e]; exact List.mem_cons_self)
    simp [isAbsolute, hn, hc]

/-- A joined path is the text of the directory and then the name. -/
theorem toList_join {dir name : String} (h : IsComponent name) :
    (join dir name).toList = stem dir ++ name.toList := by
  have hn : ¬isAbsolute name = true := by simp [h.not_isAbsolute]
  rw [join, if_neg hn, stem]
  split
  · rw [String.toList_append]
  · rw [String.toList_append, String.toList_append]
    rfl

/-- A stem is empty or ends in a separator. -/
theorem stem_eq_nil_or (dir : String) : stem dir = [] ∨ ∃ a, stem dir = a ++ ['/'] := by
  rw [stem]
  split
  · rename_i h
    rcases h with h | h
    · exact Or.inl h
    · obtain ⟨a, ha⟩ := List.getLast?_eq_some_iff.mp h
      exact Or.inr ⟨a, ha⟩
  · exact Or.inr ⟨dir.toList, rfl⟩

/-- The separator between them adds no component. -/
theorem pieces_stem (dir : String) : pieces (stem dir) = components dir := by
  rw [stem, components_eq_pieces]
  split
  · rfl
  · rw [pieces_append_slash, pieces_nil, List.append_nil]

/-- The components of a joined path are those of the directory and the name. -/
theorem components_join {dir name : String} (h : IsComponent name) :
    components (join dir name) = components dir ++ [name] := by
  rw [components_eq_pieces, toList_join h, ← pieces_stem dir]
  rcases stem_eq_nil_or dir with hs | ⟨a, hs⟩
  · rw [hs, List.nil_append, h.pieces_eq, pieces_nil, List.nil_append]
  · rw [hs, List.append_assoc, List.singleton_append, pieces_append_slash, h.pieces_eq,
      pieces_append_slash, pieces_nil, List.append_nil]

/-- A joined path is absolute exactly when its directory is. -/
theorem isAbsolute_join {dir name : String} (h : IsComponent name) :
    isAbsolute (join dir name) = isAbsolute dir := by
  cases hd : dir.toList with
  | nil =>
    have hs : stem dir = [] := by simp [stem, hd]
    have hj : (join dir name).toList = name.toList := by rw [toList_join h, hs, List.nil_append]
    have hn := h.not_isAbsolute
    rw [isAbsolute] at hn
    rw [isAbsolute, hj, hn, isAbsolute, hd]
    rfl
  | cons c r =>
    have hs : ∃ q, stem dir = c :: q := by
      rw [stem, hd]
      split
      · exact ⟨r, rfl⟩
      · exact ⟨r ++ ['/'], rfl⟩
    obtain ⟨q, hq⟩ := hs
    rw [isAbsolute, toList_join h, hq, isAbsolute, hd]
    rfl

/-- A joined path does not insist on a directory. -/
theorem endsInSeparator_join {dir name : String} (h : IsComponent name) :
    endsInSeparator (join dir name) = false := by
  have hlast : (join dir name).toList.getLast? = name.toList.getLast? := by
    rw [toList_join h]
    rw [List.getLast?_append, Option.or_of_isSome]
    exact List.getLast?_isSome.mpr h.ne_empty
  rw [endsInSeparator, hlast]
  cases hl : name.toList.getLast? with
  | none => rfl
  | some c =>
    have hc : c ≠ '/' := fun e => h.no_slash (e ▸ List.mem_of_getLast? hl)
    simpa using hc

/-- Different names lead to different paths. -/
theorem join_injective {dir a b : String} (ha : IsComponent a) (hb : IsComponent b)
    (h : join dir a = join dir b) : a = b := by
  have hl : stem dir ++ a.toList = stem dir ++ b.toList := by
    rw [← toList_join ha, ← toList_join hb, h]
  exact String.toList_injective (List.append_cancel_left hl)

/-! ## The part file beside a joined path -/

/-- A trimmed tail held nothing but `.` components. -/
theorem pieces_trimTail (s : List Char) :
    ∃ n, pieces s.reverse = pieces (trimTail s).reverse ++ List.replicate n "." := by
  fun_induction trimTail s with
  | case1 => exact ⟨0, by simp⟩
  | case2 r _ ih =>
    obtain ⟨n, hn⟩ := ih
    refine ⟨n, ?_⟩
    rw [List.reverse_cons, pieces_append_slash, pieces_nil, List.append_nil, hn]
  | case3 r ih =>
    obtain ⟨n, hn⟩ := ih
    rw [List.reverse_cons, pieces_append_slash, pieces_nil, List.append_nil] at hn
    refine ⟨n + 1, ?_⟩
    have hdot : pieces ['.'] = ["."] := by decide
    rw [List.reverse_cons, List.reverse_cons, List.append_assoc, List.singleton_append,
      pieces_append_slash, hn, hdot, List.append_assoc, List.replicate_succ']
  | case4 s => exact ⟨0, by simp⟩

/-- Trimming a tail keeps what the path starts with. -/
theorem getLast?_trimTail (s : List Char) : (trimTail s).getLast? = s.getLast? := by
  fun_induction trimTail s with
  | case1 => rfl
  | case2 r hr ih =>
    rw [ih]
    cases r with
    | nil => exact absurd rfl hr
    | cons c q => rw [List.getLast?_cons_cons]
  | case3 r ih => rw [ih, List.getLast?_cons_cons]
  | case4 s => rfl

/-- Behind a name there is no tail to trim. -/
theorem IsComponent.trimTail_eq {name : String} (h : IsComponent name) (rest : List Char) :
    trimTail (name.toList.reverse ++ rest) = name.toList.reverse ++ rest := by
  cases hn : name.toList.reverse with
  | nil => exact absurd (List.reverse_eq_nil_iff.mp hn) h.ne_empty
  | cons c q =>
    have hmem : ∀ x ∈ c :: q, x ≠ '/' := fun x hx e =>
      h.no_slash (List.mem_reverse.mp (by rw [hn, ← e]; exact hx))
    have hc : c ≠ '/' := hmem c List.mem_cons_self
    have hq : ∀ r, q ++ rest = '/' :: r → c ≠ '.' := by
      intro r hr hdot
      cases q with
      | nil =>
        have : name.toList = ['.'] := by
          rw [← List.reverse_reverse name.toList, hn, hdot]
          rfl
        exact h.ne_dot this
      | cons x q =>
        rw [List.cons_append, List.cons.injEq] at hr
        exact hmem x (List.mem_cons_of_mem c List.mem_cons_self) hr.1
    rw [List.cons_append]
    unfold trimTail
    split
    · rename_i he
      exact he.symm
    · rename_i he
      exact absurd (List.cons.inj he).1 hc
    · rename_i r he
      exact absurd (List.cons.inj he).1 (hq r (List.cons.inj he).2)
    · rfl

/-- The same from behind, as paths are trimmed from there. -/
theorem reverse_toList_join {dir name : String} (h : IsComponent name) :
    (join dir name).toList.reverse = name.toList.reverse ++ (stem dir).reverse := by
  rw [toList_join h, List.reverse_append]

/-- From behind, a stem begins with a separator. -/
theorem reverse_stem (dir : String) :
    (stem dir).reverse = [] ∨ ∃ r, (stem dir).reverse = '/' :: r := by
  rcases stem_eq_nil_or dir with hs | ⟨a, hs⟩
  · exact Or.inl (by rw [hs]; rfl)
  · exact Or.inr ⟨a.reverse, by rw [hs, List.reverse_append]; rfl⟩

/-- There is nothing to trim behind a name. -/
theorem trimTail_join {dir name : String} (h : IsComponent name) :
    trimTail (join dir name).toList.reverse = name.toList.reverse ++ (stem dir).reverse := by
  rw [reverse_toList_join h, h.trimTail_eq]

/-- The last name of a joined path. -/
theorem fileName?_join {dir name : String} (h : IsComponent name) :
    fileName? (join dir name) = some name := by
  have hlast : lastComponent (trimTail (join dir name).toList.reverse) = name.toList := by
    have hmem : ∀ x ∈ name.toList.reverse, decide (x ≠ '/') = true := fun x hx => by
      have : x ≠ '/' := fun e => h.no_slash (e ▸ List.mem_reverse.mp hx)
      simpa using this
    have hstop : (stem dir).reverse.takeWhile (· ≠ '/') = [] := by
      rcases reverse_stem dir with hs | ⟨r, hs⟩
      · rw [hs]; rfl
      · rw [hs]; rfl
    rw [trimTail_join h, lastComponent, List.takeWhile_append_of_pos hmem, hstop,
      List.append_nil, List.reverse_reverse]
  rw [fileName?]
  simp only [hlast]
  have hname : ¬(name.toList = [] ∨ name.toList = ['.'] ∨ name.toList = ['.', '.']) := by
    rintro (h0 | h0 | h0)
    · exact h.ne_empty h0
    · exact h.ne_dot h0
    · exact h.ne_dots h0
  rw [if_neg hname, String.ofList_toList]

/-- The directory in whose text part files stand.  It is the directory itself, without separators
and `.` components at its end. -/
def dirOf (dir : String) : String := String.ofList (trimTail (stem dir).reverse).reverse

/-- It is what is left of a joined path without its last name. -/
theorem parent?_join {dir name : String} (h : IsComponent name) :
    parent? (join dir name) = some (dirOf dir) := by
  have hdrop : (name.toList.reverse ++ (stem dir).reverse).dropWhile (· ≠ '/') =
      (stem dir).reverse := by
    have hmem : ∀ x ∈ name.toList.reverse, decide (x ≠ '/') = true := fun x hx => by
      have : x ≠ '/' := fun e => h.no_slash (e ▸ List.mem_reverse.mp hx)
      simpa using this
    rw [List.dropWhile_append_of_pos hmem]
    rcases reverse_stem dir with hs | ⟨r, hs⟩
    · rw [hs]; rfl
    · rw [hs]; rfl
  rw [parent?, trimTail_join h]
  split
  · rename_i he
    exact absurd (List.reverse_eq_nil_iff.mp (List.append_eq_nil_iff.mp he).1) h.ne_empty
  · rename_i he
    cases hn : name.toList.reverse with
    | nil => exact absurd (List.reverse_eq_nil_iff.mp hn) h.ne_empty
    | cons c q =>
      rw [hn, List.cons_append, List.cons.injEq] at he
      exact absurd (List.mem_reverse.mp (by rw [hn, ← he.1]; exact List.mem_cons_self)) h.no_slash
  · rw [hdrop, dirOf]

/-- The directory of the part files has the components of the output directory, up to `.`
components at the end. -/
theorem components_dirOf (dir : String) :
    ∃ n, components dir = components (dirOf dir) ++ List.replicate n "." := by
  obtain ⟨n, hn⟩ := pieces_trimTail (stem dir).reverse
  rw [List.reverse_reverse, pieces_stem] at hn
  exact ⟨n, by rw [hn, components_eq_pieces, dirOf, String.toList_ofList]⟩

/-- Relative directories stay relative. -/
theorem isAbsolute_dirOf (dir : String) : isAbsolute (dirOf dir) = isAbsolute dir := by
  rw [isAbsolute, dirOf, String.toList_ofList, List.head?_reverse, getLast?_trimTail,
    List.getLast?_reverse, isAbsolute]
  cases hd : dir.toList with
  | nil => simp [stem, hd]
  | cons c r =>
    have hs : (stem dir).head? = some c := by
      rw [stem, hd]
      split <;> rfl
    rw [hs]
    rfl

end LiveIngest.Storage.Path
