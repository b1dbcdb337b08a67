import LiveIngest.Proofs.Paths
import LiveIngest.Segment.Sequencer
import LiveIngest.Upload.Writer

/-!
# The names that uploads are stored under

There are three kinds of destinations: the raw output file, the names of segments, and the labels
that clients send.  Each is one component of a path, and none has the shape that is reserved for
files in flight, as long as the raw output file does not have it either.

`partPath_join` finds the part file of a destination in the same directory, under a name that tells
the destination (`partName_injective`).  The name of a segment tells its index
(`fileName_injective`).
-/

namespace LiveIngest.Upload

open LiveIngest.Storage
open LiveIngest.Storage.Path
open LiveIngest.Text

/-! ## The names that are written to -/

/-- The names that a configuration may give are components: they are not empty, not one of the two
dots, and have no slash. -/
theorem isComponent_of_isBareName {name : String} (h : Config.isBareName name = true) :
    IsComponent name := by
  simp only [Config.isBareName, Bool.and_eq_true, Bool.not_eq_true', beq_eq_false_iff_ne] at h
  obtain ⟨⟨⟨⟨hempty, hdot⟩, hdots⟩, hslash⟩, -⟩ := h
  exact ⟨hempty, hdot, hdots, by simpa using hslash⟩

/-- A dot in front and `.part` behind.  Spelled out as characters, since all that follows is read
off both ends. -/
theorem toList_partName (name : String) :
    (partName name).toList = '.' :: (name.toList ++ ".part".toList) := by
  rw [partName, String.toList_append, String.toList_append]
  rfl

/-- The name of a file in flight is one component: it is longer than the dots, and gets no slash
from the name between its ends. -/
theorem isComponent_partName {name : String} (h : IsComponent name) :
    IsComponent (partName name) := by
  have hlist := toList_partName name
  refine ⟨?_, ?_, ?_, ?_⟩
  · rw [hlist]; exact List.cons_ne_nil _ _
  · intro he
    rw [hlist, List.cons.injEq] at he
    exact h.ne_empty (List.append_eq_nil_iff.mp he.2).1
  · intro he
    have hlen := congrArg List.length he
    rw [hlist] at hlen
    have h5 : ".part".toList.length = 5 := by decide
    simp only [List.length_cons, List.length_append, h5, List.length_nil] at hlen
    omega
  · intro hmem
    rw [hlist] at hmem
    rcases List.mem_cons.mp hmem with he | hmem
    · exact absurd he (by decide)
    · rcases List.mem_append.mp hmem with hmem | hmem
      · exact h.no_slash hmem
      · exact absurd hmem (by decide)

/-- The name of a file in flight has the shape that is reserved for it: it starts with a dot, ends
in `.part`, and is longer than that by the dot. -/
theorem isPartName_partName (name : String) : isPartName (partName name) = true := by
  have hend : endsWith (partName name).toList partSuffix.toList = true := by
    rw [endsWith_iff, toList_partName]
    exact ⟨'.' :: name.toList, by rfl⟩
  have hhead : (partName name).toList.head? = some '.' := by rw [toList_partName]; rfl
  have hsize : partSuffix.utf8ByteSize < (partName name).utf8ByteSize := by
    rw [partName, String.utf8ByteSize_append, String.utf8ByteSize_append]
    have hdot : (".").utf8ByteSize = 1 := by decide
    omega
  simp [isPartName, hsize, hhead, hend]

/-- That shape is no other name's: `.part` is too short for it, and `..part` is that of the empty name. -/
theorem isPartName_iff {name : String} : isPartName name = true ↔ ∃ stem, name = partName stem := by
  refine ⟨fun h => ?_, fun ⟨stem, hstem⟩ => hstem ▸ isPartName_partName stem⟩
  simp only [isPartName, Bool.and_eq_true, decide_eq_true_eq, beq_iff_eq, endsWith_iff] at h
  obtain ⟨⟨hsize, hhead⟩, init, hinit⟩ := h
  cases init with
  -- with nothing before it the suffix would be the whole name, which is too short
  | nil =>
    have hname : name = partSuffix := String.toList_injective hinit.symm
    rw [hname] at hsize
    exact absurd hsize (Nat.lt_irrefl _)
  | cons c stem =>
    rw [← hinit, List.cons_append, List.head?_cons, Option.some.injEq] at hhead
    refine ⟨String.ofList stem, String.toList_injective ?_⟩
    rw [toList_partName, String.toList_ofList, ← hinit, hhead]
    rfl

/-- Files in flight to different destinations have different names: the ends that were added can be
taken away again. -/
theorem partName_injective {a b : String} (h : partName a = partName b) : a = b := by
  have hlist : a.toList ++ ".part".toList = b.toList ++ ".part".toList := by
    have := congrArg String.toList h
    rw [toList_partName, toList_partName, List.cons.injEq] at this
    exact this.2
  exact String.toList_injective (List.append_cancel_right hlist)

/-- A destination is never its own part file; the part file's name is longer. -/
theorem partName_ne_self (name : String) : name ≠ partName name := by
  intro h
  have hlen := congrArg (fun s : String => s.toList.length) h
  simp only [toList_partName, List.length_cons, List.length_append] at hlen
  omega

/-- The part file of a destination stands in the same directory.  Both paths are taken apart in the
way the file system does it, so this is about the text of paths, not about the disk. -/
theorem partPath_join {dir name : String} (h : IsComponent name) :
    partPath (join dir name) = join (dirOf dir) (partName name) := by
  rw [partPath, fileName?_join h, Option.getD_some, withFileName, fileName?_join h, parent?_join h]

/-- A name that ends in another character than `t` is not that of a file in flight.  The last
character is enough to tell segments from part files. -/
theorem isPartName_eq_false {name : String} {init : List Char} {c : Char}
    (h : name.toList = init ++ [c]) (hc : c ≠ 't') : isPartName name = false := by
  have hend : endsWith name.toList partSuffix.toList = false := by
    have hsuffix : partSuffix.toList.reverse = ['t', 'r', 'a', 'p', '.'] := by decide
    have hne : ('t' == c) = false := by simpa using fun e => hc e.symm
    rw [endsWith, h, hsuffix, List.reverse_append, List.reverse_singleton, List.singleton_append,
      List.isPrefixOf_cons_cons, hne, Bool.false_and]
  rw [isPartName, hend, Bool.and_false]

/-! ## Labels -/

/-- What survives trimming was there before: trimming only drops characters at both ends. -/
theorem mem_of_mem_trim {c : Char} {s : List Char} (h : c ∈ trim s) : c ∈ s := by
  rw [trim, trimEnd, List.mem_reverse] at h
  have h1 := (List.dropWhile_suffix _).subset h
  rw [List.mem_reverse] at h1
  exact (List.dropWhile_suffix _).subset h1

/-- A label stands for what is behind its last separator, trimmed, if that is a name.  Nothing else
is refused, and nothing else is changed about it. -/
theorem fileNameOf_eq_ok_iff {label name : String} :
    fileNameOf label = .ok name ↔
      name.toList = trim ((splitOn isSeparator label.toList).getLastD []) ∧
        name.toList ≠ [] ∧ name.toList ≠ ['.'] ∧ name.toList ≠ ['.', '.'] := by
  unfold fileNameOf
  simp only
  split
  · rename_i hbase
    refine ⟨fun h => absurd h (by simp), fun ⟨hname, hempty, hdot, hdots⟩ => ?_⟩
    rw [hname] at hempty hdot hdots
    exact absurd hbase (not_or.mpr ⟨hempty, not_or.mpr ⟨hdot, hdots⟩⟩)
  · rename_i hbase
    rw [not_or, not_or] at hbase
    constructor
    · intro h
      have hname := congrArg String.toList (Except.ok.inj h)
      rw [String.toList_ofList] at hname
      rw [hname] at hbase
      exact ⟨hname.symm, hbase⟩
    · rintro ⟨hname, -⟩
      rw [← hname, String.ofList_toList]

/-- No separator of either style is left in a file name, since the label was cut at all of them and
trimming adds none. -/
theorem not_isSeparator_of_fileNameOf {label name : String} (h : fileNameOf label = .ok name) :
    ∀ c ∈ name.toList, isSeparator c = false := by
  intro c hc
  rw [(fileNameOf_eq_ok_iff.mp h).1, List.getLastD_eq_getLast?] at hc
  have hmem := mem_of_mem_trim hc
  cases hl : (splitOn isSeparator label.toList).getLast? with
  | none => rw [hl] at hmem; exact absurd hmem List.not_mem_nil
  | some piece =>
    rw [hl] at hmem
    exact not_mem_of_mem_splitOn _ _ piece (List.mem_of_getLast? hl) c hmem

/-- The file name that a label stands for is one component, so it stays in the output directory,
whatever the label was. -/
theorem isComponent_of_fileNameOf {label name : String} (h : fileNameOf label = .ok name) :
    IsComponent name := by
  obtain ⟨-, hempty, hdot, hdots⟩ := fileNameOf_eq_ok_iff.mp h
  exact ⟨hempty, hdot, hdots, fun hslash =>
    absurd (not_isSeparator_of_fileNameOf h _ hslash) (by decide)⟩

/-! ## Segments -/

/-- The manifest is named after the stream alone. -/
theorem toList_fileName_zero (stream : String) :
    (Segment.fileName stream 0).toList = stream.toList ++ ".mpd".toList := by
  rw [Segment.fileName, String.toList_append]

/-- The header has the name of the stream twice. -/
theorem toList_fileName_one (stream : String) :
    (Segment.fileName stream 1).toList =
      stream.toList ++ ('_' :: (stream.toList ++ ".hdr".toList)) := by
  rw [Segment.fileName, String.toList_append, String.toList_append, String.toList_append]
  simp

/-- Chunks are numbered from 1, in decimal, so the chunk of index `k + 2` has the number `k + 1`. -/
theorem toList_fileName_add_two (stream : String) (k : Nat) :
    (Segment.fileName stream (k + 2)).toList =
      stream.toList ++ ('_' :: (stream.toList ++ ('_' :: (Nat.toDigits 10 (k + 1) ++
        ".chk".toList)))) := by
  have hdigits : (toString (k + 2 - 1)).toList = Nat.toDigits 10 (k + 1) := by
    rw [Nat.toString_eq_repr, Nat.repr, String.toList_ofList]
    rfl
  rw [Segment.fileName, String.toList_append, String.toList_append, String.toList_append,
    String.toList_append, String.toList_append, hdigits]
  · simp
  · simp
  · simp

/-- The file name of a segment is that of the stream and more: at least four characters, without a
slash of their own, and with an end that no part file has. -/
theorem toList_fileName (stream : String) (k : Nat) :
    ∃ rest, (Segment.fileName stream k).toList = stream.toList ++ rest ∧ 4 ≤ rest.length ∧
      ('/' ∈ rest → '/' ∈ stream.toList) ∧ ∃ init c, rest = init ++ [c] ∧ c ≠ 't' := by
  match k with
  | 0 =>
    refine ⟨_, toList_fileName_zero stream, by decide, fun h => absurd h (by decide),
      ".mp".toList, 'd', by decide, by decide⟩
  | 1 =>
    refine ⟨_, toList_fileName_one stream, by simp, fun h => ?_,
      '_' :: (stream.toList ++ ".hd".toList), 'r', by simp, by decide⟩
    simpa using h
  | k + 2 =>
    refine ⟨_, toList_fileName_add_two stream k, by simp; omega, fun h => ?_,
      '_' :: (stream.toList ++ ('_' :: (Nat.toDigits 10 (k + 1) ++ ".ch".toList))), 'k', by simp,
      by decide⟩
    -- digits are no slashes
    have hdigits : '/' ∉ Nat.toDigits 10 (k + 1) := fun hmem =>
      absurd (Nat.isDigit_of_mem_toDigits (by decide) (by decide) hmem) (by decide)
    simpa [hdigits] using h

/-- A segment of a stream whose name is a component is stored under a component too.  It is too long
for one of the dots, and slashes could only come from the stream. -/
theorem isComponent_fileName {stream : String} (h : IsComponent stream) (k : Nat) :
    IsComponent (Segment.fileName stream k) := by
  obtain ⟨rest, hrest, hlen, hslash, -⟩ := toList_fileName stream k
  have hlong : 4 < (Segment.fileName stream k).toList.length := by
    have hpos : 0 < stream.toList.length := List.length_pos_iff.mpr h.ne_empty
    rw [hrest, List.length_append]
    omega
  refine ⟨fun he => ?_, fun he => ?_, fun he => ?_, fun hmem => ?_⟩
  · rw [he] at hlong; simp at hlong
  · rw [he] at hlong; simp at hlong
  · rw [he] at hlong; simp at hlong
  · rw [hrest] at hmem
    rcases List.mem_append.mp hmem with hmem | hmem
    · exact h.no_slash hmem
    · exact h.no_slash (hslash hmem)

/-- No segment is stored under the name of a file in flight, whatever the stream is called, since
none of the three suffixes ends in `t`. -/
theorem isPartName_fileName (stream : String) (k : Nat) :
    isPartName (Segment.fileName stream k) = false := by
  obtain ⟨rest, hrest, -, -, init, c, hc, hne⟩ := toList_fileName stream k
  have hname : (Segment.fileName stream k).toList = (stream.toList ++ init) ++ [c] := by
    rw [hrest, hc, List.append_assoc]
  exact isPartName_eq_false hname hne

/-- The last letter of its name tells the manifest, the header and the chunks apart, for every
stream. -/
theorem getLast?_fileName (stream : String) (k : Nat) :
    (Segment.fileName stream k).toList.getLast? =
      some (match k with | 0 => 'd' | 1 => 'r' | _ => 'k') := by
  match k with
  | 0 =>
    rw [toList_fileName_zero, List.getLast?_append]
    rfl
  | 1 =>
    rw [toList_fileName_one, List.getLast?_append, List.getLast?_cons, List.getLast?_append]
    rfl
  | k + 2 =>
    rw [toList_fileName_add_two, List.getLast?_append, List.getLast?_cons, List.getLast?_append,
      List.getLast?_cons, List.getLast?_append]
    rfl

/-- Different segments of a stream are stored under different names.  The last letter decides unless
both are chunks; then the names differ in their numbers, and decimal digits tell the number. -/
theorem fileName_injective {stream : String} {k k' : Nat}
    (h : Segment.fileName stream k = Segment.fileName stream k') : k = k' := by
  have hlast := getLast?_fileName stream k
  rw [h, getLast?_fileName, Option.some.injEq] at hlast
  match k, k' with
  | 0, 0 => rfl
  | 1, 1 => rfl
  | k + 2, k' + 2 =>
    have hlist := congrArg String.toList h
    rw [toList_fileName_add_two, toList_fileName_add_two, List.append_cancel_left_eq,
      List.cons.injEq, List.append_cancel_left_eq, List.cons.injEq,
      List.append_cancel_right_eq] at hlist
    -- what is left when both ends are taken away are the digits
    have hdigits : k + 1 = k' + 1 := by
      rw [← Nat.ofDigitChars_ten_toDigits (n := k + 1), hlist.2.2, Nat.ofDigitChars_ten_toDigits]
    omega
  | 0, 1 | 0, k' + 2 | 1, 0 | 1, k' + 2 | k + 2, 0 | k + 2, 1 => simp at hlast

end LiveIngest.Upload
