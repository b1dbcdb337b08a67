import LiveIngest.Proofs.Paths
import LiveIngest.Storage.Operations

/-!
# File operations in one directory

An operation on a path that joins a directory and one name walks to the directory and then acts at
one location, its place.  `Tree.place` is that location, and each operation is read off from what
stands there: `openAppend_join`, `create_join`, `unlink_join`, `rename_join`, `content?_join`.

Files come and go in a directory, but whether and where a path to a directory arrives depends only on
directories and links (`Leads.of_sameFrame`).  So the place of a name is the same before and after
any number of file operations, as long as the walk succeeds at all, and a path that was opened leads to
the same file when it is opened again (`openFrom_again`).

The walk itself is a recursion over two things, the components still to go and the links still to
follow.  `Leads` is its successful run as a derivation, one rule for each way to take a step; facts
about walks are inductions over it, and `walkDir_eq_ok_iff` is the bridge.
-/

namespace LiveIngest.Storage

open LiveIngest.Storage.Path

namespace Tree

/-! ## Walking to a directory -/

/-- Components that lead from a location to a directory, with so many links still to follow.  One
rule for each kind of component: none left, `.`, `..`, a name, and a name that is a link, behind
which the text of the link is walked first. -/
inductive Leads (t : Tree) : Nat → Location → List String → Location → Prop
  | stop {links here} (hd : t.get? here = some .dir) : Leads t links here [] here
  | stay {links here rest l} (hd : t.get? here = some .dir) (h : Leads t links here rest l) :
      Leads t links here ("." :: rest) l
  | up {links here rest l} (hd : t.get? here = some .dir)
      (h : Leads t links here.dropLast rest l) : Leads t links here (".." :: rest) l
  | down {links here c rest l} (hd : t.get? here = some .dir) (hc : isName c = true)
      (hlen : c.utf8ByteSize ≤ maxName) (h : Leads t links (here ++ [c]) rest l) :
      Leads t links here (c :: rest) l
  | follow {links here c rest target l} (hd : t.get? here = some .dir) (hc : isName c = true)
      (hlen : c.utf8ByteSize ≤ maxName) (hl : t.get? (here ++ [c]) = some (.link target))
      (h : Leads t links (startOf here target) (Path.components target ++ rest) l) :
      Leads t (links + 1) here (c :: rest) l

/-- A path leads to a directory, for that is where it stops. -/
theorem Leads.get?_eq {t : Tree} {links : Nat} {here l : Location} {cs : List String}
    (h : t.Leads links here cs l) : t.get? l = some .dir := by
  induction h with
  | stop hd => exact hd
  | stay _ _ ih => exact ih
  | up _ _ ih => exact ih
  | down _ _ _ _ ih => exact ih
  | follow _ _ _ _ _ ih => exact ih

/-- ... and passes only through directories. -/
theorem Leads.here_eq {t : Tree} {links : Nat} {here l : Location} {cs : List String}
    (h : t.Leads links here cs l) : t.get? here = some .dir := by
  cases h <;> assumption

/-- Every component but the two dots is a name. -/
theorem isName_iff {c : String} : isName c = true ↔ c ≠ "." ∧ c ≠ ".." := by
  simp [isName]

/-- A walk that ends in a directory was led there.  The induction is the recursion of the walk: over
the components, and over the links where one is followed. -/
theorem leads_of_walk {t : Tree} {links : Nat} {here l : Location} {cs : List String}
    (hw : t.walk links here cs = .ok l) (hd : t.get? l = some .dir) : t.Leads links here cs l := by
  induction links, here, cs using walk_induction with
  | nil links here =>
    rw [walk_nil] at hw
    cases hw
    exact .stop hd
  | cons links here c rest ih fewer =>
    rw [walk_cons] at hw
    split at hw
    · cases hw
    rename_i hdir
    have hdir : t.get? here = some .dir := by simpa using hdir
    split at hw
    · rename_i hdot
      subst hdot
      exact .stay hdir (ih here hw)
    rename_i hdot
    split at hw
    · rename_i hdots
      subst hdots
      exact .up hdir (ih here.dropLast hw)
    rename_i hdots
    split at hw
    · cases hw
    rename_i hlen
    -- a name: what stands there decides
    have hname : isName c = true := isName_iff.mpr ⟨hdot, hdots⟩
    split at hw
    · rename_i hnone
      split at hw
      · cases hw
        rw [hnone] at hd
        cases hd
      · cases hw
    · rename_i target hlink
      cases links with
      | zero => cases hw
      | succ n => exact .follow hdir hname (by omega) hlink (fewer n _ _ n.lt_succ_self hw)
    · exact .down hdir hname (by omega) (ih (here ++ [c]) hw)

/-- What leads to a directory is what the walk follows. -/
theorem Leads.walk_eq {t : Tree} {links : Nat} {here l : Location} {cs : List String}
    (h : t.Leads links here cs l) : t.walk links here cs = .ok l := by
  induction h with
  | stop hd => rw [walk_nil]
  | stay hd h ih => rw [walk_cons, if_neg (by simpa using hd), if_pos rfl, ih]
  | up hd h ih => rw [walk_cons, if_neg (by simpa using hd), if_neg (by decide), if_pos rfl, ih]
  | down hd hc hlen h ih =>
    obtain ⟨hdot, hdots⟩ := isName_iff.mp hc
    rw [walk_cons, if_neg (by simpa using hd), if_neg hdot, if_neg hdots, if_neg (by omega), h.here_eq]
    exact ih
  | follow hd hc hlen hl h ih =>
    obtain ⟨hdot, hdots⟩ := isName_iff.mp hc
    rw [walk_cons, if_neg (by simpa using hd), if_neg hdot, if_neg hdots, if_neg (by omega), hl]
    exact ih

/-- The walk to a directory succeeds exactly where the components lead. -/
theorem walkDir_eq_ok_iff {t : Tree} {here l : Location} {cs : List String} :
    t.walkDir here cs = .ok l ↔ t.Leads maxLinks here cs l := by
  constructor
  · intro h
    unfold walkDir at h
    split at h
    · simp at h
    · rename_i k hk
      split at h
      · simp at h
      · rename_i hd
        cases h
        exact leads_of_walk hk hd
      · simp at h
  · intro h
    rw [walkDir, h.walk_eq]
    simp [h.get?_eq]

/-- A walk that goes on from a directory can be taken up there.  How many links are left then
depends on the way, but not on what comes behind. -/
theorem Leads.walk_append {t : Tree} {links : Nat} {here d : Location} {cs : List String}
    (h : t.Leads links here cs d) :
    ∃ left, ∀ rest, t.walk links here (cs ++ rest) = t.walk left d rest := by
  induction h with
  | stop hd => exact ⟨_, fun _ => rfl⟩
  | stay hd h ih =>
    obtain ⟨left, ih⟩ := ih
    refine ⟨left, fun rest => ?_⟩
    rw [List.cons_append, walk_cons, if_neg (by simpa using hd), if_pos rfl, ih]
  | up hd h ih =>
    obtain ⟨left, ih⟩ := ih
    refine ⟨left, fun rest => ?_⟩
    rw [List.cons_append, walk_cons, if_neg (by simpa using hd), if_neg (by decide), if_pos rfl, ih]
  | down hd hc hlen h ih =>
    obtain ⟨left, ih⟩ := ih
    obtain ⟨hdot, hdots⟩ := isName_iff.mp hc
    refine ⟨left, fun rest => ?_⟩
    rw [List.cons_append, walk_cons, if_neg (by simpa using hd), if_neg hdot, if_neg hdots,
      if_neg (by omega), h.here_eq]
    exact ih rest
  | follow hd hc hlen hl h ih =>
    obtain ⟨left, ih⟩ := ih
    obtain ⟨hdot, hdots⟩ := isName_iff.mp hc
    refine ⟨left, fun rest => ?_⟩
    rw [List.cons_append, walk_cons, if_neg (by simpa using hd), if_neg hdot, if_neg hdots,
      if_neg (by omega), hl]
    simp only [← List.append_assoc]
    exact ih rest

/-- A walk that succeeds passes a directory before its last component.  Again this follows the
recursion of the walk. -/
theorem leads_of_walk_append {t : Tree} {name : String} {links : Nat} {here l : Location}
    {cs : List String} (h : t.walk links here (cs ++ [name]) = .ok l) :
    ∃ d, t.Leads links here cs d := by
  induction links, here, cs using walk_induction with
  | nil links here =>
    rw [List.nil_append, walk_cons] at h
    split at h
    · cases h
    · rename_i hdir
      exact ⟨here, .stop (by simpa using hdir)⟩
  | cons links here c rest ih fewer =>
    rw [List.cons_append, walk_cons] at h
    split at h
    · cases h
    rename_i hdir
    have hdir : t.get? here = some .dir := by simpa using hdir
    split at h
    · rename_i hdot
      subst hdot
      obtain ⟨d, hd⟩ := ih here h
      exact ⟨d, .stay hdir hd⟩
    rename_i hdot
    split at h
    · rename_i hdots
      subst hdots
      obtain ⟨d, hd⟩ := ih here.dropLast h
      exact ⟨d, .up hdir hd⟩
    rename_i hdots
    split at h
    · cases h
    rename_i hlen
    have hname : isName c = true := isName_iff.mpr ⟨hdot, hdots⟩
    split at h
    · simp at h
    · rename_i target hlink
      cases links with
      | zero => cases h
      | succ n =>
        simp only [← List.append_assoc] at h
        obtain ⟨d, hd⟩ := fewer n _ _ n.lt_succ_self h
        exact ⟨d, .follow hdir hname (by omega) hlink hd⟩
    · obtain ⟨d, hd⟩ := ih (here ++ [c]) h
      exact ⟨d, .down hdir hname (by omega) hd⟩

/-- Two trees with the same directories and the same links.  They may differ in their files and
devices. -/
structure SameFrame (t t' : Tree) : Prop where
  dir : ∀ l, t.get? l = some .dir ↔ t'.get? l = some .dir
  link : ∀ l s, t.get? l = some (.link s) ↔ t'.get? l = some (.link s)

/-- It does not matter which tree came first. -/
theorem SameFrame.symm {t t' : Tree} (h : SameFrame t t') : SameFrame t' t :=
  ⟨fun l => (h.dir l).symm, fun l s => (h.link l s).symm⟩

/-- Files do not stand in the way of a path that leads to a directory: every rule of `Leads` asks
for directories and links only. -/
theorem Leads.of_sameFrame {t t' : Tree} (hf : SameFrame t t') {links : Nat} {here l : Location}
    {cs : List String} (h : t.Leads links here cs l) : t'.Leads links here cs l := by
  induction h with
  | stop hd => exact .stop ((hf.dir _).mp hd)
  | stay hd _ ih => exact .stay ((hf.dir _).mp hd) ih
  | up hd _ ih => exact .up ((hf.dir _).mp hd) ih
  | down hd hc hlen _ ih => exact .down ((hf.dir _).mp hd) hc hlen ih
  | follow hd hc hlen hl _ ih => exact .follow ((hf.dir _).mp hd) hc hlen ((hf.link _ _).mp hl) ih

/-- A `.` behind a path that leads to a directory changes nothing.  An output directory that was
given with such dots at its end has lost them in the paths of part files. -/
theorem leads_append_dot_iff {t : Tree} {links : Nat} {here l : Location} {cs : List String} :
    t.Leads links here (cs ++ ["."]) l ↔ t.Leads links here cs l := by
  constructor
  · intro h
    -- the induction is on the derivation for the longer path
    generalize hcs : cs ++ ["."] = ds at h
    induction h generalizing cs with
    | stop hd => simp at hcs
    | stay hd h ih =>
      cases cs with
      | nil =>
        cases hcs
        exact h
      | cons c cs =>
        cases hcs
        exact .stay hd (ih rfl)
    | up hd h ih =>
      cases cs with
      | nil => exact absurd (List.cons.inj hcs).1 (by decide)
      | cons c cs =>
        cases hcs
        exact .up hd (ih rfl)
    | down hd hc hlen h ih =>
      cases cs with
      | nil =>
        cases hcs
        exact absurd hc (by decide)
      | cons c cs =>
        cases hcs
        exact .down hd hc hlen (ih rfl)
    | follow hd hc hlen hl h ih =>
      cases cs with
      | nil =>
        cases hcs
        exact absurd hc (by decide)
      | cons c cs =>
        cases hcs
        exact .follow hd hc hlen hl (ih (List.append_assoc ..))
  · intro h
    induction h with
    | stop hd => exact .stay hd (.stop hd)
    | stay hd _ ih => exact .stay hd ih
    | up hd _ ih => exact .up hd ih
    | down hd hc hlen _ ih => exact .down hd hc hlen ih
    | follow hd hc hlen hl _ ih =>
      rw [List.append_assoc] at ih
      exact .follow hd hc hlen hl ih

/-- Nor do any number of them. -/
theorem leads_append_dots_iff {t : Tree} {links : Nat} {here l : Location} {cs : List String} :
    ∀ n, t.Leads links here (cs ++ List.replicate n ".") l ↔ t.Leads links here cs l
  | 0 => by simp
  | n + 1 => by
    rw [List.replicate_succ', ← List.append_assoc, leads_append_dot_iff, leads_append_dots_iff n]

/-- The directory that a path leads to, from where relative paths start.  For an absolute path that
is the root. -/
def dirAt (t : Tree) (dir : String) : Except Errno Location :=
  t.walkDir (startOf home dir) (Path.components dir)

/-- The directory of a path does not depend on the files of the tree. -/
theorem dirAt_of_sameFrame {t t' : Tree} (hf : SameFrame t t') {dir : String} {l : Location}
    (h : t.dirAt dir = .ok l) : t'.dirAt dir = .ok l :=
  walkDir_eq_ok_iff.mpr ((walkDir_eq_ok_iff.mp h).of_sameFrame hf)

/-- The directory in whose text part files stand is the directory itself: the texts differ in
slashes and in a `.` behind. -/
theorem dirAt_dirOf {t : Tree} {dir : String} {l : Location} :
    t.dirAt (dirOf dir) = .ok l ↔ t.dirAt dir = .ok l := by
  obtain ⟨n, hn⟩ := components_dirOf dir
  have hstart : startOf home (dirOf dir) = startOf home dir := by
    rw [startOf, isAbsolute_dirOf, startOf]
  rw [dirAt, dirAt, walkDir_eq_ok_iff, walkDir_eq_ok_iff, hstart, hn, leads_append_dots_iff]

/-- A walk sees nothing of a tree but its nodes. -/
theorem walk_congr {t t' : Tree} (h : ∀ l, t'.get? l = t.get? l) (links : Nat) (here : Location)
    (cs : List String) : t'.walk links here cs = t.walk links here cs := by
  induction links, here, cs using walk_induction with
  | nil links here => rw [walk_nil, walk_nil]
  | cons links here c rest ih fewer =>
    rw [walk_cons, walk_cons, h, h, ih here, ih here.dropLast, ih (here ++ [c])]
    cases links with
    | zero => rfl
    | succ n => simp only [fewer n _ _ n.lt_succ_self]

/-- Nor does the directory of a path. -/
theorem dirAt_congr {t t' : Tree} (h : ∀ l, t'.get? l = t.get? l) (dir : String) :
    t'.dirAt dir = t.dirAt dir := by
  rw [dirAt, walkDir, walk_congr h, dirAt, walkDir]
  simp only [h]

/-! ## The place of a name -/

/-- Where an operation on a name of a directory acts.  All errors of a path come before the place is
known, in the order in which the operations report them: the text, the directory, the length of the
name. -/
def place (t : Tree) (dir name : String) : Except Errno Location :=
  match checkPath (join dir name) with
  | .error e => .error e
  | .ok () =>
    match t.dirAt dir with
    | .error e => .error e
    | .ok d => if maxName < name.utf8ByteSize then .error .nameTooLong else .ok (d ++ [name])

/-- The place of a name depends on the disk only through its directory. -/
theorem place_congr {t t' : Tree} {dir : String} (h : t'.dirAt dir = t.dirAt dir) (name : String) :
    t'.place dir name = t.place dir name := by
  rw [place, h, place]

/-- A place is a name in the directory. -/
theorem dirAt_of_place {t : Tree} {dir name : String} {l : Location}
    (h : t.place dir name = .ok l) : ∃ d, t.dirAt dir = .ok d ∧ l = d ++ [name] := by
  unfold place at h
  split at h
  · simp at h
  · split at h
    · simp at h
    · rename_i d hd
      split at h
      · simp at h
      · exact ⟨d, hd, (Except.ok.inj h).symm⟩

/-- A place is not the root. -/
theorem place_ne_nil {t : Tree} {dir name : String} {l : Location}
    (h : t.place dir name = .ok l) : l ≠ [] := by
  obtain ⟨d, -, rfl⟩ := dirAt_of_place h
  simp

/-- Different names of a directory have different places.  The place ends in the name. -/
theorem place_injective {t : Tree} {dir a b : String} {l : Location}
    (ha : t.place dir a = .ok l) (hb : t.place dir b = .ok l) : a = b := by
  obtain ⟨d, hd, rfl⟩ := dirAt_of_place ha
  obtain ⟨d', hd', he⟩ := dirAt_of_place hb
  rw [hd, Except.ok.injEq] at hd'
  subst hd'
  simpa using he

/-- Different names have different places, also under two names of one directory.  Part files are
addressed under such a name. -/
theorem place_ne {t : Tree} {dir a b : String} {l k : Location} (hab : a ≠ b)
    (ha : t.place dir a = .ok l) (hb : t.place (dirOf dir) b = .ok k) : l ≠ k := by
  obtain ⟨d, hd, rfl⟩ := dirAt_of_place ha
  obtain ⟨d', hd', rfl⟩ := dirAt_of_place hb
  rw [dirAt_dirOf, hd, Except.ok.injEq] at hd'
  subst hd'
  intro he
  exact hab (by simpa using he)

/-- A component is a name: `IsComponent` leaves the dots out. -/
theorem isName_of_isComponent {name : String} (h : IsComponent name) : isName name = true := by
  refine isName_iff.mpr ⟨fun he => h.ne_dot ?_, fun he => h.ne_dots ?_⟩
  · rw [he]; rfl
  · rw [he]; rfl

/-- Walking to a name of a directory comes to the directory, with the name left over.  Whether
something stands under the name is not asked yet. -/
theorem spot_join {t : Tree} {dir name : String} (h : IsComponent name) :
    t.spot (join dir name) =
      match checkPath (join dir name) with
      | .error e => .error e
      | .ok () =>
        match t.dirAt dir with
        | .error e => .error e
        | .ok d => .ok ⟨d, some name, false⟩ := by
  have hname : isName name = true := isName_of_isComponent h
  have hlast : (components dir ++ [name]).getLast? = some name := by simp
  have hinit : (components dir ++ [name]).dropLast = components dir := by simp
  have hstart : startOf home (join dir name) = startOf home dir := by
    rw [startOf, isAbsolute_join h, startOf]
  have hfrom : t.spotFrom home (join dir name) =
      match t.dirAt dir with
      | .error e => .error e
      | .ok d => .ok ⟨d, some name, false⟩ := by
    rw [spotFrom, components_join h]
    simp only [hlast, hinit, hstart, ← dirAt.eq_1]
    cases t.dirAt dir with
    | error e => rfl
    | ok d => simp [hname, endsInSeparator_join h]
  unfold spot
  cases checkPath (join dir name) with
  | error e => rfl
  | ok u => exact hfrom

/-! ## Files that were opened -/

/-- What opening does to the disk: nothing, or it makes an empty file where there was nothing.
Whether the path leads over links does not matter any more. -/
inductive Opened (t : Tree) : Target → Tree → Prop
  | device (d : Device) : Opened t (.device d) t
  | there {l : Location} {old : Bytes} (hl : l ≠ []) (hget : t.get? l = some (.file old)) :
      Opened t (.file l) t
  | made {l : Location} (hl : l ≠ []) (hget : t.get? l = none) : Opened t (.file l) (t.put l (.file []))

/-- Opening is one of these, also where the path ends in links: each link only takes the walk
elsewhere. -/
theorem openFrom_cases {t t' : Tree} {links : Nat} {base : Location} {path : String} {target : Target}
    (h : t.openFrom links base path = .ok (target, t')) : t.Opened target t' := by
  have hne : ∀ (dir : Location) (name : String), dir ++ [name] ≠ [] := by simp
  fun_induction openFrom t links base path with
  | case1 | case2 | case3 | case4 | case8 | case9 => simp at h
  | case5 _ _ _ _ _ _ _ _ _ _ hget =>
    cases h
    exact .made (hne _ _) hget
  | case6 _ _ _ _ _ _ _ _ _ _ _ hget =>
    cases h
    exact .there (hne _ _) hget
  | case7 _ _ _ _ _ _ _ _ _ _ d =>
    cases h
    exact .device d
  | case10 _ _ _ _ _ _ _ _ _ _ _ _ ih => exact ih h

/-- The same for a path as the program gives it. -/
theorem openAppend_cases {t t' : Tree} {path : String} {target : Target}
    (h : t.openAppend path = .ok (target, t')) : t.Opened target t' := by
  unfold openAppend at h
  split at h
  · cases h
  · exact openFrom_cases h

/-- Files do not stand in the way of a walk up to the last component. -/
theorem spotFrom_of_sameFrame {t t' : Tree} (hf : SameFrame t t') {base : Location} {path : String}
    {spot : Spot} (h : t.spotFrom base path = .ok spot) : t'.spotFrom base path = .ok spot := by
  unfold spotFrom at h ⊢
  simp only at h ⊢
  split
  · rename_i hnone
    rwa [hnone] at h
  · rename_i last hlast
    rw [hlast] at h
    simp only at h
    split at h
    · cases h
    · rename_i dir hdir
      have hdir' := walkDir_eq_ok_iff.mpr ((walkDir_eq_ok_iff.mp hdir).of_sameFrame hf)
      rw [hdir']
      exact h

/-- Where a walk comes to a file, the file is opened and nothing changes.  Checking that nothing
else stands there is the work. -/
theorem openFrom_of_file {t : Tree} {links : Nat} {base : Location} {path : String} {spot : Spot}
    (hspot : t.spotFrom base path = .ok spot) {name : String} (hname : spot.name = some name)
    (hslash : ¬ spot.slash = true) (hlen : ¬ maxName < name.utf8ByteSize) {data : Bytes}
    (hget : t.get? (spot.dir ++ [name]) = some (.file data)) :
    t.openFrom links base path = .ok (.file (spot.dir ++ [name]), t) := by
  rw [openFrom, hspot]
  simp only [hname, if_neg hslash, if_neg hlen]
  rw [hget]

/-- A path that led to a file leads to it again, as long as directories and links stay.  The
induction is on the links that are followed. -/
theorem openFrom_again {t t' t₁ : Tree} (hf : SameFrame t t') {links : Nat} {base l : Location}
    {path : String} (h : t.openFrom links base path = .ok (.file l, t₁)) {data : Bytes}
    (hget : t'.get? l = some (.file data)) : t'.openFrom links base path = .ok (.file l, t') := by
  fun_induction openFrom t links base path with
  | case1 | case2 | case3 | case4 | case7 | case8 | case9 => simp at h
  | case5 links base path spot hspot name hname hslash hlen =>
    simp only [Except.ok.injEq, Prod.mk.injEq, Target.file.injEq] at h
    rw [← h.1] at hget ⊢
    exact openFrom_of_file (spotFrom_of_sameFrame hf hspot) hname hslash hlen hget
  | case6 links base path spot hspot name hname hslash hlen =>
    simp only [Except.ok.injEq, Prod.mk.injEq, Target.file.injEq] at h
    rw [← h.1] at hget ⊢
    exact openFrom_of_file (spotFrom_of_sameFrame hf hspot) hname hslash hlen hget
  | case10 base path spot hspot name hname hslash hlen l' target hlink n ih =>
    -- a link is still the same link, so the rest of the way is the same
    rw [openFrom, spotFrom_of_sameFrame hf hspot]
    simp only [hname, if_neg hslash, if_neg hlen]
    rw [(hf.link _ _).mp hlink]
    exact ih h

/-- The same for a path as the program gives it. -/
theorem openAppend_again {t t' t₁ : Tree} (hf : SameFrame t t') {l : Location} {path : String}
    (h : t.openAppend path = .ok (.file l, t₁)) {data : Bytes} (hget : t'.get? l = some (.file data)) :
    t'.openAppend path = .ok (.file l, t') := by
  unfold openAppend at h ⊢
  split
  · rename_i hcheck
    rw [hcheck] at h
    cases h
  · rename_i hcheck
    rw [hcheck] at h
    exact openFrom_again hf h hget

/-- A file that was created is there, and empty.  Creating opens the file and then cuts it. -/
theorem create_file {t t' : Tree} {path : String} {l : Location}
    (h : t.create path = .ok (.file l, t')) : l ≠ [] ∧ t'.get? l = some (.file []) := by
  rw [create] at h
  split at h
  · simp at h
  · rename_i hopen
    cases h
    have hl : l ≠ [] := by cases openAppend_cases hopen <;> assumption
    exact ⟨hl, get?_put_self hl⟩
  · simp at h

/-! ## The operations, at the place -/

/-- Opening a name of a directory for writing, if it is not that of a link.  A link is left out
because it would take the walk to some other place. -/
theorem openAppend_join {t : Tree} {dir name : String} (h : IsComponent name)
    (hlink : ∀ l target, t.place dir name = .ok l → t.get? l ≠ some (.link target)) :
    t.openAppend (join dir name) =
      match t.place dir name with
      | .error e => .error e
      | .ok l =>
        match t.get? l with
        | none => .ok (.file l, t.put l (.file []))
        | some (.file _) => .ok (.file l, t)
        | some (.device d) => .ok (.device d, t)
        | some _ => .error .isDirectory := by
  have hspot : t.spot (join dir name) = _ := spot_join h
  rw [spot] at hspot
  rw [place] at hlink
  rw [openAppend, place]
  cases hc : checkPath (join dir name) with
  | error e => rfl
  | ok _ =>
    simp only [hc] at hspot hlink
    rw [openFrom, hspot]
    cases hd : t.dirAt dir with
    | error e => rfl
    | ok d =>
      -- the name is too long, or what stands there decides
      by_cases hlen : maxName < name.utf8ByteSize
      · simp [hlen]
      · simp only [hd, hlen, if_false] at hlink
        simp only [Bool.false_eq_true, if_false, hlen]
        cases hn : t.get? (d ++ [name]) with
        | none => rfl
        | some n =>
          cases n with
          | link target => exact absurd hn (hlink _ target rfl)
          | file data => rfl
          | dir => rfl
          | device dev => rfl

/-- Opening a name of a directory for writing from the start, if it is not that of a link. -/
theorem create_join {t : Tree} {dir name : String} (h : IsComponent name)
    (hlink : ∀ l target, t.place dir name = .ok l → t.get? l ≠ some (.link target)) :
    t.create (join dir name) =
      match t.place dir name with
      | .error e => .error e
      | .ok l =>
        match t.get? l with
        | none => .ok (.file l, (t.put l (.file [])).put l (.file []))
        | some (.file _) => .ok (.file l, t.put l (.file []))
        | some (.device d) => .ok (.device d, t)
        | some _ => .error .isDirectory := by
  rw [create, openAppend_join h hlink]
  cases t.place dir name with
  | error e => rfl
  | ok l =>
    cases hn : t.get? l with
    | none => simp only [hn]
    | some n => cases n <;> simp only [hn]

/-- Removing a name of a directory.  No walk follows a last link here, so nothing is asked of it. -/
theorem unlink_join {t : Tree} {dir name : String} (h : IsComponent name) :
    t.unlink (join dir name) =
      match t.place dir name with
      | .error e => .error e
      | .ok l =>
        match t.get? l with
        | none => .error .notFound
        | some .dir => .error .isDirectory
        | some _ => .ok (t.remove l) := by
  rw [unlink, spot_join h, place]
  cases checkPath (join dir name) with
  | error e => rfl
  | ok _ =>
    cases t.dirAt dir with
    | error e => rfl
    | ok d =>
      by_cases hlen : maxName < name.utf8ByteSize
      · simp [hlen]
      · simp only [hlen, if_false]
        cases hn : t.get? (d ++ [name]) with
        | none => rfl
        | some n => cases n <;> simp

/-- Renaming a name of a directory that holds something.  The target may be any file or link, which
is lost, but no directory. -/
theorem rename_join {t : Tree} {dir dir' a b : String} {k : Location} {node : Node}
    (ha : IsComponent a) (hb : IsComponent b) (hk : t.place dir a = .ok k)
    (hnode : t.get? k = some node) :
    t.rename (join dir a) (join dir' b) =
      match t.place dir' b with
      | .error e => .error e
      | .ok l =>
        if t.get? l = some .dir then .error .isDirectory
        else .ok ((t.remove k).put l node) := by
  unfold place at hk
  rw [rename, spot_join ha, spot_join hb, place]
  cases hca : checkPath (join dir a) with
  | error e => simp [hca] at hk
  | ok _ =>
    cases hda : t.dirAt dir with
    | error e => simp [hca, hda] at hk
    | ok d =>
      simp only [hca, hda] at hk
      by_cases hlen : maxName < a.utf8ByteSize
      · simp [hlen] at hk
      · simp only [hlen, if_false, Except.ok.injEq] at hk
        subst hk
        cases checkPath (join dir' b) with
        | error e => rfl
        | ok _ =>
          cases t.dirAt dir' with
          | error e => rfl
          | ok d' =>
            by_cases hlen' : maxName < b.utf8ByteSize
            · simp [hlen, hnode, hlen']
            · simp [hlen, hnode, hlen']

/-- Reading a name of a directory, if it is not that of a link.  What is read is what stands at the
place, since reading and writing walk the same way. -/
theorem content?_join {t : Tree} {dir name : String} (h : IsComponent name)
    (hlink : ∀ l target, t.place dir name = .ok l → t.get? l ≠ some (.link target)) {data : Bytes} :
    t.content? (join dir name) = some data ↔
      ∃ l, t.place dir name = .ok l ∧ t.get? l = some (.file data) := by
  have hstart : startOf home (join dir name) = startOf home dir := by
    rw [startOf, isAbsolute_join h, startOf]
  rw [place] at hlink ⊢
  rw [content?, hstart, components_join h]
  cases hc : checkPath (join dir name) with
  | error e => simp
  | ok _ =>
    simp only [hc] at hlink ⊢
    cases hd : t.dirAt dir with
    | error e =>
      -- nothing is read where no directory is
      cases hw : t.walk maxLinks (startOf home dir) (components dir ++ [name]) with
      | error e => simp
      | ok l =>
        obtain ⟨d, hleads⟩ := leads_of_walk_append hw
        rw [dirAt, walkDir_eq_ok_iff.mpr hleads] at hd
        cases hd
    | ok d =>
      have hleads := walkDir_eq_ok_iff.mp hd
      obtain ⟨left, hwalk⟩ := hleads.walk_append
      obtain ⟨hdot, hdots⟩ := isName_iff.mp (isName_of_isComponent h)
      rw [hwalk, walk_cons, if_neg (by simpa using hleads.get?_eq), if_neg hdot, if_neg hdots]
      by_cases hlen : maxName < name.utf8ByteSize
      · simp [hlen]
      · simp only [hd, hlen, if_false] at hlink ⊢
        cases hn : t.get? (d ++ [name]) with
        | none => simp [hn]
        | some n =>
          cases n with
          | link target => exact absurd hn (hlink _ target rfl)
          | file old => simp [hn]
          | dir => simp [hn]
          | device dev => simp [hn]

/-! ## Changes that keep every place

Uploads only ever put files where there was a file or nothing, and remove files.  `Touches` says
that a tree was changed in this way and at no location outside a set; such a change moves no
directory, so every name keeps its place. -/

/-- What stands at a location is neither a directory nor a link.  Replacing one plain node by
another never changes where a path leads. -/
def Plain (n : Option Node) : Prop := n ≠ some .dir ∧ ∀ target, n ≠ some (.link target)

/-- Nothing is plain. -/
theorem plain_none : Plain none := ⟨by simp, by simp⟩

/-- A file is plain, whatever it holds. -/
theorem plain_file (data : Bytes) : Plain (some (.file data)) := ⟨by simp, by simp⟩

/-- What stands at a location is a file, or nothing: no device either, so it can be opened, written
and removed. -/
def Ordinary (n : Option Node) : Prop := n = none ∨ ∃ data, n = some (.file data)

/-- Files and free locations are plain. -/
theorem Ordinary.plain {n : Option Node} (h : Ordinary n) : Plain n := by
  rcases h with rfl | ⟨data, rfl⟩
  · exact plain_none
  · exact plain_file data

/-- And no device. -/
theorem Ordinary.ne_device {n : Option Node} (h : Ordinary n) (d : Device) :
    n ≠ some (.device d) := by
  rcases h with rfl | ⟨data, rfl⟩ <;> simp

/-- `t'` is `t` with plain nodes changed inside `S`.  That the disk has room without end is said
here too, because every write keeps it so. -/
structure Touches (t t' : Tree) (S : Location → Prop) : Prop where
  same : ∀ l, ¬S l → t'.get? l = t.get? l
  plain : ∀ l, t'.get? l ≠ t.get? l → Plain (t.get? l) ∧ Plain (t'.get? l)
  room : t'.room = none ↔ t.room = none

namespace Touches

variable {t t' t'' : Tree} {S S' : Location → Prop}

/-- Doing nothing touches nothing. -/
theorem refl (t : Tree) (S : Location → Prop) : Touches t t S :=
  ⟨fun _ _ => rfl, fun _ h => absurd rfl h, Iff.rfl⟩

/-- It touches less than a larger set. -/
theorem mono (h : Touches t t' S) (hS : ∀ l, S l → S' l) : Touches t t' S' :=
  ⟨fun l hl => h.same l fun hs => hl (hS l hs), h.plain, h.room⟩

/-- One change after the other.  A location that both changed is plain before the first and after
the second. -/
theorem trans (h : Touches t t' S) (h' : Touches t' t'' S) : Touches t t'' S := by
  refine ⟨fun l hl => (h'.same l hl).trans (h.same l hl), ?_, h'.room.trans h.room⟩
  intro l hne
  by_cases h1 : t'.get? l = t.get? l
  · rw [← h1] at hne ⊢
    exact h'.plain l hne
  · refine ⟨(h.plain l h1).1, ?_⟩
    -- changed by the first and left alone by the second, or changed by both
    by_cases h2 : t''.get? l = t'.get? l
    · rw [h2]; exact (h.plain l h1).2
    · exact (h'.plain l h2).2

/-- Plain changes keep all directories and links, because where one stands, before or after, nothing
was changed. -/
theorem sameFrame (h : Touches t t' S) : SameFrame t t' := by
  constructor
  · intro l
    by_cases he : t'.get? l = t.get? l
    · rw [he]
    · obtain ⟨h1, h2⟩ := h.plain l he
      exact ⟨fun hd => absurd hd h1.1, fun hd => absurd hd h2.1⟩
  · intro l s
    by_cases he : t'.get? l = t.get? l
    · rw [he]
    · obtain ⟨h1, h2⟩ := h.plain l he
      exact ⟨fun hd => absurd hd (h1.2 s), fun hd => absurd hd (h2.2 s)⟩

/-- Changes inside a directory leave the directory where it is.  Where no directory is, no operation
has a place, and then nothing was changed at all. -/
theorem dirAt_eq (h : Touches t t' S) {dir dir' : String}
    (hS : ∀ l, S l → ∃ d, t.dirAt dir = .ok d)
    (hdir : ∀ d, t.dirAt dir = .ok d → ∃ d', t.dirAt dir' = .ok d') :
    t'.dirAt dir' = t.dirAt dir' := by
  by_cases hd : ∃ d, t.dirAt dir = .ok d
  · obtain ⟨d, hd⟩ := hd
    obtain ⟨d', hd'⟩ := hdir d hd
    rw [dirAt_of_sameFrame h.sameFrame hd', hd']
  · refine dirAt_congr (fun l => h.same l fun hl => hd (hS l hl)) dir'

end Touches

end Tree

end LiveIngest.Storage
