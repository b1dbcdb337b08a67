import LiveIngest.Storage.Tree

/-!
# From paths to locations

The system reads a path component by component.  A `.` stays, a `..` goes up, a name goes down; a
symbolic link on the way is replaced by the path it holds.  Whatever is walked through must be a
directory, a name has at most `maxName` bytes, and at most `maxLinks` links are followed.

The last component is special, because each operation does something else with it: create it,
remove it, follow it.  `Tree.spot` therefore stops in front of it and returns the directory it is
in.  `Tree.walk` is the whole walk, for operations that want the node at the end.
-/

namespace LiveIngest.Storage

/-- The longest name of one component, in bytes. -/
def maxName : Nat := 255

/-- The longest path, in bytes, without the mark behind it. -/
def maxPath : Nat := 4095

/-- The largest number of links followed for one path. -/
def maxLinks : Nat := 40

/-- Where a path starts. -/
def startOf (base : Location) (path : String) : Location :=
  if Path.isAbsolute path then [] else base

namespace Tree

/-- Follows components from a location.  A link on the way is left to `follow`, which gets the place
where its path starts and all that is still to be followed. -/
def walkUsing (t : Tree) (follow : Location → List String → Except Errno Location)
    (here : Location) : List String → Except Errno Location
  | [] => .ok here
  | c :: rest =>
    if t.get? here ≠ some .dir then .error .notDirectory
    else if c = "." then t.walkUsing follow here rest
    else if c = ".." then t.walkUsing follow here.dropLast rest
    else if maxName < c.utf8ByteSize then .error .nameTooLong
    else
      match t.get? (here ++ [c]) with
      | none => if rest = [] then .ok (here ++ [c]) else .error .notFound
      | some (.link target) => follow (startOf here target) (Path.components target ++ rest)
      | some _ => t.walkUsing follow (here ++ [c]) rest

/-- Follows components from a location; every link is followed, also at the end, but only so many.
The location returned may hold nothing if only the last name is missing. -/
def walk (t : Tree) : Nat → Location → List String → Except Errno Location
  | 0 => t.walkUsing fun _ _ => .error .linkLoop
  | n + 1 => t.walkUsing fun here cs => t.walk n here cs

@[simp] theorem walk_nil (t : Tree) (links : Nat) (here : Location) :
    t.walk links here [] = .ok here := by
  cases links <;> rfl

/-- What a walk does with one component. -/
theorem walk_cons (t : Tree) (links : Nat) (here : Location) (c : String) (rest : List String) :
    t.walk links here (c :: rest) =
      if t.get? here ≠ some .dir then .error .notDirectory
      else if c = "." then t.walk links here rest
      else if c = ".." then t.walk links here.dropLast rest
      else if maxName < c.utf8ByteSize then .error .nameTooLong
      else
        match t.get? (here ++ [c]) with
        | none => if rest = [] then .ok (here ++ [c]) else .error .notFound
        | some (.link target) =>
          match links with
          | 0 => .error .linkLoop
          | n + 1 => t.walk n (startOf here target) (Path.components target ++ rest)
        | some _ => t.walk links (here ++ [c]) rest := by
  cases links <;> rfl

-- later proofs take one component at a time and never run a walk
attribute [irreducible] walk

/-- A walk shortens what is still to be followed, or follows a link, of which few are left: what
holds of a walk can be shown along these two. -/
theorem walk_induction {motive : Nat → Location → List String → Prop}
    (nil : ∀ links here, motive links here [])
    (cons : ∀ links here c rest, (∀ l, motive links l rest) →
      (∀ n l cs, n < links → motive n l cs) → motive links here (c :: rest))
    (links : Nat) (here : Location) (cs : List String) : motive links here cs := by
  induction links using Nat.strongRecOn generalizing here cs with
  | ind links fewer =>
    induction cs generalizing here with
    | nil => exact nil links here
    | cons c rest ih => exact cons links here c rest ih fun n l cs hn => fewer n hn l cs

/-- The directory that a walk ends in. -/
def walkDir (t : Tree) (here : Location) (cs : List String) : Except Errno Location :=
  match t.walk maxLinks here cs with
  | .error e => .error e
  | .ok l =>
    match t.get? l with
    | none => .error .notFound
    | some .dir => .ok l
    | some _ => .error .notDirectory

end Tree

/-- The last component of a path, seen from the directory it is in. -/
structure Spot where
  /-- The directory. -/
  dir : Location
  /-- The name, or nothing when the path ends in `.`, in `..` or at the root. -/
  name : Option String
  /-- Whether a separator follows, so that a directory is wanted. -/
  slash : Bool
deriving DecidableEq, Repr

/-- Whether a component is a name and not one of the two dot components. -/
def isName (c : String) : Bool := c ≠ "." && c ≠ ".."

namespace Tree

/-- Walks up to the last component of a path that starts at `base`. -/
def spotFrom (t : Tree) (base : Location) (path : String) : Except Errno Spot :=
  let start := startOf base path
  match (Path.components path).getLast? with
  | none => .ok ⟨start, none, false⟩
  | some last =>
    match t.walkDir start (Path.components path).dropLast with
    | .error e => .error e
    | .ok dir =>
      if ¬isName last then .ok ⟨dir, none, false⟩
      else .ok ⟨dir, some last, Path.endsInSeparator path⟩

/-- Refuses a path that cannot be handed to the system. -/
def checkPath (path : String) : Except Errno Unit :=
  if path.toList.contains '\x00' then .error .nulInPath
  else if maxPath < path.utf8ByteSize then .error .nameTooLong
  else if path = "" then .error .notFound
  else .ok ()

/-- Walks up to the last component of a path. -/
def spot (t : Tree) (path : String) : Except Errno Spot :=
  match checkPath path with
  | .error e => .error e
  | .ok () => t.spotFrom home path

/-- Whether a path leads to a directory. -/
def isDirectory (t : Tree) (path : String) : Bool :=
  match checkPath path with
  | .error _ => false
  | .ok () =>
    match t.walkDir (startOf home path) (Path.components path) with
    | .ok _ => true
    | .error _ => false

end Tree

end LiveIngest.Storage
