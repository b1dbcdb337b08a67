import LiveIngest.Storage.Resolve

/-!
# File operations

The operations that ingest needs: opening a file for writing, removing one, renaming one onto
another, making directories.  Each is one step on the tree; a failed one returns its cause and
leaves the tree as it is.

Opening follows a link at the end of the path; removing and renaming act on the link itself.  Where
several things are wrong with a path, the cause reported is the first one that the walk along the
path meets.
-/

namespace LiveIngest.Storage

/-- What an opened path leads to. -/
inductive Target
  /-- A file, there already or just created. -/
  | file (location : Location)
  | device (device : Device)
deriving DecidableEq, Repr

namespace Tree

/-- Opens a path for writing, creating a file where nothing stands.  An existing file keeps its
content. -/
def openFrom (t : Tree) (links : Nat) (base : Location) (path : String) :
    Except Errno (Target × Tree) :=
  match t.spotFrom base path with
  | .error e => .error e
  | .ok spot =>
    match spot.name with
    | none => .error .isDirectory
    | some name =>
      if spot.slash then .error .isDirectory
      else if maxName < name.utf8ByteSize then .error .nameTooLong
      else
        let l := spot.dir ++ [name]
        match t.get? l with
        | none => .ok (.file l, t.put l (.file []))
        | some (.file _) => .ok (.file l, t)
        | some (.device d) => .ok (.device d, t)
        | some .dir => .error .isDirectory
        | some (.link target) =>
          match links with
          | 0 => .error .linkLoop
          | n + 1 => t.openFrom n spot.dir target

/-- Opens a path for writing at its end. -/
def openAppend (t : Tree) (path : String) : Except Errno (Target × Tree) :=
  match checkPath path with
  | .error e => .error e
  | .ok () => t.openFrom maxLinks home path

/-- Opens a path for writing from its start; an existing file is emptied. -/
def create (t : Tree) (path : String) : Except Errno (Target × Tree) :=
  match t.openAppend path with
  | .error e => .error e
  | .ok (.file l, t') => .ok (.file l, t'.put l (.file []))
  | .ok (.device d, t') => .ok (.device d, t')

/-- Removes the file or link that a path names. -/
def unlink (t : Tree) (path : String) : Except Errno Tree :=
  match t.spot path with
  | .error e => .error e
  | .ok spot =>
    match spot.name with
    | none => .error .isDirectory
    | some name =>
      if maxName < name.utf8ByteSize then .error .nameTooLong
      else
        let l := spot.dir ++ [name]
        match t.get? l with
        | none => .error .notFound
        | some .dir => .error .isDirectory
        | some _ => if spot.slash then .error .notDirectory else .ok (t.remove l)

/-- Renames the file or link at `source` to `target`, in place of what stands there. -/
def rename (t : Tree) (source target : String) : Except Errno Tree :=
  match t.spot source with
  | .error e => .error e
  | .ok src =>
    match t.spot target with
    | .error e => .error e
    | .ok dst =>
      match src.name, dst.name with
      | some srcName, some dstName =>
        if maxName < srcName.utf8ByteSize then .error .nameTooLong
        else
          match t.get? (src.dir ++ [srcName]) with
          | none => .error .notFound
          | some node =>
            if maxName < dstName.utf8ByteSize then .error .nameTooLong
            else if src.slash ∨ dst.slash then .error .notDirectory
            else if t.get? (dst.dir ++ [dstName]) = some .dir then .error .isDirectory
            else .ok ((t.remove (src.dir ++ [srcName])).put (dst.dir ++ [dstName]) node)
      | _, _ => .error .busy

/-- Makes one directory. -/
def makeDir (t : Tree) (path : String) : Except Errno Tree :=
  match t.spot path with
  | .error e => .error e
  | .ok spot =>
    match spot.name with
    | none => .error .fileExists
    | some name =>
      if maxName < name.utf8ByteSize then .error .nameTooLong
      else
        match t.get? (spot.dir ++ [name]) with
        | some _ => .error .fileExists
        | none => .ok (t.put (spot.dir ++ [name]) .dir)

/-- Makes a directory and, one after another from the outermost, the missing ones it lies in.  A
directory that is already there is no failure; those made before a failure stay.  `depth` bounds
the number of missing ones. -/
def makeDirsWithin (t : Tree) : Nat → String → Except Errno Unit × Tree
  | 0, _ => (.error .notFound, t)
  | depth + 1, path =>
    if path = "" then (.ok (), t)
    else
      match t.makeDir path with
      | .ok t' => (.ok (), t')
      | .error .notFound =>
        match Path.parent? path with
        | none => (.error .notFound, t)
        | some parent =>
          match t.makeDirsWithin depth parent with
          | (.error e, t') => (.error e, t')
          | (.ok (), t') =>
            match t'.makeDir path with
            | .ok t'' => (.ok (), t'')
            | .error e => if t'.isDirectory path then (.ok (), t') else (.error e, t')
      | .error e => if t.isDirectory path then (.ok (), t) else (.error e, t)

/-- Makes a directory together with the missing ones it lies in.  Each step up shortens the path,
so its length bounds their number. -/
def makeDirs (t : Tree) (path : String) : Except Errno Unit × Tree :=
  t.makeDirsWithin (path.length + 1) path

/-- The content of the file that a path leads to, if it leads to one. -/
def content? (t : Tree) (path : String) : Option Bytes :=
  match checkPath path with
  | .error _ => none
  | .ok () =>
    match t.walk maxLinks (startOf home path) (Path.components path) with
    | .error _ => none
    | .ok l =>
      match t.get? l with
      | some (.file data) => some data
      | _ => none

/-- Makes a symbolic link. -/
def makeLink (t : Tree) (path target : String) : Except Errno Tree :=
  match t.spot path with
  | .error e => .error e
  | .ok spot =>
    match spot.name with
    | none => .error .fileExists
    | some name =>
      match t.get? (spot.dir ++ [name]) with
      | some _ => .error .fileExists
      | none => .ok (t.put (spot.dir ++ [name]) (.link target))

end Tree

end LiveIngest.Storage
