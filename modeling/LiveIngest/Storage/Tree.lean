import LiveIngest.Bytes
import LiveIngest.Storage.Errno
import LiveIngest.Storage.Path

/-!
# The files on disk

The disk is a finite map from locations to nodes.  A location is the list of names that lead from
the root to a node, with all links resolved; a node is a file, a directory, a symbolic link or one
of two devices.  The root is always a directory.

`Tree.get?` is the view of a tree.  `Tree.put` and `Tree.remove` change it at one location and
nowhere else; the lemmas below say so, and nothing later unfolds the two.

A disk may be short of room: `room` is the number of bytes that can still be written to files, or
nothing if the disk never fills up.
-/

namespace LiveIngest.Storage

/-- The two devices: one swallows every byte, the other refuses every byte. -/
inductive Device
  | null
  | full
deriving DecidableEq, Repr

/-- What stands at a location. -/
inductive Node
  | file (data : Bytes)
  | dir
  | link (target : String)
  | device (device : Device)
deriving DecidableEq, Repr

/-- The names from the root to a node. -/
abbrev Location := List String

/-- The state of the disk. -/
structure Tree where
  entries : List (Location × Node)
  room : Option Nat
deriving DecidableEq, Repr

namespace Tree

/-- The directory that relative paths start from. -/
def home : Location := ["home"]

/-- A disk that holds an empty home directory and the two devices. -/
def empty : Tree where
  entries := [(home, .dir), (["dev"], .dir), (["dev", "null"], .device .null),
    (["dev", "full"], .device .full)]
  room := none

/-- What stands at a location. -/
def get? (t : Tree) (l : Location) : Option Node :=
  if l = [] then some .dir else t.entries.lookup l

/-- Puts a node at a location, in place of what stands there. -/
def put (t : Tree) (l : Location) (n : Node) : Tree :=
  { t with entries := (l, n) :: t.entries.filter (fun e => !(e.1 == l)) }

/-- Takes away what stands at a location. -/
def remove (t : Tree) (l : Location) : Tree :=
  { t with entries := t.entries.filter (fun e => !(e.1 == l)) }

/-! ## The view of a tree -/

theorem lookup_filter_ne {l k : Location} (h : k ≠ l) :
    ∀ es : List (Location × Node),
      (es.filter (fun e => !(e.1 == l))).lookup k = es.lookup k
  | [] => rfl
  | (m, n) :: r => by
    by_cases hm : m = l
    · subst hm
      have : (k == m) = false := by simpa using h
      simp [List.lookup_cons, lookup_filter_ne h r, this]
    · simp [hm, List.lookup_cons, lookup_filter_ne h r]

theorem lookup_filter_self {l : Location} :
    ∀ es : List (Location × Node), (es.filter (fun e => !(e.1 == l))).lookup l = none
  | [] => rfl
  | (m, n) :: r => by
    by_cases hm : m = l
    · subst hm
      simp [lookup_filter_self r]
    · have : (l == m) = false := by simpa using fun e => hm e.symm
      simp [hm, List.lookup_cons, this, lookup_filter_self r]

@[simp] theorem get?_put_self {t : Tree} {l : Location} {n : Node} (h : l ≠ []) :
    (t.put l n).get? l = some n := by
  simp [get?, put, h]

theorem get?_put_of_ne {t : Tree} {l k : Location} {n : Node} (h : k ≠ l) :
    (t.put l n).get? k = t.get? k := by
  have hb : (k == l) = false := by simpa using h
  simp [get?, put, List.lookup_cons, hb, lookup_filter_ne h]

@[simp] theorem get?_remove_self {t : Tree} {l : Location} (h : l ≠ []) :
    (t.remove l).get? l = none := by
  simp [get?, remove, h, lookup_filter_self]

theorem get?_remove_of_ne {t : Tree} {l k : Location} (h : k ≠ l) :
    (t.remove l).get? k = t.get? k := by
  simp [get?, remove, lookup_filter_ne h]

/-! ## What stands below a directory -/

/-- The order of names is the order of their bytes. -/
def bytesLe (a b : String) : Bool := decide (Bytes.ofString a ≤ Bytes.ofString b)

/-- The nodes below the home directory, by path relative to it, in the order of the paths. -/
def listing (t : Tree) : List (String × Node) :=
  let below := t.entries.filterMap fun (l, n) =>
    if home.isPrefixOf l ∧ l ≠ home then some ("/".intercalate (l.drop home.length), n) else none
  below.mergeSort fun a b => bytesLe a.1 b.1

end Tree

end LiveIngest.Storage
