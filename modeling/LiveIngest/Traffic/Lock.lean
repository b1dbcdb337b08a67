/-!
# Locks

Uploads that run at the same time are kept apart by fair locks.  A `Mutex` has at most one holder;
whoever comes later waits in line, and a release hands the lock straight to the first in line, so
nobody can slip in between.

Each destination that is being written to has a lock of its own, found through the `LockTable`.  A
call takes a reference to the lock before it asks for it and gives the reference back at the end;
the call that gives back the last one takes the entry out of the table.  A call that vanishes on the
way drops its reference without looking after the entry.
-/

namespace LiveIngest.Traffic

/-- An upload in progress, by the order of arrival. -/
abbrev TaskId := Nat

/-- A fair lock: its holder, and those in line for it. -/
structure Mutex where
  holder : Option TaskId
  waiting : List TaskId
deriving DecidableEq, Repr

namespace Mutex

/-- A lock that nobody holds. -/
def free : Mutex := ⟨none, []⟩

/-- Takes the lock if it is free, else a place in line. -/
def enter (m : Mutex) (i : TaskId) : Mutex :=
  match m.holder with
  | none => { m with holder := some i }
  | some _ => { m with waiting := m.waiting ++ [i] }

/-- Hands the lock to the first in line. -/
def handOver (m : Mutex) : Mutex :=
  match m.waiting with
  | [] => ⟨none, []⟩
  | j :: rest => ⟨some j, rest⟩

/-- Gives up the lock or the place in line. -/
def leave (m : Mutex) (i : TaskId) : Mutex :=
  if m.holder = some i then m.handOver else { m with waiting := m.waiting.erase i }

end Mutex

/-- A lock as it is named in the table. -/
abbrev LockId := Nat

/-- A lock of the table, and how many calls have a reference to it. -/
structure SharedLock where
  mutex : Mutex
  refs : Nat
deriving DecidableEq, Repr

/-- The locks of the destinations: which lock a destination has now, and all locks ever made. -/
structure LockTable where
  entries : List (String × LockId)
  locks : List SharedLock
deriving DecidableEq, Repr

namespace LockTable

def empty : LockTable := ⟨[], []⟩

/-- The lock that a destination has now. -/
def entry? (t : LockTable) (destination : String) : Option LockId := t.entries.lookup destination

/-- The mutex of a lock. -/
def mutex (t : LockTable) (l : LockId) : Mutex :=
  match t.locks[l]? with
  | some lock => lock.mutex
  | none => Mutex.free

/-- Changes the mutex of a lock. -/
def onMutex (t : LockTable) (l : LockId) (f : Mutex → Mutex) : LockTable :=
  { t with locks := t.locks.modify l fun lock => { lock with mutex := f lock.mutex } }

/-- Changes the number of references to a lock. -/
def onRefs (t : LockTable) (l : LockId) (f : Nat → Nat) : LockTable :=
  { t with locks := t.locks.modify l fun lock => { lock with refs := f lock.refs } }

/-- Takes a reference to the lock of a destination, which is made if there is none. -/
def reference (t : LockTable) (destination : String) : LockId × LockTable :=
  match t.entry? destination with
  | some l => (l, t.onRefs l (· + 1))
  | none =>
    let l := t.locks.length
    (l, ⟨(destination, l) :: t.entries, t.locks ++ [⟨Mutex.free, 1⟩]⟩)

/-- Drops a reference. -/
def dropRef (t : LockTable) (l : LockId) : LockTable := t.onRefs l (· - 1)

/-- Whether some call has a reference to a lock. -/
def isReferenced (t : LockTable) (l : LockId) : Bool :=
  match t.locks[l]? with
  | some lock => lock.refs != 0
  | none => false

/-- Drops a reference, and takes the entry of the destination out of the table if no call has a
reference to its lock any more. -/
def release (t : LockTable) (destination : String) (l : LockId) : LockTable :=
  let t' := t.dropRef l
  match t'.entry? destination with
  | none => t'
  | some current =>
    if t'.isReferenced current then t'
    else { t' with entries := t'.entries.filter fun e => !(e.1 == destination) }

end LockTable

end LiveIngest.Traffic
