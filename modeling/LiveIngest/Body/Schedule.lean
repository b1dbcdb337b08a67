import LiveIngest.Bytes

/-!
# Bodies over time

A body does not lie ready: it arrives piece by piece.  A `Body` is the schedule of these arrivals.
Each chunk says how long after it is asked for it is there, and what it is: bytes, possibly none;
a broken connection; nothing, ever; or the end.  Behind the last chunk the body ends.

The delay counts from the moment the reader asks, so a schedule describes the sender alone, however
slow the reader is.
-/

namespace LiveIngest.Body

/-- What arrives. -/
inductive Item
  | data (bytes : Bytes)
  /-- The connection breaks for the stated reason. -/
  | fail (reason : String)
  /-- Nothing arrives. -/
  | hang
  /-- The body ends. -/
  | finish
deriving DecidableEq, Repr

/-- One arrival: what, and how many milliseconds after it is asked for. -/
structure Chunk where
  wait : Nat
  item : Item
deriving DecidableEq, Repr

/-- The arrivals of one body, in order. -/
abbrev Schedule := List Chunk

/-- When a chunk that is asked for at `asked` is there, in milliseconds. -/
def Chunk.readyAt (c : Chunk) (asked : Nat) : Option Nat :=
  match c.item with
  | .hang => none
  | _ => some (asked + c.wait)

/-- The bytes of a chunk. -/
def Chunk.bytes (c : Chunk) : Bytes :=
  match c.item with
  | .data bytes => bytes
  | _ => []

end LiveIngest.Body
