import LiveIngest.Storage.Operations

/-!
# Writing to an open file

A write is carried out in the background, in pieces of at most `maxPiece` bytes: handing over a
piece succeeds at once, and a failure of the disk shows at the next piece or when the file is
flushed.  A failed piece may have stored its first bytes.  `flatten_pieces` says that cutting into
pieces changes nothing about the bytes, and `length_of_mem_pieces` that each piece is a legal one.

A `Handle` is an open file: what it leads to, where the next byte goes, and the failure that has
not been reported yet.  Storing an upload durably takes three steps: writing all of it, flushing,
and syncing, which a device refuses.
-/

namespace LiveIngest.Storage

/-- The largest piece that is written at once. -/
def maxPiece : Nat := 2 * 1024 * 1024

/-- An open file. -/
structure Handle where
  target : Target
  /-- Where the next byte goes; nothing means the end of the file, wherever that is. -/
  offset : Option Nat
  /-- A failure that the next step will report. -/
  pending : Option Errno
deriving DecidableEq, Repr

/-- `data` with `bytes` put at `offset`, over what stands there; a gap is filled with zeros. -/
def overlay (data : Bytes) (offset : Nat) (bytes : Bytes) : Bytes :=
  data.take offset ++ List.replicate (offset - data.length) 0 ++ bytes
    ++ data.drop (offset + bytes.length)

/-- Writing at the end of the data appends to them. -/
theorem overlay_length (data bytes : Bytes) : overlay data data.length bytes = data ++ bytes := by
  simp [overlay]

/-- The pieces in which bytes are written; no bytes, no piece. -/
def pieces (bytes : Bytes) : List Bytes :=
  if bytes = [] then []
  else if bytes.length ≤ maxPiece then [bytes]
  else bytes.take maxPiece :: pieces (bytes.drop maxPiece)
termination_by bytes.length
decreasing_by
  simp only [List.length_drop, maxPiece] at *
  omega

/-- Cutting into pieces loses nothing and adds nothing. -/
theorem flatten_pieces (bytes : Bytes) : (pieces bytes).flatten = bytes := by
  fun_induction pieces bytes with
  | case1 => rfl
  | case2 bytes h hle => simp
  | case3 bytes h hle ih => rw [List.flatten_cons, ih, List.take_append_drop]

/-- Every piece is one that can be written at once, and none is empty. -/
theorem length_of_mem_pieces {bytes piece : Bytes} (h : piece ∈ pieces bytes) :
    0 < piece.length ∧ piece.length ≤ maxPiece := by
  fun_induction pieces bytes with
  | case1 => simp at h
  | case2 bytes hnil hle =>
    rw [List.mem_singleton] at h
    subst h
    exact ⟨List.length_pos_iff.mpr hnil, hle⟩
  | case3 bytes hnil hle ih =>
    rcases List.mem_cons.mp h with rfl | hrest
    · have hpos : 0 < maxPiece := by decide
      have hlen := List.length_take (i := maxPiece) (l := bytes)
      omega
    · exact ih hrest

/-- How many of `n` bytes the disk still takes. -/
def Tree.fitting (t : Tree) (n : Nat) : Nat :=
  match t.room with
  | none => n
  | some r => min r n

/-- The disk after `n` more bytes were written to files. -/
def Tree.using (t : Tree) (n : Nat) : Tree := { t with room := t.room.map (· - n) }

namespace Handle

/-- A handle that writes from the start of an emptied file. -/
def fresh (target : Target) : Handle := ⟨target, some 0, none⟩

/-- A handle that writes at the end of a file. -/
def atEnd (target : Target) : Handle := ⟨target, none, none⟩

/-- Carries out the write of one piece. -/
def store (h : Handle) (t : Tree) (piece : Bytes) : Handle × Tree :=
  match h.target with
  | .device .null => (h, t)
  | .device .full => ({ h with pending := some .noSpace }, t)
  | .file l =>
    match t.get? l with
    | some (.file data) =>
      let kept := piece.take (t.fitting piece.length)
      let place := h.offset.getD data.length
      let t' := (t.using kept.length).put l (.file (overlay data place kept))
      let fault := if kept.length < piece.length then some Errno.noSpace else none
      ({ h with offset := h.offset.map (· + kept.length), pending := fault }, t')
    | _ => (h, t)

/-- Hands over pieces; the failure of an earlier one stops this. -/
def writePieces (h : Handle) (t : Tree) : List Bytes → Except Errno Handle × Tree
  | [] => (.ok h, t)
  | piece :: rest =>
    match h.pending with
    | some e => (.error e, t)
    | none =>
      let (h', t') := h.store t piece
      h'.writePieces t' rest

/-- Hands over all of `bytes`. -/
def write (h : Handle) (t : Tree) (bytes : Bytes) : Except Errno Handle × Tree :=
  h.writePieces t (pieces bytes)

/-- Waits for what was handed over and reports whether it failed. -/
def flush (h : Handle) : Except Errno Unit :=
  match h.pending with
  | some e => .error e
  | none => .ok ()

/-- Makes what was written durable. -/
def sync (h : Handle) : Except Errno Unit :=
  match h.target with
  | .file _ => .ok ()
  | .device _ => .error .invalid

end Handle

end LiveIngest.Storage
