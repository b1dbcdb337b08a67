import LiveIngest.Text.Ascii

/-!
# Segments of a live stream

A live encoder uploads one manifest, one initialisation header and then media chunks, strictly in
that order.  Nothing in such an upload says which of the three it is, so its place in the session
decides: place 0 is the manifest, place 1 the header, every later place a chunk.  The place also
names the file: `live.mpd`, `live_live.hdr`, and `live_live_1.chk` onwards for the stream `live`.

A client may label its uploads.  The label is read as a hint of the kind; any label that is not of
the known shapes gives no hint.
-/

namespace LiveIngest.Segment

open LiveIngest.Text

/-- The three kinds of segment. -/
inductive Kind
  | manifest
  | header
  | chunk
deriving DecidableEq, Repr

def Kind.name : Kind → String
  | .manifest => "manifest"
  | .header => "header"
  | .chunk => "chunk"

def Kind.all : List Kind := [.manifest, .header, .chunk]

/-- The kind of that name. -/
def Kind.ofName? (name : String) : Option Kind := Kind.all.find? (·.name == name)

/-- The kind of the segment at a place of the session. -/
def Kind.ofIndex : Nat → Kind
  | 0 => .manifest
  | 1 => .header
  | _ => .chunk

/-- The kind that a client's label hints at. -/
def Kind.ofContentId? (contentId : String) : Option Kind :=
  let id := lower contentId.toList
  if id = "manifest".toList ∨ endsWith id ".mpd".toList then some .manifest
  else if endsWith id ".hdr".toList then some .header
  else if endsWith id ".chk".toList then some .chunk
  else none

/-- The file of the segment at a place of the session. -/
def fileName (stream : String) : Nat → String
  | 0 => stream ++ ".mpd"
  | 1 => stream ++ "_" ++ stream ++ ".hdr"
  | k => stream ++ "_" ++ stream ++ "_" ++ toString (k - 1) ++ ".chk"

end LiveIngest.Segment
