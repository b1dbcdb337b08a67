import LiveIngest.Upload.Plan

/-!
# Replies

Every upload is answered with a status and a line of plain text.  A stored upload is answered 200,
with `Post OK` or, for chunked uploads, nothing.  A failure is answered with its wording: 400 if the
request itself was at fault, 500 otherwise.
-/

namespace LiveIngest.Upload

/-- The answer to an upload. -/
structure Reply where
  status : Nat
  body : String
deriving DecidableEq, Repr

/-- The status of a failure. -/
def statusOf : ErrorKind → Nat
  | .classification => 400
  | _ => 500

namespace Reply

/-- The content type of every reply. -/
def contentType : String := "text/plain; charset=utf-8"

/-- Whether a reply reports success. -/
def isSuccess (r : Reply) : Bool := 200 ≤ r.status && r.status < 300

/-- The reply to a stored upload; the mode is missing when the request was never understood. -/
def stored : Option Mode → Reply
  | some mode => if mode.isChunked then ⟨200, ""⟩ else ⟨200, "Post OK"⟩
  | none => ⟨200, "Post OK"⟩

/-- The reply to a failure of that kind and wording. -/
def failed (kind : ErrorKind) (message : String) : Reply := ⟨statusOf kind, message⟩

end Reply

end LiveIngest.Upload
