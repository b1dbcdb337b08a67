import LiveIngest.Upload.Reply

/-!
# Routing

A request target is a path, possibly with a query, or an absolute address with the path inside.
Everything that is posted is an upload, wherever to; any other method is refused.  One path is
special: `/health` answers `GET` and `HEAD` with a note that the server is alive.

`HEAD` is answered like `GET`, without the body.
-/

namespace LiveIngest.Http

open LiveIngest.Text

/-- What stands in front of the query and the fragment. -/
def beforeQuery (s : List Char) : List Char := s.takeWhile fun c => c ≠ '?' && c ≠ '#'

/-- What stands behind `://`, if that occurs. -/
def afterScheme? : List Char → Option (List Char)
  | [] => none
  | ':' :: '/' :: '/' :: r => some r
  | _ :: r => afterScheme? r

/-- A path that is empty stands for the root. -/
def rootIfEmpty (path : List Char) : List Char := if path = [] then ['/'] else path

/-- The path of a request target. -/
def targetPath (target : String) : String :=
  let s := target.toList
  String.ofList <|
    match s with
    | '/' :: _ => beforeQuery s
    | _ =>
      match afterScheme? s with
      | some rest => rootIfEmpty (beforeQuery (rest.dropWhile fun c => c ≠ '/' && c ≠ '?' && c ≠ '#'))
      | none => if s = ['*'] then s else []

/-- Where a request leads. -/
inductive Route
  /-- To the note that the server is alive. -/
  | liveness
  /-- To the uploads, with the path that counts. -/
  | upload (path : String)
  /-- Nowhere: the path takes uploads only. -/
  | uploadsOnly
  /-- Nowhere: the path takes uploads and questions about the server's life. -/
  | healthOnly
deriving DecidableEq, Repr

/-- The path that tells whether the server is alive. -/
def healthPath : String := "/health"

/-- Where a request leads. -/
def route (method target : String) : Route :=
  let path := targetPath target
  if method = "POST" then .upload path
  else if path = healthPath then
    if method = "GET" ∨ method = "HEAD" then .liveness else .healthOnly
  else .uploadsOnly

/-- What a response carries. -/
inductive Content
  | nothing
  | text (body : String)
  /-- The note that the server is alive, with its version. -/
  | alive (version : String)
deriving DecidableEq, Repr

/-- A response. -/
structure Response where
  status : Nat
  contentType : Option String
  allow : Option String
  content : Content
deriving DecidableEq, Repr

namespace Response

/-- The content type of the note that the server is alive. -/
def jsonType : String := "application/json"

/-- The response that carries a reply to an upload. -/
def ofReply (r : Upload.Reply) : Response :=
  ⟨r.status, some Upload.Reply.contentType, none, .text r.body⟩

def uploadsOnly : Response :=
  ⟨405, some Upload.Reply.contentType, some "POST", .text "method not allowed"⟩

def healthOnly : Response := ⟨405, none, some "GET,HEAD,POST", .nothing⟩

def alive (version : String) : Response := ⟨200, some jsonType, none, .alive version⟩

/-- What is left of a response to a question that wants no body. -/
def forMethod (r : Response) (method : String) : Response :=
  if method = "HEAD" then { r with content := .nothing } else r

/-- Whether a response reports success. -/
def isSuccess (r : Response) : Bool := 200 ≤ r.status && r.status < 300

end Response

end LiveIngest.Http
