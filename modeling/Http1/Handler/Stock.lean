import Http1.Handler

/-!
Handlers in stock: one that shows that the server is alive, the first match of a list, and
plans that answer from the entity in one way or another.
-/

namespace Http1

def textPlain : Text := "text/plain".toList

def octetStream : Text := "application/octet-stream".toList

namespace Handler

def pingPath : Text := "/ping".toList

/-- Answers `pong` to a `GET` of the ping path. -/
def ping : Handler where
  accepts r := r.line.method == .standard .get && r.line.target.path == pingPath
  plan _ := .now (.respond (.ok textPlain (.strict (utf8 "pong".toList))))

/-- The first handler that accepts the request answers it. A request that none of them accepts
is accepted all the same, and not found. -/
def firstOf (hs : List Handler) : Handler where
  accepts _ := true
  plan r :=
    match hs.find? (·.accepts r) with
    | some h => h.plan r
    | none => .now (.respond (.bodiless .notFound))

/-- Carries out a plan for the requests of that path and that method, if they are given. -/
def route (path method : Option Text) (plan : Request → Plan) : Handler where
  accepts r := path.all (· == r.line.target.path) && method.all (· == r.line.method.name)
  plan := plan

end Handler

namespace Plan

/-- Answers from the entity's bytes, and fails as the entity fails. -/
def fromBytes (f : Bytes → Response) : Plan :=
  collected fun
    | .ok b => .respond (f b)
    | .error e => .fail e.message

/-- The entity back. -/
def echo : Plan := fromBytes fun b => .ok octetStream (.ofBytes b)

/-- How long the entity is, by its bytes. -/
def measure : Plan := fromBytes fun b => .ok textPlain (.ofBytes (utf8 (decimal b.length)))

/-- How the entity ends. -/
def outcome : Plan :=
  collected fun e =>
    let word := match e with
      | .ok _ => "complete".toList
      | .error (.truncated ..) => "truncated".toList
      | .error (.transport _) => "io".toList
    .respond (.ok textPlain (.ofBytes (utf8 word)))

/-- The first chunk of a stream; other entities have none. -/
def firstChunk (r : Request) : Plan :=
  let answer (b : Bytes) : Answer := .respond (.ok textPlain (.ofBytes b))
  if r.entity.isStreaming then
    { early := fun got => got.head?.map answer
      final := fun
        | got, none => answer got.flatten
        | _, some e => .fail e.message }
  else .now (answer [])

/-- The entity back as it comes, under its declared length. -/
def passOn (r : Request) : Plan := .now (.forward .ok [Header.contentLength r.entity.length])

/-- The request in a line of text, under its own headers. -/
def reflect (r : Request) : Plan :=
  let line := r.line.method.name ++ ' ' :: r.line.target.display ++ ' ' :: r.line.version.name ++
    ' ' :: decimal r.entity.length
  .now (.respond ⟨.ok, r.headers, .ofBytes (utf8 line)⟩)

end Plan

end Http1
