import Http1.Entity
import Http1.Header
import Http1.Status

/-!
A response: its status, its headers in the order they are written, and its entity. Headers are
not checked against one another or against the entity.
-/

namespace Http1

structure Response where
  status : Status
  headers : List Header
  entity : Entity

namespace Response

/-- A response without a body, which says so. -/
def bodiless (s : Status) : Response := ⟨s, [Header.contentLength 0], .empty⟩

/-- Success without a body. -/
def default : Response := bodiless .ok

/-- Success with a body: its length, and its media type unless that is blank. -/
def ok (mediaType : Text) (e : Entity) : Response :=
  ⟨.ok, Header.contentLength e.length :: (Header.contentType mediaType).toOption.toList, e⟩

def header? (r : Response) (name : Text) : Option Header := Header.find? r.headers name

def push (r : Response) (h : Header) : Response := { r with headers := r.headers ++ [h] }

end Response

end Http1
