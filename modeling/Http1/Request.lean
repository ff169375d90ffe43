import Http1.Entity
import Http1.RequestLine
import Http1.Header

/-!
A request: its line, its headers in order of arrival, and its entity.
-/

namespace Http1

structure Request where
  line : RequestLine
  headers : List Header
  entity : Entity

namespace Request

def header? (r : Request) (name : Text) : Option Header := Header.find? r.headers name

/-- The entity, and the request without it. -/
def takeEntity (r : Request) : Entity × Request := (r.entity, { r with entity := .empty })

end Request

end Http1
