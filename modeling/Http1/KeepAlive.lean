import Http1.Header.Connection
import Http1.Request

/-!
Whether a connection goes on after a response: in HTTP/1.1 it does unless the request asks to
close, and in HTTP/1.0 it does not unless the request asks to keep it.
-/

namespace Http1

/-- The connection closes after a message of that version with those headers. -/
def shouldClose (v : Version) (hs : List Header) : Bool :=
  match v, ConnectionOptions.ofHeaders hs with
  | .http11, some o => o.close
  | .http11, none => false
  | .http10, some o => !o.keepAlive
  | .http10, none => true

def Request.shouldClose (r : Request) : Bool := Http1.shouldClose r.line.version r.headers

end Http1
