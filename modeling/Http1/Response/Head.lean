import Http1.Response
import Http1.Version

/-!
The head of a response on the wire: the status line, a line per header, and an empty line.

Nothing is escaped and nothing is added.
-/

namespace Http1

namespace Response

/-- Version, space, code, space, phrase, line end. -/
def statusLine (v : Version) (s : Status) : Bytes :=
  v.token ++ [32] ++ utf8 (decimal s.value) ++ [32] ++ utf8 s.name.text ++ crlf

/-- Name, colon, value, line end. -/
def headerLine (h : Header) : Bytes := utf8 h.name.text ++ [58] ++ utf8 h.value.text ++ crlf

def encodeHead (v : Version) (s : Status) (hs : List Header) : Bytes :=
  statusLine v s ++ hs.flatMap headerLine ++ crlf

end Response

end Http1
