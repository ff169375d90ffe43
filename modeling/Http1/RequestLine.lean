import Http1.Method
import Http1.Target
import Http1.Version

/-!
The request line: method, target and version.
-/

namespace Http1

structure RequestLine where
  method : Method
  target : Target
  version : Version
  deriving DecidableEq

end Http1
