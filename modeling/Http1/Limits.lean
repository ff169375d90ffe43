/-!
The longest fields of a request. A longer field is an error and not cut short.
-/

namespace Http1

structure Limits where
  headerName : Nat
  headerValue : Nat
  method : Nat
  target : Nat
  version : Nat
  deriving DecidableEq, Repr

def Limits.default : Limits := ⟨256, 8192, 16, 8192, 16⟩

end Http1
