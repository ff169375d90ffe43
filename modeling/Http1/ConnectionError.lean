import Http1.ParseError
import Http1.Entity.Error

/-!
What ends a connection before its time.
-/

namespace Http1

inductive ConnectionError where
  | parse (why : ParseError)
  | transport (why : TransportError)
  | entity (why : EntityError)
  | unexpectedFrame
  deriving DecidableEq, Repr

namespace ConnectionError

def isParse : ConnectionError → Bool
  | parse _ => true
  | _ => false

/-- The message of the failure behind it. -/
def cause? : ConnectionError → Option Text
  | parse e => some e.message
  | transport e => some e.message
  | entity e => some e.message
  | unexpectedFrame => none

def message : ConnectionError → Text
  | parse e => "parse error: ".toList ++ e.message
  | transport e => "io error: ".toList ++ e.message
  | entity e => "entity error: ".toList ++ e.message
  | unexpectedFrame => "unexpected frame".toList

end ConnectionError

end Http1
