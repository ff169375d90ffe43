import Http1.Text.Decimal
import Http1.Transport.Error

/-!
How a streamed entity fails: its sender left too early, or the transport broke.
-/

namespace Http1

inductive EntityError where
  | truncated (expected received : Nat)
  | transport (why : TransportError)
  deriving DecidableEq, Repr

namespace EntityError

def message : EntityError → Text
  | truncated e r =>
    "entity truncated, received ".toList ++ decimal r ++ " of ".toList ++ decimal e ++
      " bytes".toList
  | transport why => "entity io error: ".toList ++ why.message

def isTruncated : EntityError → Bool
  | truncated .. => true
  | transport _ => false

def cause? : EntityError → Option TransportError
  | truncated .. => none
  | transport why => some why

end EntityError

end Http1
