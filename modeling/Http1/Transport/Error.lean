import Http1.Bytes

/-!
How a transport fails.
-/

namespace Http1

inductive TransportError where
  | reset
  | aborted
  | brokenPipe
  | timedOut
  | unexpectedEof
  | writeZero
  deriving DecidableEq, Repr

def TransportError.message : TransportError → Text
  | reset => "connection reset".toList
  | aborted => "connection aborted".toList
  | brokenPipe => "broken pipe".toList
  | timedOut => "timed out".toList
  | unexpectedEof => "unexpected end of file".toList
  | writeZero => "write zero".toList

end Http1
