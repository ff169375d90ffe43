import Http1.Bytes

/-!
Log records: a level and a text.
-/

namespace Http1

inductive Level where
  | debug
  | warn
  | error
  deriving DecidableEq, Repr

structure Record where
  level : Level
  text : Text
  deriving DecidableEq, Repr

end Http1
