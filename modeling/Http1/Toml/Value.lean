import Http1.Bytes

/-!
Values of a TOML document.

A table remembers how it came to be, because that decides whether a later line may still add to
it. Tables under one repeated header are kept with the last one apart, which is the one that
later lines mean.
-/

namespace Http1.Toml

/-- How a table came to be. -/
inductive Origin where
  /-- Written out between braces, and closed by them. -/
  | braces
  /-- By a header of its own. -/
  | header
  /-- On the way of a header that leads further down. -/
  | implied
  /-- By a dotted key. -/
  | dotted
  deriving DecidableEq, Repr

inductive Value where
  | text (t : Text)
  | integer (n : Int)
  /-- A float, which only its kind is kept of. -/
  | float
  | boolean (b : Bool)
  /-- A date, a time or both, which only its kind is kept of. -/
  | moment
  | array (items : List Value)
  | table (origin : Origin) (fields : List (Text × Value))
  /-- The tables of a repeated header: the last one, and those before it from the last to the
  first. -/
  | tables (last : List (Text × Value)) (earlier : List (List (Text × Value)))

/-- A table's entries in order of their first mention. No name occurs twice. -/
abbrev Fields := List (Text × Value)

namespace Fields

def get? (fs : Fields) (name : Text) : Option Value := fs.lookup name

/-- The entries with a value put at that name, in its old place if it has one. -/
def put (fs : Fields) (name : Text) (v : Value) : Fields :=
  if (fs.get? name).isSome then fs.map fun (n, w) => if n = name then (n, v) else (n, w)
  else fs ++ [(name, v)]

end Fields

end Http1.Toml
