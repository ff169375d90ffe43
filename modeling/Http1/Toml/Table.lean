import Http1.Toml.Value

/-!
How keys and headers build a table.

Nothing is said twice: a name has one value, a table has one header, and a table that is written
in braces is complete. A dotted key goes on only in tables that no header has opened, and a
header leads through any table but one in braces.
-/

namespace Http1.Toml

/-- A name, behind the names of the tables that lead to it. -/
structure Key where
  first : Text
  more : List Text
  deriving DecidableEq, Repr

namespace Fields

/-- Adds an entry under a dotted key. An entry goes into the table that the key starts from, or
into one that dotted keys have made, which `mayAdd` tells. -/
def add (mayAdd : Bool) (fs : Fields) (name : Text) (more : List Text) (v : Value) :
    Option Fields :=
  match more with
  | [] => if mayAdd && (fs.get? name).isNone then some (fs.put name v) else none
  | next :: more =>
    match fs.get? name with
    | none => (add true [] next more v).map fun inner => fs.put name (.table .dotted inner)
    | some (.table .dotted inner) =>
      (add true inner next more v).map fun inner => fs.put name (.table .dotted inner)
    | some (.table .implied inner) =>
      (add false inner next more v).map fun inner => fs.put name (.table .implied inner)
    | some (.tables last earlier) =>
      (add false last next more v).map fun last => fs.put name (.tables last earlier)
    | _ => none

/-- The table of entries between braces. -/
def ofEntries? (entries : List (Key × Value)) : Option Fields :=
  entries.foldlM (fun fs (k, v) => fs.add true k.first k.more v) []

/-- Changes the table to which the names lead, making those on the way that are not there. -/
def within (fs : Fields) (path : List Text) (f : Fields → Option Fields) : Option Fields :=
  match path with
  | [] => f fs
  | name :: path =>
    match fs.get? name with
    | none => (within [] path f).map fun inner => fs.put name (.table .implied inner)
    | some (.table .braces _) => none
    | some (.table o inner) => (within inner path f).map fun inner => fs.put name (.table o inner)
    | some (.tables last earlier) =>
      (within last path f).map fun last => fs.put name (.tables last earlier)
    | _ => none

/-- Opens the table of a header. One that was only on the way of other headers may still have its
own. -/
def openTable (name : Text) (fs : Fields) : Option Fields :=
  match fs.get? name with
  | none => some (fs.put name (.table .header []))
  | some (.table .implied inner) => some (fs.put name (.table .header inner))
  | _ => none

/-- Opens one more table of a repeated header. -/
def openNext (name : Text) (fs : Fields) : Option Fields :=
  match fs.get? name with
  | none => some (fs.put name (.tables [] []))
  | some (.tables last earlier) => some (fs.put name (.tables [] (last :: earlier)))
  | _ => none

end Fields

end Http1.Toml
