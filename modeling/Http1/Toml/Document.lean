import Http1.Toml.Statement

/-!
A document as a table: its statements, each in the place where the header above it points.
-/

namespace Http1.Toml

/-- A document up to some line. -/
structure Document where
  fields : Fields
  /-- The table under the last header. -/
  here : List Text

namespace Document

/-- The names of a key from the first to the last but one, and the last. -/
def parentAndName (k : Key) : List Text × Text :=
  let names := k.first :: k.more
  (names.dropLast, names.getLast (by simp [names]))

/-- A document with one more statement. -/
def step (d : Document) : Statement → Option Document
  | .entry k v =>
    (d.fields.within d.here fun fs => fs.add true k.first k.more v).map fun fs =>
      { d with fields := fs }
  | .header k =>
    let (parent, name) := parentAndName k
    (d.fields.within parent (Fields.openTable name)).map fun fs => ⟨fs, k.first :: k.more⟩
  | .repeated k =>
    let (parent, name) := parentAndName k
    (d.fields.within parent (Fields.openNext name)).map fun fs => ⟨fs, k.first :: k.more⟩

def ofStatements? (ss : List Statement) : Option Document := ss.foldlM step ⟨[], []⟩

end Document

/-- The table of a document. -/
def Fields.ofText? (t : Text) : Option Fields :=
  (statements? t).bind fun ss => (Document.ofStatements? ss).map (·.fields)

end Http1.Toml
