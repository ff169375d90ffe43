import Http1.Header
import Http1.Text.Split

/-!
The `Connection` header: a list of tokens separated by commas, of which three are recognised.

A value without a recognised token says nothing, and of several `Connection` headers the first
that says something counts.
-/

namespace Http1

/-- What a token asks of the connection. -/
inductive ConnectionOption where
  | close
  | keepAlive
  | upgrade
  deriving DecidableEq, Repr

namespace ConnectionOption

def name : ConnectionOption → Text
  | close => "close".toList
  | keepAlive => "keep-alive".toList
  | upgrade => "upgrade".toList

/-- The option that a token names, blanks around it and case aside. -/
def ofToken? (t : Text) : Option ConnectionOption :=
  [close, keepAlive, upgrade].find? fun o => sameFold (trim t) o.name

end ConnectionOption

/-- The recognised tokens of a value. -/
structure ConnectionOptions where
  close : Bool
  keepAlive : Bool
  upgrade : Bool
  deriving DecidableEq, Repr

namespace ConnectionOptions

/-- The options that a value names, in order. -/
def recognised (value : Text) : List ConnectionOption :=
  (split ',' value).filterMap ConnectionOption.ofToken?

/-- The options of a value, unless it names none. -/
def parse (value : Text) : Option ConnectionOptions :=
  let os := recognised value
  if os = [] then none
  else some ⟨os.contains .close, os.contains .keepAlive, os.contains .upgrade⟩

/-- The first `Connection` header that names an option decides. -/
def ofHeaders (hs : List Header) : Option ConnectionOptions :=
  (hs.filter (·.is Header.connectionName.text)).findSome? fun h => parse h.value.text

end ConnectionOptions

end Http1
