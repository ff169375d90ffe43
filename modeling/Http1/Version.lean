import Http1.Bytes

/-!
Protocol versions: HTTP/1.0 and HTTP/1.1, each recognised by its exact token.
-/

namespace Http1

inductive Version where
  | http10
  | http11
  deriving DecidableEq, Repr

namespace Version

def name : Version → Text
  | http10 => "HTTP/1.0".toList
  | http11 => "HTTP/1.1".toList

def token (v : Version) : Bytes := utf8 v.name

def ofToken? (b : Bytes) : Option Version :=
  if b = http10.token then some http10 else if b = http11.token then some http11 else none

/-- The version of a message that names none. -/
def default : Version := http11

/-- The order in which the versions appeared. -/
def before : Version → Version → Bool
  | http10, http11 => true
  | _, _ => false

theorem ofToken?_eq_some_iff {b : Bytes} {v : Version} : ofToken? b = some v ↔ b = v.token := by
  have h : http10.token ≠ http11.token := by decide
  unfold ofToken?
  cases v <;> split <;> (try split) <;> simp_all [eq_comm]

end Version

end Http1
