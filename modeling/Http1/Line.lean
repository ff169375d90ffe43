import Http1.Lexicon
import Http1.RequestLine
import Http1.Scan.Token

/-!
The lines of a request head.

Each reader takes its line from the front of the bytes, or is pending with the bytes as they
were. A method is read up to a space and a header name up to a colon, whatever stands before
it. Main statement: each of them shortens its input.
-/

namespace Http1

namespace Line

def space : Bytes := [32]

def colon : Bytes := [58]

def method (l : Limits) : Scanner ParseError Method :=
  (token space l.method true).tryMap fun t =>
    match Method.ofToken? (latin1 t) with
    | some m => .ok m
    | none => .error .illegalMethod

def target (l : Lexicon) : Scanner ParseError Target :=
  (token space l.target true).tryMap fun t =>
    match l.target? t with
    | some u => .ok u
    | none => .error .illegalTarget

def version (l : Limits) : Scanner ParseError Version :=
  (token crlf l.version true).tryMap fun t =>
    match Version.ofToken? t with
    | some v => .ok v
    | none => .error .illegalVersion

/-- Method, space, target, space, version, line end. -/
def request (l : Lexicon) : Scanner ParseError RequestLine :=
  ((method l).andThen fun m => (target l).andThen fun t => (version l).map fun v => ⟨m, t, v⟩).whole

/-- Name, colon, value, line end. -/
def header (l : Limits) : Scanner ParseError Header :=
  ((token colon l.headerName true).andThen fun name =>
    (token crlf l.headerValue true).tryMap fun value =>
      match Header.make (latin1 name) (latin1 value) with
      | .ok h => .ok h
      | .error e => .error (.illegalHeader e)).whole

/-- The empty line that ends a head; a bare line feed will do. -/
def empty : Scanner ParseError Unit
  | 13 :: 10 :: rest => .ok (.done () rest)
  | 10 :: rest => .ok (.done () rest)
  | [] => .ok (.pending [])
  | _ => .error .expectingEmptyLine

/-! ### Progress -/

theorem space_ne_nil : space ≠ [] := by decide

theorem colon_ne_nil : colon ≠ [] := by decide

theorem crlf_ne_nil : crlf ≠ [] := by decide

theorem method_shortens (l : Limits) : (method l).Shortens :=
  (token_shortens space_ne_nil _).tryMap _

theorem target_shortens (l : Lexicon) : (target l).Shortens :=
  (token_shortens space_ne_nil _).tryMap _

theorem version_shortens (l : Limits) : (version l).Shortens :=
  (token_shortens crlf_ne_nil _).tryMap _

theorem request_shortens (l : Lexicon) : (request l).Shortens :=
  ((method_shortens l).andThen fun _ =>
    (target_shortens l).andThen fun _ => (version_shortens l).map _).whole

theorem header_shortens (l : Limits) : (header l).Shortens :=
  ((token_shortens colon_ne_nil _).andThen fun _ => (token_shortens crlf_ne_nil _).tryMap _).whole

theorem empty_shortens : empty.Shortens := by
  intro input a r h
  unfold empty at h
  split at h
  · cases h
    exact Nat.lt_succ_of_lt (Nat.lt_succ_self _)
  · cases h
    exact Nat.lt_succ_self _
  · cases h
  · cases h

theorem request_rewinds (l : Lexicon) : (request l).Rewinds := Scanner.whole_rewinds _

theorem header_rewinds (l : Limits) : (header l).Rewinds := Scanner.whole_rewinds _

theorem empty_rewinds : empty.Rewinds := by
  intro input r h
  unfold empty at h
  split at h <;> simp_all

end Line

end Http1
