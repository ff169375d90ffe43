import Http1.Text.Blank
import Http1.Text.Decimal
import Http1.Text.Quoted

/-!
Response statuses: a code between 100 and 999 with its reason phrase.
-/

namespace Http1

inductive StatusError where
  | value (n : Nat)
  | emptyName
  deriving DecidableEq, Repr

def StatusError.message : StatusError → Text
  | value n => "status code ".toList ++ decimal n ++ " is not within [100, 999]".toList
  | emptyName => "status code name cannot be empty".toList

structure Status where
  value : Nat
  name : Trimmed
  le_value : 100 ≤ value
  value_le : value ≤ 999
  deriving DecidableEq

namespace Status

/-- A status from its code and reason phrase; the code is checked first. -/
def make (value : Nat) (name : Text) : Except StatusError Status :=
  if h : 100 ≤ value ∧ value ≤ 999 then
    match Trimmed.ofText? name with
    | some name => .ok ⟨value, name, h.1, h.2⟩
    | none => .error .emptyName
  else .error (.value value)

def ok : Status := ⟨200, ⟨"OK".toList, by decide, by decide⟩, by decide, by decide⟩

def created : Status := ⟨201, ⟨"Created".toList, by decide, by decide⟩, by decide, by decide⟩

def noContent : Status := ⟨204, ⟨"No Content".toList, by decide, by decide⟩, by decide, by decide⟩

def badRequest : Status :=
  ⟨400, ⟨"Bad Request".toList, by decide, by decide⟩, by decide, by decide⟩

def notFound : Status := ⟨404, ⟨"Not Found".toList, by decide, by decide⟩, by decide, by decide⟩

def methodNotAllowed : Status :=
  ⟨405, ⟨"Method Not Allowed".toList, by decide, by decide⟩, by decide, by decide⟩

def requestTimeout : Status :=
  ⟨408, ⟨"Request Timeout".toList, by decide, by decide⟩, by decide, by decide⟩

def lengthRequired : Status :=
  ⟨411, ⟨"Length Required".toList, by decide, by decide⟩, by decide, by decide⟩

def contentTooLarge : Status :=
  ⟨413, ⟨"Content Too Large".toList, by decide, by decide⟩, by decide, by decide⟩

def uriTooLong : Status :=
  ⟨414, ⟨"URI Too Long".toList, by decide, by decide⟩, by decide, by decide⟩

def requestHeaderFieldsTooLarge : Status :=
  ⟨431, ⟨"Request Header Fields Too Large".toList, by decide, by decide⟩, by decide, by decide⟩

def internalServerError : Status :=
  ⟨500, ⟨"Internal Server Error".toList, by decide, by decide⟩, by decide, by decide⟩

def notImplemented : Status :=
  ⟨501, ⟨"Not Implemented".toList, by decide, by decide⟩, by decide, by decide⟩

def serviceUnavailable : Status :=
  ⟨503, ⟨"Service Unavailable".toList, by decide, by decide⟩, by decide, by decide⟩

def httpVersionNotSupported : Status :=
  ⟨505, ⟨"HTTP Version Not Supported".toList, by decide, by decide⟩, by decide, by decide⟩

/-- Client and server errors. -/
def isError (s : Status) : Bool := 400 ≤ s.value

/-- The code and the phrase, as they stand in a status line. -/
def phrase (s : Status) : Text := decimal s.value ++ ' ' :: s.name.text

def describe (s : Status) : Text :=
  "StatusCode(".toList ++ decimal s.value ++ ", ".toList ++ quoted s.name.text ++ [')']

end Status

end Http1
