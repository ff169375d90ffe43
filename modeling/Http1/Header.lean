import Http1.Text.Blank
import Http1.Text.Case
import Http1.Text.Decimal
import Http1.Text.Quoted

/-!
Header fields, kept as a list in order of arrival.

A field's name and value are trimmed and never empty. Names are compared up to the case of
ASCII letters, and a look-up answers with the first field of that name.
-/

namespace Http1

inductive HeaderError where
  | emptyName
  | emptyValue
  deriving DecidableEq, Repr

def HeaderError.message : HeaderError → Text
  | emptyName => "header name cannot be empty".toList
  | emptyValue => "header value cannot be empty".toList

structure Header where
  name : Trimmed
  value : Trimmed
  deriving DecidableEq

namespace Header

/-- A field from its two texts; the name is checked first. -/
def make (name value : Text) : Except HeaderError Header :=
  match Trimmed.ofText? name, Trimmed.ofText? value with
  | none, _ => .error .emptyName
  | some _, none => .error .emptyValue
  | some name, some value => .ok ⟨name, value⟩

/-- The field has that name, up to the case of ASCII letters. -/
def is (h : Header) (name : Text) : Bool := sameFold h.name.text name

/-- The first field of that name. -/
def find? (hs : List Header) (name : Text) : Option Header := hs.find? (·.is name)

def contentLengthName : Trimmed := ⟨"Content-Length".toList, by decide, by decide⟩

def contentTypeName : Trimmed := ⟨"Content-Type".toList, by decide, by decide⟩

def connectionName : Trimmed := ⟨"Connection".toList, by decide, by decide⟩

def contentLength (n : Nat) : Header :=
  ⟨contentLengthName, ⟨decimal n, decimal_ne_nil n, trim_decimal n⟩⟩

/-- The media type of the entity, unless it is blank. -/
def contentType (mediaType : Text) : Except HeaderError Header :=
  make contentTypeName.text mediaType

/-- The length that the headers declare: the first `Content-Length` that is a number and not
negative. Other values are passed over. -/
def contentLength? (hs : List Header) : Option Nat :=
  (hs.filter (·.is contentLengthName.text)).findSome? fun h => readLength? h.value.text

def describe (h : Header) : Text := h.name.text ++ ": ".toList ++ quoted h.value.text

theorem make_eq_ok_iff {n v : Text} {h : Header} :
    make n v = .ok h ↔ trim n = h.name.text ∧ trim v = h.value.text := by
  obtain ⟨hn, hv⟩ := h
  rw [← Trimmed.ofText?_eq_some_iff, ← Trimmed.ofText?_eq_some_iff]
  unfold make
  cases Trimmed.ofText? n <;> cases Trimmed.ofText? v <;> simp

end Header

end Http1
