import Http1.Text.Blank
import Http1.Text.Quoted

/-!
Request methods.

Nine methods are standard and recognised by their exact name; any other token is a custom
method. A custom method may carry a standard name without being that standard method.
-/

namespace Http1

/-- The standard methods. -/
inductive Verb where
  | get
  | head
  | post
  | put
  | delete
  | connect
  | options
  | trace
  | patch
  deriving DecidableEq, Repr

namespace Verb

def all : List Verb := [get, head, post, put, delete, connect, options, trace, patch]

def name : Verb → Text
  | get => "GET".toList
  | head => "HEAD".toList
  | post => "POST".toList
  | put => "PUT".toList
  | delete => "DELETE".toList
  | connect => "CONNECT".toList
  | options => "OPTIONS".toList
  | trace => "TRACE".toList
  | patch => "PATCH".toList

/-- The standard method of exactly that name. -/
def ofName? (t : Text) : Option Verb := all.find? fun v => v.name == t

theorem mem_all (v : Verb) : v ∈ all := by cases v <;> decide

@[simp] theorem ofName?_name (v : Verb) : ofName? v.name = some v := by cases v <;> decide

theorem name_of_ofName? {t : Text} {v : Verb} (h : ofName? t = some v) : v.name = t := by
  simpa using List.find?_some h

theorem ofName?_eq_some_iff {t : Text} {v : Verb} : ofName? t = some v ↔ v.name = t :=
  ⟨name_of_ofName?, fun h => h ▸ ofName?_name v⟩

end Verb

inductive Method where
  | standard (verb : Verb)
  | custom (token : Trimmed)
  deriving DecidableEq

namespace Method

def blankMessage : Text := "method cannot be empty".toList

/-- The custom method of a token, unless the token is blank. -/
def custom? (t : Text) : Option Method := (Trimmed.ofText? t).map custom

/-- The standard method that the trimmed token names exactly, else a custom one. -/
def ofToken? (t : Text) : Option Method :=
  match Verb.ofName? (trim t) with
  | some v => some (standard v)
  | none => custom? t

def name : Method → Text
  | standard v => v.name
  | custom t => t.text

def isStandard : Method → Bool
  | standard _ => true
  | custom _ => false

/-- A description that tells a custom method from the standard one of its name. -/
def describe : Method → Text
  | standard v => v.name
  | custom t => "Custom(".toList ++ quoted t.text ++ [')']

end Method

end Http1
