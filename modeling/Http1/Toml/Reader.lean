import Http1.Bytes

/-!
Readers from the front of a text.

A reader takes something or refuses. Repetition goes on as long as each item takes at least one
character, so it comes to an end whatever the item is.
-/

namespace Http1.Toml

abbrev Reader := StateT Text Option

namespace Reader

/-- The next character, without taking it. -/
def peek? : Reader (Option Char) := fun t => some (t.head?, t)

/-- Takes exactly these characters. -/
def expect (word : Text) : Reader Unit := fun t =>
  if word.isPrefixOf t then some ((), t.drop word.length) else none

/-- Takes characters as long as they are in a class. -/
def takeWhile (p : Char → Bool) : Reader Text := fun t => some (t.takeWhile p, t.dropWhile p)

/-- A space or a tab. -/
def isGap (c : Char) : Bool := c = ' ' || c = '\t'

def gap : Reader Unit := fun t => some ((), t.dropWhile isGap)

/-- Takes the end of a line, or is at the end of the text. -/
def lineEnd : Reader Unit := fun t =>
  match t with
  | [] => some ((), [])
  | '\n' :: r => some ((), r)
  | '\r' :: '\n' :: r => some ((), r)
  | _ => none

/-- Takes items to the end of the text. -/
def toEnd {α : Type} (item : Reader α) (t : Text) : Option (List α) :=
  if t = [] then some []
  else
    match item t with
    | some (a, r) => if r.length < t.length then (toEnd item r).map (a :: ·) else none
    | none => none
termination_by t.length

/-- Takes items with a separator between them. -/
def separated {α : Type} (item : Reader α) (sep : Reader Unit) : Reader (List α) := fun t =>
  match item t with
  | none => none
  | some (a, r) =>
    match sep r with
    | none => some ([a], r)
    | some ((), r') =>
      if r'.length < t.length then
        match separated item sep r' with
        | some (as, r'') => some (a :: as, r'')
        | none => some ([a], r)
      else none
termination_by t => t.length

end Reader

end Http1.Toml
