import Http1.Toml.Quoted

/-!
Dates and times of day, alone or together, and then with or without an offset.
-/

namespace Http1.Toml

/-- The number of two digits, within bounds. -/
def twoDigits? (low high : Nat) (a b : Char) : Option Nat :=
  let n := digitsValue 10 [a, b]
  if a.isDigit && b.isDigit && low ≤ n && n ≤ high then some n else none

def isLeapYear (year : Nat) : Bool := year % 4 == 0 && (year % 100 != 0 || year % 400 == 0)

def daysIn (year month : Nat) : Nat :=
  if month = 2 then (if isLeapYear year then 29 else 28)
  else if month = 4 || month = 6 || month = 9 || month = 11 then 30
  else 31

/-- What follows a date. -/
def afterDate? : Text → Option Text
  | y₁ :: y₂ :: y₃ :: y₄ :: '-' :: m₁ :: m₂ :: '-' :: d₁ :: d₂ :: r =>
    let year := [y₁, y₂, y₃, y₄]
    if year.all Char.isDigit then
      (twoDigits? 1 12 m₁ m₂).bind fun month =>
        (twoDigits? 1 (daysIn (digitsValue 10 year) month) d₁ d₂).map fun _ => r
    else none
  | _ => none

/-- What follows the hours and minutes. -/
def afterMinutes? : Text → Option Text
  | h₁ :: h₂ :: ':' :: m₁ :: m₂ :: r =>
    (twoDigits? 0 23 h₁ h₂).bind fun _ => (twoDigits? 0 59 m₁ m₂).map fun _ => r
  | _ => none

/-- What follows a time of day; the last minute may have a leap second. -/
def afterTime? (t : Text) : Option Text :=
  (afterMinutes? t).bind fun
    | ':' :: s₁ :: s₂ :: r =>
      (twoDigits? 0 60 s₁ s₂).bind fun _ =>
        match r with
        | '.' :: r =>
          if (r.takeWhile Char.isDigit) = [] then none else some (r.dropWhile Char.isDigit)
        | r => some r
    | _ => none

/-- The text is an offset from universal time. -/
def isOffset : Text → Bool
  | ['Z'] => true
  | ['z'] => true
  | '+' :: r => afterMinutes? r == some []
  | '-' :: r => afterMinutes? r == some []
  | _ => false

/-- The text is a date, a time of day, or a date with a time of day. -/
def isMoment (t : Text) : Bool :=
  match afterDate? t with
  | some [] => true
  | some (c :: r) =>
    (c = 'T' || c = 't' || c = ' ') &&
      match afterTime? r with
      | some offset => offset = [] || isOffset offset
      | none => false
  | none => afterTime? t == some []

end Http1.Toml
