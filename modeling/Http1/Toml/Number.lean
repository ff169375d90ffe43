import Http1.Text.Decimal
import Http1.Text.Split
import Http1.Toml.Quoted

/-!
Integers and floats.

Digits may be grouped by single underscores. Integers are within 64 signed bits; a float past the
largest one is refused, but one past the smallest is not.
-/

namespace Http1.Toml

/-- Digits of a class in groups joined by underscores, without the underscores. -/
def grouped? (isDigit : Char → Bool) (t : Text) : Option Text :=
  let groups := split '_' t
  if groups.all fun g => g ≠ [] && g.all isDigit then some groups.flatten else none

/-- Digits without a zero in front, unless that is all. -/
def plainDigits? (t : Text) : Option Text :=
  match t with
  | '0' :: _ :: _ => none
  | _ => grouped? Char.isDigit t

/-- The sign in front, which is a minus or not, and what follows it. -/
def signed : Text → Bool × Text
  | '-' :: r => (true, r)
  | '+' :: r => (false, r)
  | r => (false, r)

/-! ### Integers -/

/-- A number written in digits of some base, within 63 bits. -/
def based? (base : Nat) (isDigit : Char → Bool) (t : Text) : Option Int :=
  (grouped? isDigit t).bind fun ds =>
    let n := digitsValue base ds
    if n < pastInt64 then some n else none

/-- An integer: in hexadecimal, octal or binary without a sign, or in decimal with or without. -/
def integer? (t : Text) : Option Int :=
  match t with
  | '0' :: 'x' :: r => based? 16 isHexDigit r
  | '0' :: 'o' :: r => based? 8 (fun c => '0' ≤ c && c ≤ '7') r
  | '0' :: 'b' :: r => based? 2 (fun c => c = '0' || c = '1') r
  | _ =>
    let (negative, r) := signed t
    (plainDigits? r).bind fun ds =>
      let n := digitsValue 10 ds
      if negative then (if n ≤ pastInt64 then some (-(n : Int)) else none)
      else if n < pastInt64 then some n
      else none

/-! ### Floats -/

/-- Where rounding to a double leads past the largest one: half a step above it. -/
def pastDoubles : Nat := Nat.pow 2 1024 - Nat.pow 2 970

/-- The number of these digits, times a power of ten, rounds to a double. -/
def isDouble (digits : Text) (exponent : Int) : Bool :=
  let ds := digits.dropWhile (· = '0')
  let top := (ds.length : Int) + exponent
  let n := digitsValue 10 ds
  if ds = [] || top ≤ 308 then true
  else if 310 < top then false
  else n * Nat.pow 10 exponent.toNat < pastDoubles * Nat.pow 10 (-exponent).toNat

/-- A part of a text before the first character of a class, and the part behind that character,
if there is one. -/
def cut (p : Char → Bool) (t : Text) : Text × Option Text :=
  (t.takeWhile (!p ·), (t.dropWhile (!p ·)).tail? )

/-- An exponent, or nothing for none. -/
def exponent? : Option Text → Option Int
  | none => some 0
  | some t =>
    let (negative, r) := signed t
    (grouped? Char.isDigit r).map fun ds =>
      if negative then -(digitsValue 10 ds : Int) else digitsValue 10 ds

/-- A float in digits: with a fraction, an exponent or both. -/
def isDecimalFloat (negative : Bool) (t : Text) : Bool :=
  let (mantissa, e) := cut (fun c => c = 'e' || c = 'E') t
  let (whole, fraction) := cut (· = '.') mantissa
  let fractionDigits := match fraction with
    | none => some []
    | some f => grouped? Char.isDigit f
  match plainDigits? whole, fractionDigits, exponent? e with
  | some w, some f, some x =>
    (fraction.isSome || e.isSome) && (negative || isDouble (w ++ f) (x - f.length))
  | _, _, _ => false

/-- The text is a float. -/
def isFloat (t : Text) : Bool :=
  let (negative, r) := signed t
  r = "inf".toList || r = "nan".toList || isDecimalFloat negative r

end Http1.Toml
