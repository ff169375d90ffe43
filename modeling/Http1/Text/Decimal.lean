import Http1.Text.Blank

/-!
Decimal numerals.

A number is written in plain digits and read with an optional sign, within 64 signed bits.
Main statement: a number below `2 ^ 63` reads back.
-/

namespace Http1

def decimal (n : Nat) : Text := Nat.toDigits 10 n

theorem decimal_ne_nil (n : Nat) : decimal n ≠ [] := Nat.toDigits_ne_nil

theorem isDigit_of_mem_decimal {n : Nat} {c : Char} (h : c ∈ decimal n) : c.isDigit = true :=
  Nat.isDigit_of_mem_toDigits (by omega) (by omega) h

theorem isBlank_of_isDigit {c : Char} (h : c.isDigit = true) : isBlank c = false := by
  have h1 : 48 ≤ c.toNat ∧ c.toNat ≤ 57 := by
    simp only [Char.isDigit, Bool.and_eq_true, decide_eq_true_eq] at h
    exact ⟨h.1, h.2⟩
  simp only [isBlank, Bool.or_eq_false_iff, Bool.and_eq_false_iff, decide_eq_false_iff_not,
    beq_eq_false_iff_ne]
  omega

@[simp] theorem trim_decimal (n : Nat) : trim (decimal n) = decimal n :=
  trim_of_no_blank fun _ h => isBlank_of_isDigit (isDigit_of_mem_decimal h)

/-- The number that a non-empty row of digits stands for. -/
def readDigits? (t : Text) : Option Nat :=
  if t = [] then none
  else if t.all Char.isDigit then some (Nat.ofDigitChars 10 t 0)
  else none

/-- The first number past 64 signed bits. -/
def pastInt64 : Nat := Nat.pow 2 63

/-- Reads digits after an optional sign, within 64 signed bits. -/
def readInt64? (t : Text) : Option Int :=
  match t with
  | '-' :: r => (readDigits? r).bind fun n => if n ≤ pastInt64 then some (-(n : Int)) else none
  | '+' :: r => (readDigits? r).bind fun n => if n < pastInt64 then some (n : Int) else none
  | r => (readDigits? r).bind fun n => if n < pastInt64 then some (n : Int) else none

/-- Reads a number that is not negative, written as `readInt64?` takes it. -/
def readLength? (t : Text) : Option Nat :=
  (readInt64? t).bind fun i => if 0 ≤ i then some i.toNat else none

@[simp] theorem readDigits?_decimal (n : Nat) : readDigits? (decimal n) = some n := by
  have h : (decimal n).all Char.isDigit = true :=
    List.all_eq_true.2 fun _ hc => isDigit_of_mem_decimal hc
  simp [readDigits?, decimal_ne_nil, h]
  simp [decimal, Nat.ofDigitChars_ten_toDigits]

end Http1
