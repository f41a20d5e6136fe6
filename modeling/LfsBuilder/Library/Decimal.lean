import Mathlib

/-!
# Decimal numbers

The numbers of bc, whose digits after the point count as tenths, hundredths and
so on, and its test for one number being at least another one.

* `Decimal.le_iff_value_le`: the comparison of two such numbers is that of their
  values;
* `Decimal.parse?_numerals`: the number of two numerals with a point between
  them.
-/

/-- A decimal number: its digits, read as one number, and how many are after the point. -/
structure Decimal where
  unscaled : ℕ
  scale : ℕ
  deriving DecidableEq

namespace Decimal

/-- The value of a number. -/
def value (x : Decimal) : ℚ := x.unscaled / 10 ^ x.scale

/-- The comparison, on whole numbers. -/
def le (x y : Decimal) : Bool := x.unscaled * 10 ^ y.scale ≤ y.unscaled * 10 ^ x.scale

/-- The number of a text: digits, with at most one point. -/
def parse? (text : List Char) : Option Decimal :=
  match text.splitOn '.' with
  | [whole] => if whole ≠ [] ∧ whole.all Char.isDigit then
      some ⟨Nat.ofDigitChars 10 whole 0, 0⟩ else none
  | [whole, fraction] => if whole ++ fraction ≠ [] ∧ (whole ++ fraction).all Char.isDigit then
      some ⟨Nat.ofDigitChars 10 (whole ++ fraction) 0, fraction.length⟩ else none
  | _ => none

/-- `echo "x >= y" | bc -l`: a text that is not a number is an error, and prints nothing. -/
def bcGreaterEqual (x y : String) : String :=
  match parse? x.toList, parse? y.toList with
  | some a, some b => if b.le a then "1" else "0"
  | _, _ => ""

theorem le_iff_value_le {x y : Decimal} : x.le y = true ↔ x.value ≤ y.value := by
  rw [le, decide_eq_true_eq, value, value, div_le_div_iff₀ (by positivity) (by positivity)]
  exact_mod_cast Iff.rfl

/-- Two numerals with a point between them. -/
theorem parse?_numerals {text : List Char} {m n : ℕ}
    (htext : text.splitOn '.' = [Nat.toDigits 10 m, Nat.toDigits 10 n]) : parse? text =
      some ⟨m * 10 ^ (Nat.toDigits 10 n).length + n, (Nat.toDigits 10 n).length⟩ := by
  have hdigits : (Nat.toDigits 10 m ++ Nat.toDigits 10 n).all Char.isDigit = true := by
    refine List.all_eq_true.2 fun d hd => ?_
    rcases List.mem_append.1 hd with hd | hd <;>
      exact Nat.isDigit_of_mem_toDigits (by decide) (by decide) hd
  have hvalue : Nat.ofDigitChars 10 (Nat.toDigits 10 m ++ Nat.toDigits 10 n) 0 =
      m * 10 ^ (Nat.toDigits 10 n).length + n := by
    rw [Nat.ofDigitChars_append, Nat.ofDigitChars_ten_toDigits,
      Nat.ofDigitChars_eq_ofDigitChars_zero, Nat.ofDigitChars_ten_toDigits, Nat.mul_comm]
  rw [parse?, htext]
  simp only [hvalue, hdigits]
  rw [if_pos ⟨List.append_ne_nil_of_left_ne_nil Nat.toDigits_ne_nil _, trivial⟩]

example : bcGreaterEqual "2.4" "2.31" = "1" := by decide +kernel

end Decimal
