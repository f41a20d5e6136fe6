import LfsBuilder.Library.Shell

/-!
# Arithmetic of the shell

The texts that bash takes for numbers, in `[[ x -gt y ]]` and in `$((x))`. An
empty text is zero and a decimal numeral is its number; any other text is an
expression, with names to look up, and comes to whatever the shell says.

* `Arith.eval`, `Arith.compare`: the value of a text, and a comparison;
* `Sh.compare`, `Sh.expand`: a test and an expansion that may end the shell.
-/

namespace Shell

variable {σ : Type*} {c : Ctx} {Q : Post σ} {s : σ} {p q : Sh σ}

/-- What an expression comes to: a number, an error, or, under `set -u`, a name without
    a value. -/
inductive Arith
  | value (n : ℤ)
  | error
  | unset

namespace Arith

/-- The numbers of the shell have 64 bits. -/
def wrap (n : ℤ) : ℤ := n.bmod (2 ^ 64)

/-- The number of a decimal numeral. (One that begins with zero is octal, unless it is zero.) -/
def numeral? (text : String) : Option ℕ :=
  let digits := text.toList
  let n := digits.foldl (fun n d => 10 * n + (d.toNat - '0'.toNat)) 0
  if digits ≠ [] ∧ digits.all Char.isDigit ∧ (digits.head? = some '0' → digits = ['0']) ∧
      n < 2 ^ 63 then some n else none

/-- The value of a text, with those of the other expressions. -/
def eval (other : String → Arith) (text : String) : Arith :=
  if text = "" then .value 0 else (numeral? text).elim (other text) fun n => .value n

/-- `[[ x -gt y ]]`, for the relation `r`: an error is a failure, and a name without a value
    ends the shell. -/
def compare (r : ℤ → ℤ → Bool) : Arith → Arith → Option Bool
  | unset, _ => none
  | error, _ => some false
  | value _, unset => none
  | value _, error => some false
  | value a, value b => some (r a b)

/-- The number in an expansion, which ends the shell without one. -/
def number? : Arith → Option ℤ
  | value n => some n
  | _ => none

/-- Only the numeral of zero begins with zero. -/
theorem eq_zero_of_head?_toDigits {n : ℕ} (h : (Nat.toDigits 10 n).head? = some '0') : n = 0 := by
  induction n using Nat.base_induction 10 (by decide) with
  | single m hm =>
    interval_cases m <;> first | rfl | exact absurd h (by decide)
  | digit m k hk hm ih =>
    rw [← Nat.toDigits_append_toDigits (by decide) hm hk,
      List.head?_append_of_ne_nil _ Nat.toDigits_ne_nil] at h
    exact absurd (ih h) hm.ne'

/-- The decimal numerals of the numbers below 2^63 are read back. -/
theorem numeral?_repr (n : ℕ) : numeral? n.repr = if n < 2 ^ 63 then some n else none := by
  have hdigits : ((Nat.toDigits 10 n).all Char.isDigit) = true :=
    List.all_eq_true.2 fun d hd => Nat.isDigit_of_mem_toDigits (by decide) (by decide) hd
  have hzero : (Nat.toDigits 10 n).head? = some '0' → Nat.toDigits 10 n = ['0'] := fun h => by
    rw [eq_zero_of_head?_toDigits h, Nat.toDigits_zero]
  have hvalue : (Nat.toDigits 10 n).foldl (fun n d => 10 * n + (d.toNat - '0'.toNat)) 0 = n :=
    Nat.ofDigitChars_ten_toDigits
  simp only [numeral?, Nat.toList_repr, hvalue]
  exact if_congr ⟨fun h => h.2.2.2, fun h => ⟨Nat.toDigits_ne_nil, hdigits, hzero, h⟩⟩ rfl rfl

theorem wrap_of_lt {n : ℕ} (hn : n < 2 ^ 63) : wrap n = n := by
  rw [wrap, Int.bmod_eq_of_le] <;> omega

@[simp] theorem eval_repr (other : String → Arith) {n : ℕ} (hn : n < 2 ^ 63) :
    eval other n.repr = .value n := by
  rw [eval, if_neg Nat.repr_ne_empty, numeral?_repr, if_pos hn]
  rfl

example : (eval (fun _ => .unset) "6").compare (fun a b => a > b) (eval (fun _ => .unset) "08") =
    none := by decide +kernel

end Arith

namespace Sh

/-- A test that ends the shell without a result. -/
def compare (b : Option Bool) : Sh σ := b.elim (.exit 1) fun b => .test fun _ => b

/-- An expansion to a number, which ends the shell without one. -/
def expand (n : Option ℤ) (set : ℤ → σ → σ) : Sh σ := n.elim (.exit 1) fun n => .assign (set n)

end Sh

theorem wp_ite_compare {b : Option Bool} : wp (.ite (.compare b) p q) c Q s ↔
    b.elim (Q.exit 1 s) fun b => if b then wp p c Q s else wp q c Q s := by
  cases b with
  | none => rfl
  | some b => exact wp_ite_test

theorem wp_compare_guard {b : Option Bool} : wp (.compare b) c.guard Q s ↔
    b.elim (Q.exit 1 s) fun b => if b then Q.next 0 s else Q.next 1 s := by
  cases b with
  | none => rfl
  | some b => exact wp_test_guard

theorem wp_expand {n : Option ℤ} {set : ℤ → σ → σ} : wp (.expand n set) c Q s ↔
    n.elim (Q.exit 1 s) fun n => Q.next 0 (set n s) := by
  cases n <;> rfl

end Shell
