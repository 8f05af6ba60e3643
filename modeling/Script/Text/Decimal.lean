/-!
# Decimal text

Numbers in base ten, as they stand in source text and in shown values: `ofNat` and `ofInt` write
them, `toNat` reads a run of digits, `nat?` and `int?` read a number with its sign.
-/

namespace Script
namespace Decimal

/-! ## Writing -/

/-- The digits of `n`, without leading zeros. -/
def ofNat (n : Nat) : List Char :=
  Nat.toDigits 10 n

/-- A negative number is a minus sign before the digits of its magnitude. -/
def ofInt (n : Int) : List Char :=
  if n < 0 then '-' :: ofNat n.natAbs else ofNat n.natAbs

/-! ## Reading -/

/-- The number a run of digits stands for; leading zeros count for nothing. -/
def toNat (digits : List Char) : Nat :=
  Nat.ofDigitChars 10 digits 0

/-- A non-empty run of digits. -/
def digits? (text : List Char) : Option Nat :=
  if text.all Char.isDigit && !text.isEmpty then some (toNat text) else none

/-- A whole number, with or without a plus sign. -/
def nat? : List Char → Option Nat
  | '+' :: text => digits? text
  | text => digits? text

/-- A number with an optional sign. -/
def int? : List Char → Option Int
  | '-' :: text => (digits? text).map fun n => -(n : Int)
  | text => (nat? text).map fun n => (n : Int)

/-! ## What is written reads back -/

@[simp]
theorem toNat_ofNat (n : Nat) : toNat (ofNat n) = n :=
  Nat.ofDigitChars_toDigits (by decide) (by decide)

theorem ofNat_ne_nil (n : Nat) : ofNat n ≠ [] :=
  List.ne_nil_of_length_pos Nat.length_toDigits_pos

theorem isDigit_of_mem_ofNat {n : Nat} {c : Char} (h : c ∈ ofNat n) : c.isDigit = true :=
  Nat.isDigit_of_mem_toDigits (by decide) (by decide) h

@[simp]
theorem digits?_ofNat (n : Nat) : digits? (ofNat n) = some n := by
  have all_digits : (ofNat n).all Char.isDigit = true :=
    List.all_eq_true.2 fun _ h => isDigit_of_mem_ofNat h
  have nonempty : (ofNat n).isEmpty = false := by simp [ofNat_ne_nil n]
  simp [digits?, all_digits, nonempty]

end Decimal
end Script
