import Script.Text.Decimal

/-!
# Integers

The integers of the language are 64-bit words in two's complement. This module relates them to
unbounded numbers: which literals fit, which integers address an element, how a length is counted.
-/

namespace Script
namespace Integer

/-- The least integer. -/
def least : Int := Int64.minValue.toInt

/-- The greatest integer. -/
def greatest : Int := Int64.maxValue.toInt

/-- The integer with value `n`, if `n` is in range. -/
def ofInt? (n : Int) : Option Int64 :=
  if least ≤ n ∧ n ≤ greatest then some (Int64.ofInt n) else none

/-- The integer a literal denotes. Literals carry no sign, so only the upper bound matters. -/
def ofLiteral? (digits : List Char) : Option Int64 :=
  ofInt? (Decimal.toNat digits)

/-- The position an integer addresses: none for negative ones. -/
def toIndex? (n : Int64) : Option Nat :=
  if n < 0 then none else some n.toNatClampNeg

/-- A count as an integer. A count above the greatest integer stops there. -/
def ofLength (n : Nat) : Int64 :=
  Int64.ofNat (min n greatest.toNat)

/-- An integer in decimal. -/
def text (n : Int64) : List Char :=
  Decimal.ofInt n.toInt

/-- Any integer but the least one is in range with the other sign. -/
theorem toInt_neg {n : Int64} (ne : n ≠ Int64.minValue) : (-n).toInt = -n.toInt := by
  have lower := n.le_toInt
  have upper := n.toInt_lt
  have other : n.toInt ≠ -2 ^ 63 := fun same => ne (Int64.toInt_inj.1 same)
  rw [Int64.toInt_neg, Int.bmod_eq_of_le (by omega) (by omega)]

/-- Only nothing is counted as zero, since the greatest integer is positive. -/
theorem ofLength_eq_zero (n : Nat) : ofLength n = 0 ↔ n = 0 := by
  have top : greatest.toNat = 2 ^ 63 - 1 := rfl
  have small : min n greatest.toNat < 2 ^ 63 := by omega
  rw [← Int64.toInt_inj, ofLength, Int64.toInt_ofNat_of_lt small, Int64.toInt_zero]
  omega

end Integer
end Script
