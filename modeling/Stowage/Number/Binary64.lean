set_option autoImplicit false

namespace Stowage

/-- A finite number counts units of two to the power -1074. -/
inductive Binary64
  | nan
  | infinite (negative : Bool)
  | finite (negative : Bool) (units : Nat)
  deriving DecidableEq, Repr, Inhabited

namespace Binary64

def fractionBits : Nat := 1074

def significantBits : Nat := 53

def twoTo (exponent : Nat) : Nat := Nat.pow 2 exponent

def tenTo (exponent : Nat) : Nat := Nat.pow 10 exponent

def one : Nat := twoTo fractionBits

def limit : Nat := twoTo (1024 + fractionBits)

def zero : Binary64 := finite false 0

def value? : Binary64 -> Option Int
  | finite true units => some (-units)
  | finite false units => some units
  | _ => none

def less : Binary64 -> Binary64 -> Bool
  | nan, _ => false
  | _, nan => false
  | infinite a, infinite b => a && !b
  | infinite a, finite _ _ => a
  | finite _ _, infinite b => !b
  | a@(finite _ _), b@(finite _ _) => (a.value?.getD 0) < (b.value?.getD 0)

def roundQuotient (numerator denominator : Nat) : Nat :=
  let quotient := numerator / denominator
  let twice := 2 * (numerator % denominator)
  if twice < denominator then quotient
  else if denominator < twice then quotient + 1
  else if quotient % 2 = 0 then quotient else quotient + 1

def ofUnits (negative : Bool) (numerator denominator : Nat) : Binary64 :=
  let whole := numerator / denominator
  let shift := if whole < twoTo significantBits then 0 else whole.log2 + 1 - significantBits
  let units := roundQuotient numerator (denominator * twoTo shift) * twoTo shift
  if units < limit then finite negative units else infinite negative

def ofDecimal (negative : Bool) (digits : Nat) (exponent : Int) : Binary64 :=
  let magnitude := exponent + ((Nat.toDigits 10 digits).length : Int)
  if digits = 0 then finite negative 0
  else if magnitude < -400 then finite negative 0
  else if 400 < magnitude then infinite negative
  else if 0 ≤ exponent then
    ofUnits negative (digits * tenTo exponent.toNat * one) 1
  else
    ofUnits negative (digits * one) (tenTo (-exponent).toNat)

def tenths (count : Nat) : Binary64 := ofDecimal false count (-1)

end Binary64

end Stowage
