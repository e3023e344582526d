import Stowage.Number.Binary64

set_option autoImplicit false

namespace Stowage.Binary64

structure Scientific where
  digits : Nat
  exponent : Int
  deriving DecidableEq, Repr

def halfGaps (units : Nat) : Nat × Nat :=
  if units < twoTo significantBits then (1, 1)
  else
    let above := twoTo (units.log2 + 1 - significantBits)
    if units = twoTo units.log2 then (above / 2, above) else (above, above)

/-- Whether a decimal reads back as the number of these units. Halfway points belong to the number
whose last significant bit is zero. -/
def readsBack (units : Nat) (decimal : Scientific) : Bool :=
  let gaps := halfGaps units
  let even := (units / gaps.2) % 2 = 0
  let up := if 0 ≤ decimal.exponent then tenTo decimal.exponent.toNat else 1
  let down := if 0 ≤ decimal.exponent then 1 else tenTo (-decimal.exponent).toNat
  let twice := 2 * decimal.digits * up * one
  let low := (2 * units - gaps.1) * down
  let high := (2 * units + gaps.2) * down
  (low < twice && twice < high) || (even && (twice == low || twice == high))

def magnitude (units : Nat) : Int :=
  if one ≤ units then
    ((Nat.toDigits 10 (units / one)).length : Int) - 1
  else
    let places : Int :=
      (((List.range 330).find? fun n => one ≤ units * tenTo n).getD 0 : Nat)
    0 - places

def neighbours (units count : Nat) : List Scientific :=
  let exponent := magnitude units + 1 - (count : Int)
  let numerator :=
    if 0 ≤ exponent then units else units * tenTo (-exponent).toNat
  let denominator :=
    if 0 ≤ exponent then one * tenTo exponent.toNat else one
  let below := numerator / denominator
  let twice := 2 * (numerator % denominator)
  let nearBelow := twice < denominator || (twice == denominator && below % 2 == 0)
  if nearBelow then [⟨below, exponent⟩, ⟨below + 1, exponent⟩]
  else [⟨below + 1, exponent⟩, ⟨below, exponent⟩]

def Scientific.carry (decimal : Scientific) : Scientific :=
  if decimal.digits % 10 = 0 then ⟨decimal.digits / 10, decimal.exponent + 1⟩ else decimal

/-- The decimal with the fewest digits that reads back as the number, of several the nearest. -/
def shortest (units : Nat) : Scientific :=
  if units = 0 then ⟨0, 0⟩
  else
    let counts := (List.range 17).map (· + 1)
    (((counts.flatMap (neighbours units)).find? (readsBack units)).map Scientific.carry).getD
      ⟨units, -fractionBits⟩

def sign (negative : Bool) : String := if negative then "-" else ""

def zeros (count : Nat) : String := String.ofList (List.replicate count '0')

/-- Digits with a point where they are between 1e-5 and 1e16, else with one digit before the point
and an exponent; a whole number ends in `.0`. -/
def Scientific.text (decimal : Scientific) : String :=
  let digits := Nat.toDigits 10 decimal.digits
  let count := digits.length
  let point := (count : Int) + decimal.exponent
  if decimal.digits = 0 then "0.0"
  else if 0 ≤ decimal.exponent && point ≤ 16 then
    String.ofList digits ++ zeros decimal.exponent.toNat ++ ".0"
  else if 0 < point && point ≤ 16 then
    String.ofList (digits.take point.toNat) ++ "." ++ String.ofList (digits.drop point.toNat)
  else if -5 < point && point ≤ 0 then
    "0." ++ zeros (-point).toNat ++ String.ofList digits
  else
    let fraction := digits.drop 1
    let mantissa :=
      String.ofList (digits.take 1) ++
        (if fraction = [] then "" else "." ++ String.ofList fraction)
    mantissa ++ "e" ++ toString (point - 1)

def text? : Binary64 -> Option String
  | finite negative units => some (sign negative ++ (shortest units).text)
  | _ => none

def onePlace : Binary64 -> String
  | nan => "NaN"
  | infinite negative => sign negative ++ "inf"
  | finite negative units =>
    let tenths := roundQuotient (units * 10) one
    sign negative ++ toString (tenths / 10) ++ "." ++ toString (tenths % 10)

end Stowage.Binary64
