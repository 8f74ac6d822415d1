/-!
# Nearest doubles

The double nearest to a ratio of natural numbers, an exact tie going to the even mantissa.
-/

namespace CallSite.Decimal

/-- `num / den` rounded to the nearest natural number, a half to the even neighbour. -/
def roundHalfEven (num den : Nat) : Nat :=
  let below := num / den
  let rest := num % den * 2
  if rest < den ∨ (rest = den ∧ below % 2 = 0) then below else below + 1

/-- The quotient of `num` and `den * 2 ^ exponent` as a fraction. -/
def scaled (num den : Nat) (exponent : Int) : Nat × Nat :=
  (num <<< (-exponent).toNat, den <<< exponent.toNat)

/-- The exponent of the last mantissa bit of `num / den`, not below that of the least double. -/
def mantissaExponent (num den : Nat) : Int :=
  let guess : Int := max ((Nat.log2 num : Int) - Nat.log2 den - 53) (-1074)
  let (n, d) := scaled num den guess
  if n / d < 1 <<< 53 then guess else guess + 1

/-- The bit pattern of the double nearest to `num / den`; too large a ratio gives infinity. -/
def nearestBits (num den : Nat) : UInt64 :=
  if num = 0 then 0
  else
    let exponent := mantissaExponent num den
    let (n, d) := scaled num den exponent
    let pattern := ((exponent + 1074).toNat <<< 52) + roundHalfEven n d
    UInt64.ofNat (min pattern (2047 <<< 52))

/-- The double nearest to `digits * 10 ^ exponent`. An exponent out of all reach is not expanded. -/
def nearest (negative : Bool) (digits : Nat) (exponent : Int) : Float :=
  let size := exponent + (Nat.toDigits 10 digits).length
  let bits :=
    if digits = 0 ∨ size < -400 then 0
    else if 400 < size then nearestBits (1 <<< 1024) 1
    else nearestBits (digits * Nat.pow 10 exponent.toNat) (Nat.pow 10 (-exponent).toNat)
  Float.ofBits (if negative then bits ||| 0x8000000000000000 else bits)

end CallSite.Decimal
