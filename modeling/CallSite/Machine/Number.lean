import CallSite.Machine.Error
import CallSite.Machine.Value

/-!
# Numbers at run time

Arithmetic on boxed numbers. Integers are never wrapped: a result that does not fit in 64 bits is
an error. Of two numbers the wider kind decides the kind of the result.
-/

namespace CallSite

/-- `v` as an integer of 64 bits, if it is one. -/
def int64? (v : Int) : Option Int64 :=
  if Int64.minValue.toInt ≤ v ∧ v ≤ Int64.maxValue.toInt then some (Int64.ofInt v) else none

/-- `v` as an integer of 32 bits, if it is one. -/
def int32? (v : Int) : Option Int32 :=
  if Int32.minValue.toInt ≤ v ∧ v ≤ Int32.maxValue.toInt then some (Int32.ofInt v) else none

/-- `base ^ exponent` if it fits in 64 bits. A base other than `0`, `1` and `-1` leaves the range
at the exponent 64 at the latest; for those three only the parity of the exponent counts. -/
def power64? (base : Int64) (exponent : Nat) : Option Int64 :=
  let b := base.toInt
  if b.natAbs ≤ 1 then int64? (b.pow (if exponent = 0 then 0 else 2 - exponent % 2))
  else if 64 ≤ exponent then none
  else int64? (b.pow exponent)

/-- `base` multiplied up by repeated squaring. `exponent` is halved each time, so it bounds the
number of rounds. -/
def squarings : (rounds : Nat) → (base result : Float) → (exponent : Nat) → Float
  | 0, _, result, _ => result
  | rounds + 1, base, result, exponent =>
    let result := if exponent % 2 = 1 then result * base else result
    if exponent / 2 = 0 then result else squarings rounds (base * base) result (exponent / 2)

/-- `base` to a whole power; a negative one is the inverse of the positive. -/
def wholePower (base : Float) (exponent : Int) : Float :=
  let result := squarings (exponent.natAbs + 1) base 1.0 exponent.natAbs
  if exponent < 0 then 1.0 / result else result

namespace Boxed

/-- An integral result of the kind that `a` and `b` have together. One that is too large for an
`Integer` becomes a `Long`. -/
def integralOf (a b : Boxed) (v : Int64) : Boxed :=
  match a, b with
  | bigInteger _, _ | _, bigInteger _ => bigInteger v
  | long _, _ | _, long _ => long v
  | _, _ =>
    match int32? v.toInt with
    | some small => integer small
    | none => long v

/-- A fractional result of the kind that `a` and `b` have together. -/
def fractionalOf (a b : Boxed) (v : Float) : Boxed :=
  match a, b with
  | bigDecimal _, _ | _, bigDecimal _ => bigDecimal v
  | _, _ => double v

/-- Combine two numbers; none if the integral result does not fit. -/
def combine (whole : Int → Int → Int) (fraction : Float → Float → Float) (a b : Boxed) :
    Option Boxed :=
  if a.isIntegral && b.isIntegral then
    (int64? (whole a.toInt64.toInt b.toInt64.toInt)).map (integralOf a b)
  else some (fractionalOf a b (fraction a.toDouble b.toDouble))

def isDouble : Boxed → Bool
  | double _ => true
  | _ => false

/-- The quotient of two numbers, a `BigDecimal` unless one of them is a `Double`. Only a `Double`
may be a divisor of zero. -/
def divide (a b : Boxed) : Except ArithmeticFault Boxed :=
  if b.toDouble == 0.0 && !b.isDouble then .error .divisionByZero
  else
    let quotient := a.toDouble / b.toDouble
    .ok (if a.isDouble || b.isDouble then double quotient else bigDecimal quotient)

/-- A power with an `Integer` exponent is exact where it can be, all others are doubles. -/
def power (base exponent : Boxed) : Except ArithmeticFault Boxed :=
  match base, exponent with
  | bigDecimal v, integer e => .ok (bigDecimal (wholePower v e.toInt))
  | base, integer e =>
    if base.isIntegral && 0 ≤ e.toInt then
      match power64? base.toInt64 e.toInt.toNat with
      | some v => .ok (integralOf base base v)
      | none => .error (.overflow "power")
    else .ok (double (base.toDouble.pow (integer e).toDouble))
  | base, exponent => .ok (double (base.toDouble.pow exponent.toDouble))

end Boxed

/-- The value that `n` is as a primitive type. -/
def Primitive.valueOf (p : Primitive) (n : Boxed) : Value :=
  match p with
  | .long => .long n.toInt64
  | .float | .double => .double n.toDouble
  | _ => .int n.toInt64.toInt32

/-- What `valueOf` of the class `owner` makes of a primitive value. -/
def boxAs (owner : String) (value : Value) : Option Boxed :=
  let number :=
    match value with
    | .int v => some (Boxed.integer v)
    | .long v => some (.long v)
    | .double v => some (.double v)
    | _ => none
  number.map fun n =>
    if owner = "java/lang/Boolean" then .boolean (n.toInt64 != 0)
    else if owner = "java/lang/Long" then .long n.toInt64
    else if owner = "java/lang/Double" ∨ owner = "java/lang/Float" then .double n.toDouble
    else .integer n.toInt64.toInt32

/-- What a method such as `intValue` gives for a boxed value. -/
def Boxed.unbox (b : Boxed) (method : String) : Option Value :=
  match b with
  | .boolean v => if method = "booleanValue" then some (.ofBool v) else none
  | _ =>
    if method ∈ ["intValue", "shortValue", "byteValue", "charValue"] then
      some (.int b.toInt64.toInt32)
    else if method = "longValue" then some (.long b.toInt64)
    else if method ∈ ["doubleValue", "floatValue"] then some (.double b.toDouble)
    else none

end CallSite
