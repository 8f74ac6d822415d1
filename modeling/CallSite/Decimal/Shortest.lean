/-!
# Shortest decimals

A double stands for every real number that rounds to it. Of the decimals in that interval the one
with the fewest digits is written, and of those the nearest to the double itself.
-/

namespace CallSite.Decimal

/-- A decimal, the number `digits * 10 ^ exponent`. -/
structure Numeral where
  digits : Nat
  exponent : Int
deriving DecidableEq, Repr

/-- A positive double `mantissa * 2 ^ exponent`. The gap below it is half the gap above it when it
is the least of its binade. -/
structure Binary where
  mantissa : Nat
  exponent : Int
  least : Bool
deriving Repr

/-- The reals that round to a double, over the common denominator `den`: from `low` to `high`, ends
included when `closed`. -/
structure Interval where
  low : Nat
  value : Nat
  high : Nat
  den : Nat
  closed : Bool

def Binary.interval (b : Binary) : Interval :=
  let quarter := b.exponent - 2
  let scale := 1 <<< quarter.toNat
  { low := (4 * b.mantissa - (if b.least then 1 else 2)) * scale
    value := 4 * b.mantissa * scale
    high := (4 * b.mantissa + 2) * scale
    den := 1 <<< (-quarter).toNat
    closed := b.mantissa % 2 == 0 }

/-- `num / den` lies in the interval. -/
def Interval.holds (i : Interval) (num den : Nat) : Bool :=
  let low := i.low * den
  let high := i.high * den
  let point := num * i.den
  if i.closed then low ≤ point && point ≤ high else low < point && point < high

/-- The decimal exponent of the first digit of `num / den`, for a positive `num`. -/
def leadingExponent (num den : Nat) : Int :=
  if den ≤ num then ((Nat.toDigits 10 (num / den)).length : Int) - 1
  else -((Nat.toDigits 10 ((den - 1) / num)).length : Int)

/-- The point of the grid with steps of `10 ^ step` that the interval holds, the nearer of two, the
upper one on a tie. -/
def Interval.onGrid (i : Interval) (step : Int) : Option Numeral :=
  let up := Nat.pow 10 step.toNat
  let down := Nat.pow 10 (-step).toNat
  let below := i.value * down / (i.den * up)
  let lower := i.holds (below * up) down
  let upper := i.holds ((below + 1) * up) down
  let twice := (2 * below + 1) * up * i.den
  if lower && (!upper || i.value * down * 2 < twice) then some ⟨below, step⟩
  else if upper then some ⟨below + 1, step⟩
  else none

/-- The first of ever finer grids with a point in the interval. -/
def Interval.search (i : Interval) : Nat → Int → Option Numeral
  | 0, _ => none
  | grids + 1, step => (i.onGrid step).orElse fun _ => i.search grids (step - 1)

/-- The decimal with trailing zeros moved into the exponent. -/
def Numeral.strip : Nat → Numeral → Numeral
  | 0, d => d
  | fuel + 1, d =>
    if d.digits ≠ 0 ∧ d.digits % 10 = 0 then strip fuel ⟨d.digits / 10, d.exponent + 1⟩ else d

/-- The shortest decimal that reads back as `b`; seventeen digits always do. -/
def Binary.shortest (b : Binary) : Numeral :=
  let i := b.interval
  let found := i.search 17 (leadingExponent i.value i.den)
  (found.getD ⟨0, 0⟩).strip 18

end CallSite.Decimal
