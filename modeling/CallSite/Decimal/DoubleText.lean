import CallSite.Decimal.Shortest
import CallSite.Decimal.Nearest

/-!
# The text of doubles

A double is written with the fewest digits that read back. Zero and the magnitudes from `1e-4` up
to `1e16` are positional with at least one digit after the point; all others have an exponent.
-/

namespace CallSite.Decimal

/-- The finite positive double with this bit pattern. -/
def Binary.ofBits (bits : Nat) : Binary :=
  let field : Nat := (bits >>> 52) % 2048
  let fraction : Nat := bits % (1 <<< 52)
  if field = 0 then ⟨fraction, -1074, false⟩
  else ⟨fraction + (1 <<< 52), (field : Int) - 1075, fraction == 0 && 1 < field⟩

/-- Positional text, the point placed after `places` digits. -/
def positional (digits : List Char) (places : Int) : List Char :=
  if places ≤ 0 then '0' :: '.' :: List.replicate (-places).toNat '0' ++ digits
  else
    let whole := places.toNat
    if whole < digits.length then digits.take whole ++ '.' :: digits.drop whole
    else digits ++ List.replicate (whole - digits.length) '0' ++ ['.', '0']

/-- One digit before the point, the others after it, and the exponent. -/
def scientific (digits : List Char) (exponent : Int) : List Char :=
  let fraction := digits.drop 1
  digits.take 1 ++ (if fraction.isEmpty then [] else '.' :: fraction) ++
    'e' :: (toString exponent).toList

/-- Positional text is used for leading exponents from `-4` to `15`. -/
def Numeral.text (d : Numeral) : List Char :=
  let digits := Nat.toDigits 10 d.digits
  let leading := d.exponent + digits.length - 1
  if -4 ≤ leading ∧ leading < 16 then positional digits (leading + 1)
  else scientific digits leading

def doubleText (x : Float) : String :=
  let bits := x.toBits.toNat
  let negative := 1 <<< 63 ≤ bits
  let magnitude := bits % (1 <<< 63)
  let sign := if negative then ['-'] else []
  if 2047 <<< 52 < magnitude then "NaN"
  else if magnitude = 2047 <<< 52 then String.ofList (sign ++ ['i', 'n', 'f'])
  else if magnitude = 0 then String.ofList (sign ++ ['0', '.', '0'])
  else String.ofList (sign ++ (Binary.ofBits magnitude).shortest.text)

end CallSite.Decimal
