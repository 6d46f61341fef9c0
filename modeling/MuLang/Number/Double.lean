/-!
# Double-precision numbers

Reading a decimal as the nearest double-precision number, an exact tie going to the even one, and
writing such a number with the fewest digits that read back as it.
-/
namespace MuLang

/-- A double-precision number. The finite ones are `mantissa * 2 ^ exponent`, with a mantissa of 53
bits and an exponent of at least -1074. -/
inductive Double where
  | finite (negative : Bool) (mantissa : Nat) (exponent : Int)
  | infinite (negative : Bool)
  | nan
  deriving DecidableEq, Inhabited

namespace Double

/-- The least mantissa of 53 bits, 2 to the power 52. -/
def leastNormal : Nat := Nat.pow 2 52

/-- The quotient `n * base ^ e / d` as two whole numbers, where `e` may be negative. -/
def scale (base : Nat) (e : Int) (n d : Nat) : Nat × Nat :=
  if 0 ≤ e then (n * Nat.pow base e.toNat, d) else (n, d * Nat.pow base (-e).toNat)

/-- A quotient rounded to the nearest whole number, a half to the even one. -/
def roundDiv (n d : Nat) : Nat :=
  let q := n / d
  let twice := 2 * (n % d)
  if twice < d then q
  else if d < twice then q + 1
  else q + q % 2

/-- The greatest `e` with `2 ^ e ≤ n / d`. -/
def log2Div (n d : Nat) : Int :=
  let guess : Int := n.log2 - d.log2
  let (a, b) := scale 2 (-guess) n d
  if a < b then guess - 1 else guess

/-- The double-precision number nearest to `n / d`. -/
def nearest (negative : Bool) (n d : Nat) : Double :=
  if n = 0 then .finite negative 0 (-1074)
  else
    let exponent := max (log2Div n d - 52) (-1074)
    let (a, b) := scale 2 (-exponent) n d
    let mantissa := roundDiv a b
    let (mantissa, exponent) :=
      if mantissa = 2 * leastNormal then (leastNormal, exponent + 1) else (mantissa, exponent)
    if 971 < exponent then .infinite negative else .finite negative mantissa exponent

/-- The number of decimal digits of a number. -/
def digitCount (n : Nat) : Nat := (Nat.toDigits 10 n).length

/-- The double-precision number nearest to `n * 10 ^ e`. Beyond the range of such numbers the result
is known without looking at the digits. -/
def ofDecimal (negative : Bool) (n : Nat) (e : Int) : Double :=
  let order : Int := digitCount n + e
  if n = 0 ∨ order < -330 then .finite negative 0 (-1074)
  else if 310 < order then .infinite negative
  else
    let (a, b) := scale 10 e n 1
    nearest negative a b

/-- The shortest decimal of an interval that is nearest to a number in it: from the grid of
multiples of `10 ^ k` downwards, the first of the number's two neighbours on the grid that lies
between `low / d` and `high / d`. If both do it is the nearer one, and of two equally near ones
the greater. The number is `n / d`. -/
def shortestFrom (closed : Bool) (low n high d : Nat) : Nat → Int → Nat × Int
  | 0, k => (0, k)
  | fuel + 1, k =>
    let scaled (x : Nat) : Nat × Nat := scale 10 (-k) x d
    let within (c : Nat) : Bool :=
      let lower := scaled low
      let upper := scaled high
      if closed then lower.1 ≤ c * lower.2 && c * upper.2 ≤ upper.1
      else lower.1 < c * lower.2 && c * upper.2 < upper.1
    let (a, b) := scaled n
    let below := a / b
    let above := below + 1
    match within below, within above with
    | false, false => shortestFrom closed low n high d fuel (k - 1)
    | true, false => (below, k)
    | false, true => (above, k)
    | true, true => if a * 2 < (below + above) * b then (below, k) else (above, k)

/-- The fewest digits, with a power of ten, that read back as a positive finite number. What lies
halfway to a neighbour reads back if the mantissa is even. -/
def shortest (mantissa : Nat) (exponent : Int) : Nat × Int :=
  let down := if mantissa = leastNormal ∧ -1074 < exponent then 1 else 2
  let (n, d) := scale 2 (exponent - 2) (4 * mantissa) 1
  let unit := n / (4 * mantissa)
  shortestFrom (mantissa % 2 = 0) (n - down * unit) n (n + 2 * unit) d 30
    (digitCount n - digitCount d + 1 : Int)

/-- A number in positional notation, always with a point. -/
def positional (digits : List Char) (k : Int) : List Char :=
  if 0 ≤ k then digits ++ List.replicate k.toNat '0' ++ ['.', '0']
  else
    let places := (-k).toNat
    if places < digits.length then
      digits.take (digits.length - places) ++ '.' :: digits.drop (digits.length - places)
    else '0' :: '.' :: List.replicate (places - digits.length) '0' ++ digits

/-- The text of a number: positional, with the fewest digits that read back. -/
def describe : Double → String
  | .nan => "NaN"
  | .infinite negative => if negative then "-inf" else "inf"
  | .finite negative mantissa exponent =>
    let text :=
      if mantissa = 0 then ['0', '.', '0']
      else
        let (n, k) := shortest mantissa exponent
        positional (Nat.toDigits 10 n) k
    String.ofList (if negative then '-' :: text else text)

end Double

end MuLang
