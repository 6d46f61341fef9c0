/-!
# Numerals

Which texts spell a number: signed whole numbers with their value, and decimal numbers with an
optional fraction and exponent.
-/
namespace MuLang.Text

/-- A text without its leading sign. -/
def unsigned : List Char → List Char
  | '+' :: rest => rest
  | '-' :: rest => rest
  | cs => cs

/-- The value of a digit, up to `f` in either case. -/
def digitValue (c : Char) : Nat :=
  if c ≤ '9' then c.toNat - '0'.toNat
  else if c ≤ 'F' then c.toNat - 'A'.toNat + 10
  else c.toNat - 'a'.toNat + 10

/-- The value of some digits in a base. -/
def digitsValue (base : Nat) (digits : List Char) : Nat :=
  digits.foldl (fun value c => value * base + digitValue c) 0

/-- The value of a whole number: an optional sign and at least one digit. -/
def integer? (text : String) : Option Int :=
  let digits := unsigned text.toList
  if digits.isEmpty || !digits.all Char.isDigit then none
  else if text.toList.head? = some '-' then some (-(digitsValue 10 digits : Int))
  else some (digitsValue 10 digits)

/-- Two to the power `bits - 1`: numbers of a signed width of `bits` bits begin at minus this and
end before it. -/
def signedLimit (bits : Nat) : Nat := Nat.pow 2 (bits - 1)

/-- Whether a number has a signed width of `bits` bits. -/
def fitsSigned (bits : Nat) (n : Int) : Bool :=
  -(signedLimit bits : Int) ≤ n && n < (signedLimit bits : Int)

/-- Whether a text spells a whole number of a signed width of `bits` bits. -/
def isSignedInteger (bits : Nat) (text : String) : Bool := (integer? text).any (fitsSigned bits)

/-- Nothing, or an `e` followed by a whole number. -/
def isExponent : List Char → Bool
  | [] => true
  | c :: rest =>
    (c == 'e' || c == 'E') && !(unsigned rest).isEmpty && (unsigned rest).all Char.isDigit

/-- Digits with an optional fraction and exponent, and a digit on one side of the point at
least. -/
def isPositional (cs : List Char) : Bool :=
  let whole := cs.takeWhile Char.isDigit
  match cs.dropWhile Char.isDigit with
  | '.' :: rest =>
    !(whole.isEmpty && (rest.takeWhile Char.isDigit).isEmpty) &&
      isExponent (rest.dropWhile Char.isDigit)
  | rest => !whole.isEmpty && isExponent rest

/-- Whether a text spells a floating-point number. Infinity and NaN have names, in either case. -/
def isFloatingPoint (text : String) : Bool :=
  let body := unsigned text.toList
  isPositional body ||
    ["inf", "infinity", "nan"].contains (String.ofList (body.map Char.toLower))

end MuLang.Text
