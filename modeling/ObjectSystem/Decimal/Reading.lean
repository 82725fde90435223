/-!
# Reading doubles

Decimal text with an optional sign, fraction and exponent is read to the nearest double; `inf`,
`infinity` and `nan` are read in any case of letters.
-/

namespace ObjectSystem.Decimal

/-- Splits leading decimal digits from the rest of a text. -/
def takeDigits (cs : List Char) : List Char × List Char :=
  (cs.takeWhile Char.isDigit, cs.dropWhile Char.isDigit)

/-- The number that decimal digits write. -/
def digitsValue (digits : List Char) : Nat :=
  digits.foldl (fun n c => 10 * n + (c.toNat - '0'.toNat)) 0

/-- A sign and what follows it; no sign is a plus. -/
def takeSign : List Char → Bool × List Char
  | '-' :: rest => (true, rest)
  | '+' :: rest => (false, rest)
  | cs => (false, cs)

/-- An exponent at the end of a number, 0 if there is none. -/
def readExponent? (cs : List Char) : Option Int :=
  match cs with
  | [] => some 0
  | c :: rest =>
    if c = 'e' ∨ c = 'E' then
      let (negative, digits) := takeSign rest
      if digits ≠ [] ∧ digits.all Char.isDigit then
        some (if negative then -(digitsValue digits : Int) else digitsValue digits)
      else none
    else none

/-- The exponent of the greatest power of two that is not above `num / den`. -/
def floorLog (num den : Nat) : Int :=
  let guess : Int := num.log2 - den.log2
  if num * Nat.pow 2 (-guess).toNat ≥ den * Nat.pow 2 guess.toNat then guess else guess - 1

/-- The quotient of two natural numbers, rounded to the nearest; a tie goes to the even one. -/
def roundQuotient (num den : Nat) : Nat :=
  let below := num / den
  let rest := num % den
  if 2 * rest > den ∨ (2 * rest = den ∧ below % 2 = 1) then below + 1 else below

/-- The double nearest to the positive number `num / den`. Its mantissa has 53 bits, or fewer at the
smallest exponent; a mantissa that is rounded up to a power of two carries into the exponent. -/
def ofRatio (num den : Nat) : Float :=
  let exponent := max (floorLog num den - 52) (-1074)
  let mantissa :=
    roundQuotient (num * Nat.pow 2 (-exponent).toNat) (den * Nat.pow 2 exponent.toNat)
  let bits := (exponent + 1074).toNat * Nat.pow 2 52 + mantissa
  let infinity := 2047 * Nat.pow 2 52
  Float.ofBits (UInt64.ofNat (min bits infinity))

/-- The double nearest to `mantissa * 10 ^ exponent`. Exponents are cut where the answer is known
to be zero or infinite. -/
def nearest (mantissa : Nat) (exponent : Int) : Float :=
  if mantissa = 0 then 0
  else
    let size : Int := (Nat.toDigits 10 mantissa).length
    if exponent + size > 400 then 1.0 / 0.0
    else if exponent + size < -400 then 0
    else ofRatio (mantissa * Nat.pow 10 exponent.toNat) (Nat.pow 10 (-exponent).toNat)

/-- Reads an unsigned number. -/
def readMagnitude? (cs : List Char) : Option Float :=
  let word := String.ofList (cs.map Char.toLower)
  if word = "inf" ∨ word = "infinity" then some (1.0 / 0.0)
  else if word = "nan" then some (0.0 / 0.0)
  else
    let (whole, afterWhole) := takeDigits cs
    let (fraction, rest) :=
      match afterWhole with
      | '.' :: tail => takeDigits tail
      | tail => ([], tail)
    if whole = [] ∧ fraction = [] then none
    else (readExponent? rest).map fun exponent =>
      nearest (digitsValue (whole ++ fraction)) (exponent - fraction.length)

/-- Reads a double. -/
def read? (text : String) : Option Float :=
  let (negative, magnitude) := takeSign text.toList
  (readMagnitude? magnitude).map fun x => if negative then -x else x

end ObjectSystem.Decimal
