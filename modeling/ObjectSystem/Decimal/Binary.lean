/-!
# Doubles as exact binary fractions

`decode` reads the bits of a double: a finite double is a sign, a natural number and a power of
two. Everything that needs the exact value of a double (its shortest digits, whether it is a whole
number) starts from here and then stays in `Nat`.
-/

namespace ObjectSystem.Decimal

/-- What the bits of a double say. -/
inductive Binary where
  /-- `mantissa * 2 ^ exponent`, negated if `negative`. -/
  | finite (negative : Bool) (mantissa : Nat) (exponent : Int)
  | infinite (negative : Bool)
  | notANumber
  deriving Repr, DecidableEq

/-- The exact value of a double. -/
def decode (x : Float) : Binary :=
  let bits := x.toBits.toNat
  let negative := bits / Nat.pow 2 63 == 1
  let biased : Nat := bits / Nat.pow 2 52 % Nat.pow 2 11
  let fraction : Nat := bits % Nat.pow 2 52
  if biased = 2047 then
    if fraction = 0 then .infinite negative else .notANumber
  else if biased = 0 then .finite negative fraction (-1074)
  else .finite negative (fraction + Nat.pow 2 52) ((biased : Int) - 1075)

/-- The double that equals a signed number. -/
def ofInt32 (n : Int32) : Float :=
  .ofModel (.ofInt32 n)

/-- The integer that a double equals, if it is a whole number. Negative zero is the integer 0. -/
def wholeNumber? (x : Float) : Option Int :=
  match decode x with
  | .finite negative mantissa exponent =>
    let unit := Nat.pow 2 (-exponent).toNat
    let magnitude? :=
      if exponent ≥ 0 then some (mantissa * Nat.pow 2 exponent.toNat)
      else if mantissa % unit = 0 then some (mantissa / unit)
      else none
    magnitude?.map fun (magnitude : Nat) => if negative then -(magnitude : Int) else magnitude
  | _ => none

end ObjectSystem.Decimal
