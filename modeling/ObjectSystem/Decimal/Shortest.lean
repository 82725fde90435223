import ObjectSystem.Decimal.Binary

/-!
# Shortest decimal digits of a double

Between two neighbours of a double lies the interval of all reals that round to it; its ends belong
to it when the mantissa is even. `shortest` looks for the coarsest decimal grid with a point in that
interval. On each grid only the two neighbours of the double can lie in it, and of two that do the
nearer is taken, the greater if they are equally near. All comparisons are between natural numbers.
-/

namespace ObjectSystem.Decimal

/-- The number `digits * 10 ^ exponent`. -/
structure Scientific where
  digits : Nat
  exponent : Int
  deriving Repr, DecidableEq

/-- A positive real and the interval that rounds to it, over one denominator. -/
structure Rounding where
  low : Nat
  value : Nat
  high : Nat
  denominator : Nat
  /-- Whether the ends of the interval round to the value. -/
  closed : Bool

/-- The rounding interval of `mantissa * 2 ^ exponent`. Below a power of two the neighbours are
closer by half, except at the smallest exponent. -/
def Rounding.of (mantissa : Nat) (exponent : Int) : Rounding :=
  let narrow := mantissa = Nat.pow 2 52 ∧ exponent > -1074
  let shift := exponent - 2
  let scale := Nat.pow 2 shift.toNat
  { low := (4 * mantissa - if narrow then 1 else 2) * scale
    value := 4 * mantissa * scale
    high := (4 * mantissa + 2) * scale
    denominator := Nat.pow 2 (-shift).toNat
    closed := mantissa % 2 = 0 }

/-- The number of leading decimal places that are zero, counted up to a limit. -/
def leadingZeros (value denominator : Nat) : Nat → Nat
  | 0 => 0
  | limit + 1 =>
    if value * 10 ≥ denominator then 0 else leadingZeros (value * 10) denominator limit + 1

/-- The position of the decimal point: the least `p` with `value < 10 ^ p`. -/
def Rounding.point (r : Rounding) : Int :=
  let whole := r.value / r.denominator
  if whole > 0 then (Nat.toDigits 10 whole).length
  else -(leadingZeros r.value r.denominator 400 : Int)

/-- The point of the grid `10 ^ unit` that lies in the interval and is nearest to the value; of two
that are equally near, the greater. -/
def Rounding.gridPoint? (r : Rounding) (unit : Int) : Option Nat :=
  let up := Nat.pow 10 unit.toNat * r.denominator
  let down := Nat.pow 10 (-unit).toNat
  let below := r.value * down / up
  let inside (d : Nat) : Bool :=
    if r.closed then r.low * down ≤ d * up && d * up ≤ r.high * down
    else r.low * down < d * up && d * up < r.high * down
  match inside below, inside (below + 1) with
  | true, true =>
    if r.value * down - below * up < (below + 1) * up - r.value * down then some below
    else some (below + 1)
  | true, false => some below
  | false, true => some (below + 1)
  | false, false => none

/-- Tries the grids with the given numbers of digits, coarsest first. -/
def Rounding.firstHit (r : Rounding) (point : Int) : List Nat → Option Scientific
  | [] => none
  | count :: rest =>
    match r.gridPoint? (point - count) with
    | some digits => some ⟨digits, point - count⟩
    | none => r.firstHit point rest

/-- Moves trailing zeros from the digits to the exponent. -/
def Scientific.trim (s : Scientific) : Nat → Scientific
  | 0 => s
  | limit + 1 =>
    if s.digits ≠ 0 ∧ s.digits % 10 = 0 then
      Scientific.trim ⟨s.digits / 10, s.exponent + 1⟩ limit
    else s

/-- The fewest digits that read back as the positive double `mantissa * 2 ^ exponent`; seventeen
always suffice. -/
def shortest (mantissa : Nat) (exponent : Int) : Scientific :=
  let r := Rounding.of mantissa exponent
  match r.firstHit r.point (List.range' 1 17) with
  | some s => s.trim 20
  | none => ⟨0, 0⟩

end ObjectSystem.Decimal
