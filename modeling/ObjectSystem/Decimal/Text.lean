import ObjectSystem.Decimal.Shortest

/-!
# Doubles as text

Two layouts of the same shortest digits. `plain` is positional at every size and has no fraction
for whole numbers; `exact` always shows a fraction or an exponent, so that a double is never
mistaken for an integer, and goes over to an exponent outside of `[1e-4, 1e16)`.
-/

namespace ObjectSystem.Decimal

/-- How the digits of a double are laid out. -/
structure Layout where
  /-- Whole numbers end in `.0`. -/
  fraction : Bool
  /-- The positions of the decimal point that are written out; others get an exponent. -/
  positional : Int → Bool

/-- Positional at every size, whole numbers without a fraction. -/
def Layout.plain : Layout := ⟨false, fun _ => true⟩

/-- Positional from `1e-4` to below `1e16`, whole numbers with a fraction. -/
def Layout.exact : Layout := ⟨true, fun point => -3 ≤ point && point ≤ 16⟩

/-- A text of so many zeros. -/
def zeros (count : Nat) : String :=
  String.ofList (List.replicate count '0')

/-- Digits with the decimal point at the given position. -/
def positional (digits : String) (point : Int) (fraction : Bool) : String :=
  if point ≤ 0 then "0." ++ zeros (-point).toNat ++ digits
  else if point ≥ digits.length then
    digits ++ zeros (point - digits.length).toNat ++ if fraction then ".0" else ""
  else
    String.ofList (digits.toList.take point.toNat) ++ "."
      ++ String.ofList (digits.toList.drop point.toNat)

/-- Digits with the point behind the first of them, and an exponent. -/
def exponential (digits : String) (point : Int) : String :=
  let rest := String.ofList (digits.toList.drop 1)
  String.ofList (digits.toList.take 1) ++ (if rest = "" then "" else "." ++ rest)
    ++ "e" ++ toString (point - 1)

/-- The text of a double in a layout. -/
def render (layout : Layout) (x : Float) : String :=
  match decode x with
  | .notANumber => "NaN"
  | .infinite negative => if negative then "-inf" else "inf"
  | .finite negative mantissa exponent =>
    let sign := if negative then "-" else ""
    if mantissa = 0 then sign ++ if layout.fraction then "0.0" else "0"
    else
      let s := shortest mantissa exponent
      let digits := String.ofList (Nat.toDigits 10 s.digits)
      let point := s.exponent + digits.length
      sign ++ if layout.positional point then positional digits point layout.fraction
        else exponential digits point

/-- The positional text of a double, as messages show it. -/
def plain (x : Float) : String := render .plain x

/-- The text of a double that is never an integer's, as descriptions of values show it. -/
def exact (x : Float) : String := render .exact x

end ObjectSystem.Decimal
