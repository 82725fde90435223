import ObjectSystem.Text.TitleCase
import ObjectSystem.Types.Registry

/-!
# Resolving property declarations

A declaration gives a name, a type tag and some options; `resolve` completes it to a descriptor or
says why it cannot. What is left open is filled in: the nick is the name in title case, the blurb is
the nick and the word *property*, numbers range from 0 to the largest of their type and start at
their minimum, an enumeration starts at its first member.
-/

namespace ObjectSystem

/-- The type that a declaration asks for. -/
inductive TypeTag where
  | string
  | bool
  | uint
  | int
  | double
  /-- A class, an interface or an enumeration. -/
  | type (handle : TypeHandle)
  /-- A type that is looked up by its name. -/
  | named (name : String)
  deriving Repr, DecidableEq

/-- Reads a tag: the five words for primitive types, anything else is the name of a type. -/
def TypeTag.ofText : String → TypeTag
  | "string" => .string
  | "bool" => .bool
  | "uint32" => .uint
  | "int32" => .int
  | "double" => .double
  | name => .named name

/-- What a declaration may say about a property. -/
structure PropertyOptions where
  nick : Option String := none
  blurb : Option String := none
  flags : FlagPreset := .standard
  default : Option Value := none
  min : Option Float := none
  max : Option Float := none
  deriving Repr

/-- Why a declaration cannot be completed. -/
inductive ResolveError where
  /-- The tag denotes no type that a property can have. -/
  | unsupportedType (name : String)
  /-- The type does not take the option. -/
  | invalidOption (property option : String)
  /-- The type cannot hold the number. -/
  | invalidNumber (property option : String) (value : Float)
  | defaultTypeMismatch (property expected got : String)
  | invalidEnumDefault (property : String) (value : Int32)
  /-- The completed descriptor is inconsistent. -/
  | spec (error : SpecError)
  deriving Repr, DecidableEq

/-- The wording of a resolution error. -/
def ResolveError.message : ResolveError → String
  | .unsupportedType name => s!"Unsupported property type '{name}'"
  | .invalidOption property option => s!"Option '{option}' does not apply to property '{property}'"
  | .invalidNumber property option value =>
    let number := Decimal.plain value
    s!"Option '{option}' of property '{property}' cannot hold {number}"
  | .defaultTypeMismatch property expected got =>
    s!"Default of property '{property}' must be {expected}, got {got}"
  | .invalidEnumDefault property value =>
    let number := value.toInt
    s!"Default {number} of property '{property}' is not a member of its enum"
  | .spec error => error.message

namespace Property

/-! ### Numbers -/

/-- The unsigned number that a double is exactly. -/
def uintOfDouble? (x : Float) : Option UInt32 :=
  match Decimal.wholeNumber? x with
  | some n => if 0 ≤ n ∧ n < UInt32.size then some (UInt32.ofNat n.toNat) else none
  | none => none

/-- The signed number that a double is exactly. -/
def intOfDouble? (x : Float) : Option Int32 :=
  match Decimal.wholeNumber? x with
  | some n =>
    if Int32.minValue.toInt ≤ n ∧ n ≤ Int32.maxValue.toInt then some (Int32.ofInt n) else none
  | none => none

/-- A double that is a number. -/
def doubleOfDouble? (x : Float) : Option Float :=
  if x.isNaN then none else some x

/-- The largest finite double. -/
def largestDouble : Float := Float.ofBits 0x7FEFFFFFFFFFFFFF

/-- Takes an option's number into a type. -/
def convert {α : Type} (property option : String) (convert? : Float → Option α) (x : Float) :
    Except ResolveError α :=
  match convert? x with
  | some a => .ok a
  | none => .error (.invalidNumber property option x)

/-- Minimum, maximum and default of a numeric property. The minimum defaults to 0, the maximum to
the largest number of the type and the default to the minimum. -/
def numericBounds {α : Type} (property : String) (options : PropertyOptions) (largest : Float)
    (convert? : Float → Option α) : Except ResolveError (α × α × α) := do
  let min ← convert property "min" convert? (options.min.getD 0)
  let max ← convert property "max" convert? (options.max.getD largest)
  match options.default with
  | none => return (min, max, min)
  | some value =>
    match value.toDouble? with
    | none => .error (.defaultTypeMismatch property "number" value.label)
    | some x =>
      let default ← convert property "default" convert? x
      return (min, max, default)

/-! ### Resolution -/

/-- Only numeric types take bounds. -/
def rejectBounds (property : String) (options : PropertyOptions) : Except ResolveError Unit :=
  if options.min.isSome then .error (.invalidOption property "min")
  else if options.max.isSome then .error (.invalidOption property "max")
  else .ok ()

/-- Reports an inconsistent descriptor as a failed resolution. -/
def liftSpec (result : Except SpecError PropertySpec) : Except ResolveError PropertySpec :=
  result.mapError .spec

/-- The default of an enumeration: the given member, or else the first one. -/
def enumDefault (property : String) (unsupported : ResolveError) (members : List EnumMember) :
    Option Value → Except ResolveError Int32
  | some (.enumeration n) => .ok n
  | some (.int n) => .ok n
  | some other => .error (.defaultTypeMismatch property "enum" other.label)
  | none =>
    match members.head? with
    | some first => .ok first.value
    | none => .error unsupported

/-- Completes a declaration whose tag denotes a registered type. -/
def resolveType (r : Registry) (label : PropertyLabel) (options : PropertyOptions)
    (type : TypeHandle) : Except ResolveError PropertySpec :=
  let unsupported := ResolveError.unsupportedType ((r.typeName? type).getD "TypeHandle(null)")
  match r.info? type with
  | none => .error unsupported
  | some info =>
    match info.kind with
    | .object | .interface => do
      rejectBounds label.name options
      if options.default.isSome then .error (.invalidOption label.name "default")
      else return .ofKind label (.object type)
    | .enumeration => do
      rejectBounds label.name options
      let default ← enumDefault label.name unsupported info.members options.default
      if info.members.any (·.value = default) then
        return .ofKind label (.enumeration type default)
      else .error (.invalidEnumDefault label.name default)

/-- The texts and access that options give to a property. -/
def label (name : String) (options : PropertyOptions) : PropertyLabel :=
  let nick := Text.titleCase (options.nick.getD name)
  { name, nick, blurb := options.blurb.getD (nick ++ " property"), flags := options.flags.flags }

/-- Completes a declaration to a descriptor. -/
def resolve (r : Registry) (name : String) (tag : TypeTag) (options : PropertyOptions) :
    Except ResolveError PropertySpec :=
  let label := label name options
  match tag with
  | .string => do
    rejectBounds name options
    match options.default with
    | none => return .ofKind label (.string "")
    | some (.string text) => return .ofKind label (.string text)
    | some other => .error (.defaultTypeMismatch name "string" other.label)
  | .bool => do
    rejectBounds name options
    match options.default with
    | none => return .ofKind label (.bool false)
    | some (.bool flag) => return .ofKind label (.bool flag)
    | some other => .error (.defaultTypeMismatch name "bool" other.label)
  | .uint => do
    let (min, max, default) ← numericBounds name options 4294967295 uintOfDouble?
    liftSpec (PropertySpec.uint label min max default)
  | .int => do
    let (min, max, default) ← numericBounds name options 2147483647 intOfDouble?
    liftSpec (PropertySpec.int label min max default)
  | .double => do
    let (min, max, default) ← numericBounds name options largestDouble doubleOfDouble?
    liftSpec (PropertySpec.double label min max default)
  | .type handle => resolveType r label options handle
  | .named typeName =>
    match r.lookup? typeName with
    | some handle => resolveType r label options handle
    | none => .error (.unsupportedType typeName)

end Property

end ObjectSystem
