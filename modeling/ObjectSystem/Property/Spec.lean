import ObjectSystem.Name
import ObjectSystem.NameTable
import ObjectSystem.Value

/-!
# Property descriptors

A `PropertySpec` describes one property completely: its name, the texts for people, who may read
and write it, and, by its `SpecKind`, its type, bounds and default. The numeric constructors check
`min ≤ default ≤ max`, and `PropertySpec.check` says whether a value may be written.
-/

namespace ObjectSystem

/-! ### Access -/

/-- Who may read and write a property, and when. -/
structure AccessFlags where
  readable : Bool := false
  writable : Bool := false
  /-- The property is set during construction. -/
  construct : Bool := false
  /-- The property can only be set during construction. -/
  constructOnly : Bool := false
  deriving Repr, DecidableEq

/-- The flags as a bit set: readable 1, writable 2, construct 4, construct-only 8. -/
def AccessFlags.bits (f : AccessFlags) : Nat :=
  f.readable.toNat + 2 * f.writable.toNat + 4 * f.construct.toNat + 8 * f.constructOnly.toNat

/-- The flags of a bit set; other bits mean nothing. -/
def AccessFlags.ofBits (bits : Nat) : AccessFlags :=
  ⟨bits.testBit 0, bits.testBit 1, bits.testBit 2, bits.testBit 3⟩

/-- The combinations of access flags that declarations use. -/
inductive FlagPreset where
  | constant
  | readWrite
  | construct
  | constructOnly
  deriving Repr, DecidableEq

namespace FlagPreset

/-- The flags of a preset. -/
def flags : FlagPreset → AccessFlags
  | .constant => { readable := true }
  | .readWrite => { readable := true, writable := true }
  | .construct => { readable := true, writable := true, construct := true }
  | .constructOnly => { readable := true, writable := true, constructOnly := true }

/-- The name of a preset. -/
def name : FlagPreset → String
  | .constant => "CONSTANT"
  | .readWrite => "READWRITE"
  | .construct => "CONSTRUCT"
  | .constructOnly => "CONSTRUCT_ONLY"

/-- The preset of a declaration that names none. -/
def standard : FlagPreset := .readWrite

/-- The preset of a name. -/
def ofName? (text : String) : Option FlagPreset :=
  [constant, readWrite, construct, constructOnly].find? (·.name = text)

end FlagPreset

/-! ### Descriptors -/

/-- Type, bounds and default of a property. -/
inductive SpecKind where
  | string (default : String)
  | bool (default : Bool)
  | uint (min max default : UInt32)
  | int (min max default : Int32)
  | double (min max default : Float)
  /-- A reference to an instance of the type; the default is null. -/
  | object (type : TypeHandle)
  | enumeration (type : TypeHandle) (default : Int32)
  deriving Repr, DecidableEq

/-- The complete description of a property. -/
structure PropertySpec where
  name : String
  nick : String
  blurb : String
  flags : AccessFlags
  kind : SpecKind
  deriving Repr, DecidableEq

/-- Why a descriptor cannot be built or a value not be written. -/
inductive SpecError where
  /-- The bounds and the default are not in order. -/
  | invalidBounds (name min max default : String)
  | typeMismatch (name expected got : String)
  | outOfRange (name value : String)
  deriving Repr, DecidableEq

/-- The wording of a descriptor error. -/
def SpecError.message : SpecError → String
  | .invalidBounds name min max default =>
    s!"Invalid bounds for property '{name}': min {min}, max {max}, default {default}"
  | .typeMismatch name expected got => s!"Property '{name}' expects {expected}, got {got}"
  | .outOfRange name value => s!"Value {value} is out of range for property '{name}'"

/-- The texts and access of a property, to be completed by its kind. -/
structure PropertyLabel where
  name : String
  nick : String
  blurb : String
  flags : AccessFlags
  deriving Repr

namespace PropertySpec

/-- A descriptor with a label and a kind. -/
def ofKind (label : PropertyLabel) (kind : SpecKind) : PropertySpec :=
  ⟨label.name, label.nick, label.blurb, label.flags, kind⟩

/-- A property of unsigned numbers; the bounds and the default must be in order. -/
def uint (label : PropertyLabel) (min max default : UInt32) : Except SpecError PropertySpec :=
  if min ≤ default ∧ default ≤ max then .ok (ofKind label (.uint min max default))
  else .error (.invalidBounds label.name (toString min.toNat) (toString max.toNat)
    (toString default.toNat))

/-- A property of signed numbers; the bounds and the default must be in order. -/
def int (label : PropertyLabel) (min max default : Int32) : Except SpecError PropertySpec :=
  if min ≤ default ∧ default ≤ max then .ok (ofKind label (.int min max default))
  else .error (.invalidBounds label.name (toString min.toInt) (toString max.toInt)
    (toString default.toInt))

/-- A property of doubles; the bounds and the default must be in order, and so must be numbers. -/
def double (label : PropertyLabel) (min max default : Float) : Except SpecError PropertySpec :=
  if min ≤ default ∧ default ≤ max then .ok (ofKind label (.double min max default))
  else .error (.invalidBounds label.name (Decimal.plain min) (Decimal.plain max)
    (Decimal.plain default))

/-- The spelling that change notifications carry. -/
def canonicalName (s : PropertySpec) : String :=
  Name.canonical s.name

/-- The value of a property that was never written. -/
def defaultValue (s : PropertySpec) : Value :=
  match s.kind with
  | .string default => .string default
  | .bool default => .bool default
  | .uint _ _ default => .uint default
  | .int _ _ default => .int default
  | .double _ _ default => .double default
  | .object _ => .object none
  | .enumeration _ default => .enumeration default

/-- The type of the property's values. -/
def valueType (s : PropertySpec) : ValueType :=
  match s.kind with
  | .string _ => .string
  | .bool _ => .bool
  | .uint .. => .uint
  | .int .. => .int
  | .double .. => .double
  | .object type => .object type
  | .enumeration type _ => .enumeration type

/-- Whether a number lies within the bounds of its kind; other values have no bounds. -/
def inBounds : SpecKind → Value → Bool
  | .uint min max _, .uint n => min ≤ n && n ≤ max
  | .int min max _, .int n => min ≤ n && n ≤ max
  | .double min max _, .double x => min ≤ x && x ≤ max
  | _, _ => true

/-- Whether a value has the property's type and lies within its bounds. Only numbers have bounds,
so the message needs no text of an instance. -/
def check (isA : InstanceId → TypeHandle → Bool) (s : PropertySpec) (v : Value) :
    Except SpecError Unit :=
  if !v.conformsTo isA s.valueType then
    .error (.typeMismatch s.name s.valueType.label v.label)
  else if inBounds s.kind v then .ok ()
  else .error (.outOfRange s.name (v.text fun _ => ""))

end PropertySpec

/-- Files descriptors under their names; a later one replaces an earlier one of the same name. -/
def propertyTable (specs : List PropertySpec) : NameTable PropertySpec :=
  .ofList (specs.map fun s => (s.name, s))

end ObjectSystem
