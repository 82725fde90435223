import ObjectSystem.Decimal.Text
import ObjectSystem.Identity

/-!
# Values

A `Value` is what a property stores, a signal carries and an action takes. A `ValueType` is what a
declaration asks for. An object value refers to an instance by its identity, so whatever depends on
the instance (its class, its text) comes in as a function.
-/

namespace ObjectSystem

/-- The type of a value as a property, a signal or an action declares it. -/
inductive ValueType where
  | string
  | bool
  | uint
  | int
  | double
  /-- A member of an enumerated type. -/
  | enumeration (type : TypeHandle)
  /-- An instance of a type, or null. -/
  | object (type : TypeHandle)
  deriving Repr, DecidableEq

/-- A dynamically typed value. -/
inductive Value where
  | string (text : String)
  | bool (flag : Bool)
  | uint (number : UInt32)
  | int (number : Int32)
  | double (number : Float)
  | enumeration (member : Int32)
  /-- A reference to an instance, or null. -/
  | object (target : Option InstanceId)
  deriving Repr, DecidableEq

/-- The name of a value type in messages. -/
def ValueType.label : ValueType → String
  | .string => "string"
  | .bool => "bool"
  | .uint => "uint32"
  | .int => "int32"
  | .double => "double"
  | .enumeration _ => "enum"
  | .object _ => "object"

namespace Value

/-- The name of a value's kind in messages. -/
def label : Value → String
  | .string _ => "string"
  | .bool _ => "bool"
  | .uint _ => "uint32"
  | .int _ => "int32"
  | .double _ => "double"
  | .enumeration _ => "enum"
  | .object _ => "object"

/-! ### Views -/

/-- The text of a string value. -/
def asString? : Value → Option String
  | .string text => some text
  | _ => none

/-- The instance that a non-null object value refers to. -/
def asObject? : Value → Option InstanceId
  | .object target => target
  | _ => none

/-- The instances that a value refers to. -/
def targets (v : Value) : List InstanceId :=
  v.asObject?.toList

/-- Integers and doubles as a double. -/
def toDouble? : Value → Option Float
  | .uint n => some n.toFloat
  | .int n => some (Decimal.ofInt32 n)
  | .double x => some x
  | _ => none

/-- The text of a value, given the texts of instances. -/
def text (shown : InstanceId → String) : Value → String
  | .string s => s
  | .bool b => if b then "true" else "false"
  | .uint n => toString n.toNat
  | .int n => toString n.toInt
  | .double x => Decimal.plain x
  | .enumeration n => toString n.toInt
  | .object none => "null"
  | .object (some i) => shown i

/-! ### Conformance and equality -/

/-- Whether a value may stand where a type is declared, given which types an instance has. Null fits
every object type. -/
def conformsTo (isA : InstanceId → TypeHandle → Bool) : Value → ValueType → Bool
  | .string _, .string => true
  | .bool _, .bool => true
  | .uint _, .uint => true
  | .int _, .int => true
  | .double _, .double => true
  | .enumeration _, .enumeration _ => true
  | .object none, .object _ => true
  | .object (some i), .object type => isA i type
  | _, _ => false

/-- Equality of primitive values, identity of objects. Doubles compare as numbers, so the value
that is not a number equals nothing, and the two zeros are equal. -/
def identical : Value → Value → Bool
  | .string a, .string b => a == b
  | .bool a, .bool b => a == b
  | .uint a, .uint b => a == b
  | .int a, .int b => a == b
  | .double a, .double b => a == b
  | .enumeration a, .enumeration b => a == b
  | .object a, .object b => a == b
  | _, _ => false

end Value

end ObjectSystem
