import ObjectSystem.NameTable
import ObjectSystem.Property.Spec
import ObjectSystem.Signal

/-!
# Class registrations

What a class hands over to the type registry, once, before any instance exists.
-/

namespace ObjectSystem

/-- Flags of a registered class. -/
structure TypeFlags where
  /-- The class cannot be instantiated. -/
  isAbstract : Bool := false
  /-- The class cannot be subclassed. -/
  isFinal : Bool := false
  deriving Repr, DecidableEq

/-- The flags as a bit set: abstract 1, final 2. -/
def TypeFlags.bits (f : TypeFlags) : Nat :=
  f.isAbstract.toNat + 2 * f.isFinal.toNat

/-- The flags of a bit set; other bits mean nothing. -/
def TypeFlags.ofBits (bits : Nat) : TypeFlags :=
  ⟨bits.testBit 0, bits.testBit 1⟩

/-- Everything the registry is told about one class. -/
structure ClassRegistration where
  typeName : String
  parent : TypeHandle
  /-- Resource path of the template. -/
  template : Option String
  internalChildren : List String
  signals : NameTable SignalSpec
  cssName : Option String
  /-- Descriptors of the class's own properties, one per name. -/
  properties : List PropertySpec
  implements : List TypeHandle
  flags : TypeFlags
  deriving Repr

end ObjectSystem
