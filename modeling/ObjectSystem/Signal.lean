import ObjectSystem.Value

/-!
# Signals

A `SignalSpec` declares what a signal carries, what its handlers return and how their results are
combined. `checkArguments` admits an emission, and `accumulate` adds one handler's result to the
result of the emission.
-/

namespace ObjectSystem

/-- Emission flags of a signal. -/
structure SignalFlags where
  runFirst : Bool := false
  runLast : Bool := false
  /-- The signal may be named with a detail. -/
  detailed : Bool := false
  noRecurse : Bool := false
  action : Bool := false
  deriving Repr, DecidableEq

namespace SignalFlags

/-- The flags as a bit set: 1, 2, 4, 8, 16 in the order of the fields. -/
def bits (f : SignalFlags) : Nat :=
  f.runFirst.toNat + 2 * f.runLast.toNat + 4 * f.detailed.toNat + 8 * f.noRecurse.toNat
    + 16 * f.action.toNat

/-- The flags of a bit set; other bits mean nothing. -/
def ofBits (bits : Nat) : SignalFlags :=
  ⟨bits.testBit 0, bits.testBit 1, bits.testBit 2, bits.testBit 3, bits.testBit 4⟩

/-- The flags of a signal that declares none. -/
def standard : SignalFlags := { runLast := true }

end SignalFlags

/-- How the results of handlers are combined. -/
inductive Accumulator where
  /-- The last handler that returns something decides. -/
  | last
  /-- The first handler that returns something decides and ends the emission. -/
  | firstWins
  /-- The last handler that returns something decides; `true` ends the emission. -/
  | trueHandled
  deriving Repr, DecidableEq

/-- The declaration of a signal. -/
structure SignalSpec where
  flags : SignalFlags := .standard
  /-- Types of the arguments, in order. -/
  params : List ValueType := []
  returns : Option ValueType := none
  accumulator : Accumulator := .last
  deriving Repr, DecidableEq

/-- The name of the signal that reports changes of properties. -/
def notifySignal : String := "notify"

/-- The declaration of the change signal, which every instance has: its detail and its only argument
are the canonical name of the property. -/
def SignalSpec.notify : SignalSpec where
  flags := { runFirst := true, detailed := true, noRecurse := true }
  params := [.string]

/-- Why a signal cannot be connected, disconnected or emitted. -/
inductive SignalError where
  | unknownSignal (typeName signal : String)
  | notDetailed (signal : String)
  | argumentCount (signal : String) (expected got : Nat)
  | argumentType (signal : String) (index : Nat) (expected got : String)
  /-- The handler is not, or no longer, connected. -/
  | invalidHandler (handler : HandlerId)
  deriving Repr, DecidableEq

/-- The wording of a signal error. -/
def SignalError.message : SignalError → String
  | .unknownSignal typeName signal => s!"Signal '{signal}' is not defined for type '{typeName}'"
  | .notDetailed signal => s!"Signal '{signal}' does not accept a detail"
  | .argumentCount signal expected got =>
    s!"Signal '{signal}' takes {expected} argument(s), got {got}"
  | .argumentType signal index expected got =>
    s!"Argument {index} of signal '{signal}' expects {expected}, got {got}"
  | .invalidHandler handler => s!"Handler {handler.number} is not connected"

/-- Checks arguments one by one against the declared types, from the given position on. -/
def checkArgumentTypes (isA : InstanceId → TypeHandle → Bool) (signal : String) :
    Nat → List Value → List ValueType → Except SignalError Unit
  | index, arg :: args, type :: types =>
    if arg.conformsTo isA type then checkArgumentTypes isA signal (index + 1) args types
    else .error (.argumentType signal index type.label arg.label)
  | _, _, _ => .ok ()

/-- Checks the arguments of an emission: their number first, then their types in order. -/
def checkArguments (isA : InstanceId → TypeHandle → Bool) (signal : String) (spec : SignalSpec)
    (args : List Value) : Except SignalError Unit :=
  if args.length ≠ spec.params.length then
    .error (.argumentCount signal spec.params.length args.length)
  else checkArgumentTypes isA signal 0 args spec.params

/-- Adds the result of one handler; the flag tells whether the emission ends. -/
def Accumulator.accumulate (a : Accumulator) (sofar result : Option Value) : Option Value × Bool :=
  match a with
  | .last => (result.or sofar, false)
  | .firstWins => (result.or sofar, result.isSome)
  | .trueHandled => (result.or sofar, result == some (.bool true))

end ObjectSystem
