import ObjectSystem.Value

/-!
# Awaited events

Whoever awaits one of two signals of an instance holds an event. It is settled by whichever of its
handlers is invoked first, with the arguments of that emission, or abandoned when its handlers are
gone before either was invoked. It is settled once: `settle` does nothing to an event that is no
longer open.
-/

namespace ObjectSystem

/-- Why an awaited event failed. -/
inductive EventError where
  /-- The rejecting signal came first. -/
  | rejected (signal : String) (args : List Value)
  /-- The instance went away first. -/
  | abandoned
  deriving Repr, DecidableEq

/-- The wording of an event error, given the texts of instances. -/
def EventError.message (shown : InstanceId → String) : EventError → String
  | .rejected signal args =>
    let list := String.intercalate ", " (args.map (Value.text shown))
    s!"Rejection signal: '{signal}' triggered with args: [{list}]"
  | .abandoned => "Instance was disposed before the awaited signal fired"

/-- The arguments of the awaited signal, or the failure. -/
abbrev EventOutcome := Except EventError (List Value)

/-- The instances that an outcome refers to. -/
def EventOutcome.targets : EventOutcome → List InstanceId
  | .ok args => args.flatMap Value.targets
  | .error (.rejected _ args) => args.flatMap Value.targets
  | .error .abandoned => []

/-- A task that waits for an event. -/
structure Waiter where
  context : ContextId
  task : TaskId
  deriving Repr, DecidableEq

/-- An awaited event. -/
structure Event where
  /-- The instance whose signals are awaited. -/
  owner : InstanceId
  /-- The handlers that wait for the signals. -/
  handlers : List HandlerId
  /-- Whether the event can still be settled. -/
  isOpen : Bool := true
  /-- The outcome, until it is taken. -/
  outcome : Option EventOutcome := none
  /-- The task that is woken by the outcome. -/
  waiter : Option Waiter := none
  deriving Repr

namespace Event

/-- Gives an open event its outcome. -/
def settle (e : Event) (outcome : EventOutcome) : Event :=
  if e.isOpen then { e with isOpen := false, handlers := [], outcome := some outcome } else e

/-- Takes the outcome out of an event. -/
def take (e : Event) : Event :=
  { e with outcome := none, waiter := none }

end Event

end ObjectSystem
