import ObjectSystem.Value

/-!
# Debouncing

A debounced method collapses a burst of calls into at most two runs. A burst ends when the method
has been left alone for a full interval; every call starts the interval anew.
-/

namespace ObjectSystem

/-- When a debounced method runs. -/
inductive Trigger where
  /-- At the first call of a burst. -/
  | leading
  /-- At the end of a burst, with the arguments of its last call. -/
  | trailing
  /-- At the first call, and at the end if further calls came. -/
  | leadingTrailing
  deriving Repr, DecidableEq

namespace Trigger

/-- Whether the first call of a burst runs the method. -/
def isLeading : Trigger → Bool
  | .trailing => false
  | _ => true

/-- Whether the end of a burst may run the method. -/
def isTrailing : Trigger → Bool
  | .leading => false
  | _ => true

/-- The name of a trigger. -/
def name : Trigger → String
  | .leading => "leading"
  | .trailing => "trailing"
  | .leadingTrailing => "leading+trailing"

/-- The trigger of a declaration that names none. -/
def standard : Trigger := .trailing

/-- The trigger of a name. -/
def ofName? (text : String) : Option Trigger :=
  [leading, trailing, leadingTrailing].find? (·.name = text)

end Trigger

/-- How a method is debounced. -/
structure Debounce where
  /-- The quiet time that ends a burst, in milliseconds. -/
  interval : Nat
  trigger : Trigger := .standard
  deriving Repr, DecidableEq

/-- The burst of one method of one instance. -/
structure Burst where
  /-- The timer that ends the burst. -/
  pending : Option SourceId := none
  /-- The arguments of the last call that waits for the end. -/
  lastArgs : Option (List Value) := none
  /-- Whether a call waits for the end. -/
  trailing : Bool := false
  deriving Repr

namespace Burst

/-- Whether a call runs the method at once: the first one of a burst, if the trigger says so. -/
def runsAtOnce (burst : Burst) (trigger : Trigger) : Bool :=
  trigger.isLeading && burst.pending.isNone

/-- Records a call. One that does not run at once waits for the end of the burst, if the trigger has
anything run there. -/
def record (burst : Burst) (trigger : Trigger) (args : List Value) : Burst :=
  if !burst.runsAtOnce trigger && trigger.isTrailing then
    { burst with lastArgs := some args, trailing := true }
  else burst

/-- Ends the burst. A trailing trigger runs the waiting call and forgets that it waited. -/
def finish (burst : Burst) (trigger : Trigger) : Burst × Option (List Value) :=
  if trigger.isTrailing then
    ({}, if burst.trailing then some (burst.lastArgs.getD []) else none)
  else ({ burst with pending := none, lastArgs := none }, none)

end Burst

end ObjectSystem
