import ObjectSystem.Value

/-!
# Handles

A handle is a strong reference: whatever a handle refers to exists as long as somebody keeps the
handle. Lists of handles are given in the order in which their keeper lets go of them.
-/

namespace ObjectSystem

/-- A strong reference. -/
inductive Handle where
  | object (i : InstanceId)
  | action (a : ActionId)
  | group (g : GroupId)
  | event (e : EventId)
  | context (c : ContextId)
  | loop (l : LoopId)
  deriving Repr, DecidableEq

namespace Handle

/-- Handles on the instances that values refer to. -/
def ofValues (values : List Value) : List Handle :=
  values.flatMap fun v => v.targets.map .object

end Handle

end ObjectSystem
