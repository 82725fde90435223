/-!
# Identities

Everything that is created while a program runs (a type, an instance, a handler, a source, ...) is
referred to by an identity of its own type. Identities are numbered in the order of creation and
never used twice.
-/

namespace ObjectSystem

/-- Refers to a registered type, or to none: no type has the null handle. -/
inductive TypeHandle where
  | null
  | registered (index : Nat)
  deriving Repr, DecidableEq, Inhabited

/-- The number of an instance, counted from 1. -/
structure InstanceId where
  number : Nat
  deriving Repr, DecidableEq, Inhabited

/-- A handler connected to a signal of one instance. -/
structure HandlerId where
  number : Nat
  deriving Repr, DecidableEq, Inhabited

/-- An action. -/
structure ActionId where
  number : Nat
  deriving Repr, DecidableEq, Inhabited

/-- A group of actions. -/
structure GroupId where
  number : Nat
  deriving Repr, DecidableEq, Inhabited

/-- A main context. -/
structure ContextId where
  number : Nat
  deriving Repr, DecidableEq, Inhabited

/-- A main loop. -/
structure LoopId where
  number : Nat
  deriving Repr, DecidableEq, Inhabited

/-- A source attached to one context; its number is its place in the order of attachment. -/
structure SourceId where
  number : Nat
  deriving Repr, DecidableEq, Inhabited

/-- A task spawned on one context. -/
structure TaskId where
  number : Nat
  deriving Repr, DecidableEq, Inhabited

/-- An event that somebody awaits. -/
structure EventId where
  number : Nat
  deriving Repr, DecidableEq, Inhabited

end ObjectSystem
