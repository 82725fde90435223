import ObjectSystem.Class

/-!
# Sources

A source is a piece of work that a main context runs again and again: an idle source in every
iteration, a timeout whenever its deadline has passed.
-/

namespace ObjectSystem

/-- The order in which the sources of one iteration run. -/
inductive Priority where
  | high
  | standard
  | highIdle
  | standardIdle
  | low
  deriving Repr, DecidableEq

/-- The place of a priority; lower ones run first. -/
def Priority.rank : Priority → Nat
  | .high => 0
  | .standard => 1
  | .highIdle => 2
  | .standardIdle => 3
  | .low => 4

/-- When a source runs. -/
inductive SourceKind where
  | idle
  /-- At its deadline, and so many milliseconds after each run. -/
  | timeout (interval : Nat)
  deriving Repr, DecidableEq

/-- Whether a source runs in every iteration. -/
def SourceKind.isIdle : SourceKind → Bool
  | .idle => true
  | .timeout _ => false

/-- What a source runs. -/
inductive SourceWork (β : Type) where
  /-- A callback, whose answer tells whether the source stays. -/
  | repeating (callback : β)
  /-- A callback that runs once. -/
  | single (callback : β)
  /-- The ready hook of a level of an instance's class. -/
  | ready (owner : InstanceId) (typeName : String) (hook : ReadyHook β)
  /-- The end of a burst of calls of a debounced method. -/
  | endOfBurst (owner : InstanceId) (method : String) (trigger : Trigger) (callback : β)
  deriving Repr

/-- Whether the work itself decides that its source stays. -/
def SourceWork.mayStay {β : Type} : SourceWork β → Bool
  | .repeating _ => true
  | _ => false

/-- An attached source. -/
structure Source (β : Type) where
  id : SourceId
  kind : SourceKind
  priority : Priority
  /-- The deadline of a timeout, the time of attachment of an idle source. -/
  readyAt : Nat
  work : SourceWork β
  /-- Whether the source is running now. -/
  running : Bool := false
  deriving Repr

/-- An entry of a timeout queue: a source and the deadline with which it entered. -/
structure TimeoutEntry where
  id : SourceId
  readyAt : Nat
  deriving Repr, DecidableEq

namespace Source

variable {β : Type}

/-- Whether an idle source runs in the next iteration. -/
def isReadyIdle (s : Source β) : Bool :=
  s.kind.isIdle && !s.running

/-- The entry of a source with the deadline that it has now. -/
def entry (s : Source β) : TimeoutEntry :=
  ⟨s.id, s.readyAt⟩

/-- Whether a source runs no later than another: by priority, then by deadline or time of
attachment, then by order of attachment. -/
def runsBefore (s t : Source β) : Bool :=
  s.priority.rank < t.priority.rank ||
    (s.priority.rank == t.priority.rank &&
      (s.readyAt < t.readyAt || (s.readyAt == t.readyAt && s.id.number ≤ t.id.number)))

end Source

end ObjectSystem
