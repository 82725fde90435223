import ObjectSystem.World

/-!
# Reclaiming instances

An instance lives as long as something keeps it: a handle of a program or of an operation in
progress, a waiting task, or another live instance, be it directly, through its class or through its
actions. Timers, ready hooks and declared action handlers do not keep it. Instances that keep each
other live on for ever. `World.mem_keptInstances` says that an instance is kept exactly if one of
the handles at hand leads to it.

`World.dropUnkept` drops the instances that nothing keeps any more, in the order in which the
handles that kept them were let go of. A dropped instance lets go of its class, its context, its
stored values and its fields, then of its handlers in order of connection, then of waiting calls and
its actions; an event whose last handler is gone is abandoned at that moment.
-/

namespace ObjectSystem

variable {β : Type}

namespace World

/-! ### What is kept -/

/-- The instances that an action keeps. -/
def actionTargets (w : World β) (a : ActionId) : List InstanceId :=
  (((w.actions.find? a).bind (·.state)).map Value.targets).getD []

/-- The instances that an awaited event keeps. -/
def eventTargets (w : World β) (e : EventId) : List InstanceId :=
  (((w.events.find? e).bind (·.outcome)).map EventOutcome.targets).getD []

/-- The instances that a task keeps. -/
def taskTargets (w : World β) (task : Task β) : List InstanceId :=
  task.awaits.toList.flatMap w.eventTargets ++ task.owner.toList.map (·.target)

/-- The instances that a context keeps. -/
def contextTargets (w : World β) (c : ContextId) : List InstanceId :=
  ((w.context? c).map fun context => context.heldTasks.flatMap w.taskTargets).getD []

/-- The instances that a handle keeps through no context, in the order in which they are let go of
with it. -/
def directTargets (w : World β) : Handle → List InstanceId
  | .object i => [i]
  | .action a => w.actionTargets a
  | .group g => (w.group g).values.flatMap w.actionTargets
  | .event e => w.eventTargets e
  | .context _ | .loop _ => []

/-- The context that a handle keeps. -/
def contextOf? (w : World β) : Handle → Option ContextId
  | .context c => some c
  | .loop l => (w.loops.find? l).map (·.context)
  | .object _ | .action _ | .group _ | .event _ => none

/-- The instances that a handle keeps without the help of other instances, in the order in which
they are let go of with it. -/
def targets (w : World β) (h : Handle) : List InstanceId :=
  w.directTargets h ++ (w.contextOf? h).toList.flatMap w.contextTargets

/-- The given handles, then those of the live instances. -/
def allHandles (w : World β) (handles : List Handle) : List Handle :=
  handles ++ w.instances.values.flatMap Instance.handles

/-- The contexts that are kept by some handles or by live instances. -/
def keptContexts (w : World β) (handles : List Handle) : List ContextId :=
  ((w.allHandles handles).filterMap w.contextOf?).eraseDups

/-- The instances that are kept by some handles or by live instances. -/
def keptInstances (w : World β) (handles : List Handle) : List InstanceId :=
  (w.allHandles handles).flatMap w.directTargets
    ++ (w.keptContexts handles).flatMap w.contextTargets

theorem mem_keptInstances {w : World β} {handles : List Handle} {i : InstanceId} :
    i ∈ w.keptInstances handles ↔ ∃ h ∈ w.allHandles handles, i ∈ w.targets h := by
  simp only [keptInstances, keptContexts, targets, List.mem_append, List.mem_flatMap,
    List.mem_eraseDups, List.mem_filterMap, Option.mem_toList]
  grind

/-! ### Abandoned events -/

/-- The events that handlers of live instances could still settle. -/
def handledEvents (w : World β) : List EventId :=
  w.instances.values.flatMap fun x => x.handlers.filterMap (·.target.event?)

/-- Whether an event can still be settled. -/
def isOpen (w : World β) (e : EventId) : Bool :=
  match w.events.find? e with
  | some event => event.isOpen
  | none => false

/-- The events that can still be settled, in the order in which they were awaited. -/
def openEvents (w : World β) : List EventId :=
  w.events.keys.filter w.isOpen

/-- The open events that no handler is left for. Besides the connected handlers, some others are
given that are still held. -/
def lostEvents (w : World β) (others : List EventId) : List EventId :=
  let handled := w.handledEvents ++ others
  w.openEvents.filter (· ∉ handled)

/-- Abandons the lost events, in the order in which they were awaited. -/
def abandonEvents (w : World β) (others : List EventId) : World β :=
  (w.lostEvents others).foldl (fun w e => w.settle e (.error .abandoned)) w

/-! ### Dropping -/

/-- Something that has been let go of. -/
inductive Debris (β : Type) where
  | reference (i : InstanceId)
  | handlers (hs : List (Handler β))
  deriving Repr

/-- The instances that debris still refers to. -/
def Debris.targets : Debris β → List InstanceId
  | .reference i => [i]
  | .handlers _ => []

/-- The events that handlers in debris could still settle. -/
def Debris.events : Debris β → List EventId
  | .reference _ => []
  | .handlers hs => hs.filterMap (·.target.event?)

/-- What an instance lets go of when it is dropped, in order. -/
def debrisOf (w : World β) (x : Instance β) : List (Debris β) :=
  (x.firstHandles.flatMap w.targets).map .reference
    ++ .handlers x.handlers :: (x.lastHandles.flatMap w.targets).map .reference

/-- Drops an instance. -/
def dropInstance (w : World β) (i : InstanceId) : World β :=
  { w with instances := w.instances.erase i }

/-- The first instance that nothing keeps. -/
def firstUnkept (w : World β) (handles : List Handle) : Option (InstanceId × Instance β) :=
  let kept := w.keptInstances handles
  w.instances.entries.find? fun (i, _) => i ∉ kept

/-- Lets go of debris piece by piece. A piece that was the last to keep an instance drops it, and
what that one leaves goes first. When no debris is left, the next unkept instance is dropped, until
there is none. The number of instances bounds the work: `fuel` is at least that number. -/
def sweep (handles : List Handle) (events : List EventId) :
    Nat → World β → List (Debris β) → World β
  | fuel, w, .reference i :: rest =>
    match w.instance? i with
    | none => sweep handles events fuel w rest
    | some x =>
      if i ∈ w.keptInstances handles ++ rest.flatMap Debris.targets then
        sweep handles events fuel w rest
      else match fuel with
        | 0 => w
        | fuel + 1 =>
          let w := w.dropInstance i
          sweep handles events fuel w (w.debrisOf x ++ rest)
  | fuel, w, .handlers _ :: rest =>
    sweep handles events fuel (w.abandonEvents (events ++ rest.flatMap Debris.events)) rest
  | fuel, w, [] =>
    match w.firstUnkept handles with
    | none => w
    | some (i, x) =>
      match fuel with
      | 0 => w
      | fuel + 1 =>
        let w := w.dropInstance i
        sweep handles events fuel w (w.debrisOf x)
  termination_by fuel _ debris => (fuel, debris.length)

/-- The references that live instances had in one world and do not have in a later one. -/
def lostTargets (before after : World β) : List InstanceId :=
  before.instances.entries.flatMap fun (i, x) =>
    match after.instance? i with
    | none => []
    | some y =>
      (y.handles.flatMap after.targets).foldl List.erase (x.handles.flatMap before.targets)

/-- Drops the instances that nothing keeps, given the handles and the events of the operations in
progress. The references that may have been let go of, in order, decide which instance is dropped
first. -/
def dropUnkept (w : World β) (handles : List Handle) (events : List EventId)
    (released : List InstanceId) : World β :=
  sweep handles events w.instances.entries.length w (released.map .reference)

end World

end ObjectSystem
