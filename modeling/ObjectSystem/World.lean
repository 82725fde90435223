import ObjectSystem.Error
import ObjectSystem.MainContext
import ObjectSystem.Table

/-!
# The world

The world holds everything that exists at a moment: the registry, main contexts and loops, live
instances, actions and their groups, awaited events. This module gives access to its parts and
states the facts that need more than one of them: the text of an instance, its types, equality of
values.

An identity that names nothing is answered by doing nothing; programs never hold one.
-/

namespace ObjectSystem

/-- Everything that exists at a moment. -/
structure World (β : Type) where
  registry : Registry := .builtin
  contexts : Table ContextId (MainContext β) := .empty
  loops : Table LoopId MainLoop := .empty
  /-- The instances that are alive. -/
  instances : Table InstanceId (Instance β) := .empty
  nextInstance : Nat := 1
  actions : Table ActionId (Action β) := .empty
  groups : Table GroupId ActionGroup := .empty
  events : Table EventId Event := .empty
  deriving Repr

namespace World

variable {β : Type}

/-! ### Access to the parts -/

/-- A live instance. -/
def instance? (w : World β) (i : InstanceId) : Option (Instance β) :=
  w.instances.find? i

/-- Whether an instance is alive. -/
def isAlive (w : World β) (i : InstanceId) : Bool :=
  w.instances.contains i

/-- Changes an instance. -/
def modifyInstance (w : World β) (i : InstanceId) (f : Instance β → Instance β) : World β :=
  { w with instances := w.instances.modify i f }

/-- A main context. -/
def context? (w : World β) (c : ContextId) : Option (MainContext β) :=
  w.contexts.find? c

/-- Replaces a main context. -/
def setContext (w : World β) (c : ContextId) (context : MainContext β) : World β :=
  { w with contexts := w.contexts.set c context }

/-- Changes a main context. -/
def modifyContext (w : World β) (c : ContextId) (f : MainContext β → MainContext β) : World β :=
  { w with contexts := w.contexts.modify c f }

/-- Creates a main context. -/
def addContext (w : World β) (config : Config) : World β × ContextId :=
  let id := ContextId.mk w.contexts.entries.length
  ({ w with contexts := w.contexts.add id { config } }, id)

/-- Creates a loop over a context. -/
def addLoop (w : World β) (c : ContextId) : World β × LoopId :=
  let id := LoopId.mk w.loops.entries.length
  ({ w with loops := w.loops.add id { context := c } }, id)

/-- Says whether a loop runs. -/
def setRunning (w : World β) (l : LoopId) (running : Bool) : World β :=
  { w with loops := w.loops.modify l fun loop => { loop with running } }

/-- Creates an instance in its first state. -/
def addInstance (w : World β) (ofClass : Class β) (context : ContextId) : World β × InstanceId :=
  let id := InstanceId.mk w.nextInstance
  ({ w with instances := w.instances.add id { ofClass, context },
            nextInstance := w.nextInstance + 1 }, id)

/-- Creates an action. -/
def addAction (w : World β) (action : Action β) : World β × ActionId :=
  let id := ActionId.mk w.actions.entries.length
  ({ w with actions := w.actions.add id action }, id)

/-- Changes an action. -/
def modifyAction (w : World β) (a : ActionId) (f : Action β → Action β) : World β :=
  { w with actions := w.actions.modify a f }

/-- Creates an empty group of actions. -/
def addGroup (w : World β) : World β × GroupId :=
  let id := GroupId.mk w.groups.entries.length
  ({ w with groups := w.groups.add id .empty }, id)

/-- Changes a group of actions. -/
def modifyGroup (w : World β) (g : GroupId) (f : ActionGroup → ActionGroup) : World β :=
  { w with groups := w.groups.modify g f }

/-- The actions of a group. -/
def group (w : World β) (g : GroupId) : ActionGroup :=
  (w.groups.find? g).getD .empty

/-- Creates an awaited event. -/
def addEvent (w : World β) (event : Event) : World β × EventId :=
  let id := EventId.mk w.events.entries.length
  ({ w with events := w.events.add id event }, id)

/-! ### Instances and values -/

/-- The text of an instance: its type and its number. -/
def shown (w : World β) (i : InstanceId) : String :=
  let number := toString i.number
  match w.instance? i with
  | some x => x.typeName ++ "#" ++ number
  | none => "#" ++ number

/-- Whether an instance's class is a type, derives from it or implements it. -/
def isA (w : World β) (i : InstanceId) (type : TypeHandle) : Bool :=
  match w.instance? i with
  | some x => x.ofClass.isA type
  | none => false

/-- Whether two lists of stored values have the same names and identical values. -/
def sameStored : List (String × Value) → List (String × Value) → Bool
  | [], [] => true
  | (a, v) :: rest, (b, w) :: others => a == b && v.identical w && sameStored rest others
  | _, _ => false

/-- Equality of values up to the stored values of instances: two instances are equal if they are the
same, or have the same class and pairwise identical stored values. -/
def structurallyEqual (w : World β) (a b : Value) : Bool :=
  match a, b with
  | .object (some i), .object (some j) =>
    if i = j then true
    else match w.instance? i, w.instance? j with
      | some x, some y =>
        x.ofClass.same y.ofClass && sameStored x.stored.entries y.stored.entries
      | _, _ => false
  | a, b => a.identical b

/-- Equality of values as a property compares them. -/
def valuesEqual (w : World β) : ObjectEquality → Value → Value → Bool
  | .identity, a, b => a.identical b
  | .structural, a, b => w.structurallyEqual a b

/-- The configuration that an instance reads. -/
def configOf (w : World β) (x : Instance β) : Config :=
  ((w.context? x.context).map (·.config)).getD {}

/-! ### Events -/

/-- Wakes a task that waits. -/
def wake (w : World β) (waiter : Option Waiter) : World β :=
  match waiter with
  | none => w
  | some ⟨context, task⟩ => w.modifyContext context (·.wake task)

/-- Gives an open event its outcome: its handlers are disconnected first, then its task is woken. An
event that is no longer open stays as it is. -/
def settle (w : World β) (id : EventId) (outcome : EventOutcome) : World β :=
  match w.events.find? id with
  | none => w
  | some event =>
    if event.isOpen then
      let w := w.modifyInstance event.owner fun x => event.handlers.foldl Instance.disconnect x
      let w := { w with events := w.events.set id (event.settle outcome) }
      w.wake event.waiter
    else w

/-- Takes the outcome of an event, if it has one. -/
def takeOutcome (w : World β) (id : EventId) : World β × Option EventOutcome :=
  match w.events.find? id with
  | none => (w, none)
  | some event =>
    match event.outcome with
    | none => (w, none)
    | some outcome => ({ w with events := w.events.modify id Event.take }, some outcome)

/-! ### Debounce and ready sources -/

/-- Removes sources of a context, as far as they are attached. -/
def detachSources (w : World β) (c : ContextId) (ids : List SourceId) : World β :=
  w.modifyContext c fun context => ids.foldl MainContext.detach context

/-- Disposes an instance: its ready hooks and timers are cancelled and its handlers disconnected. A
second disposal does nothing. -/
def dispose (w : World β) (i : InstanceId) : World β :=
  match w.instance? i with
  | none => w
  | some x =>
    if x.disposed then w
    else (w.detachSources x.context x.deferredSources).modifyInstance i Instance.dispose

/-- Attaches a ready hook of an instance. -/
def scheduleReady (w : World β) (i : InstanceId) (typeName : String) (hook : ReadyHook β) :
    World β :=
  match w.instance? i with
  | none => w
  | some x =>
    match w.context? x.context with
    | none => w
    | some context =>
      let (context, source) := context.addIdle .standard (.ready i typeName hook)
      (w.setContext x.context context).modifyInstance i (·.trackReady source)

/-- Starts the interval of a burst anew: the timer that would have ended it is replaced. -/
def restartBurst (w : World β) (i : InstanceId) (method : String) (debounce : Debounce)
    (callback : β) : World β :=
  match w.instance? i with
  | none => w
  | some x =>
    let burst := x.burst method
    let w := w.detachSources x.context burst.pending.toList
    match w.context? x.context with
    | none => w
    | some context =>
      let work := SourceWork.endOfBurst i method debounce.trigger callback
      let (context, source) := context.addTimeout .standard debounce.interval work
      (w.setContext x.context context).modifyInstance i
        (·.setBurst method { burst with pending := some source })

end World

end ObjectSystem
