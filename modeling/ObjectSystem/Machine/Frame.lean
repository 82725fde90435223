import ObjectSystem.Machine.Command

/-!
# Operations in progress

An operation of the library that waits for a callback, or for another operation, is a *frame*: it
says what remains to be done. The frames of all operations in progress form a stack, the innermost
on top. A `Progress` is what one step of an operation leads to: a new world, frames to put on the
stack, and what happens next.
-/

namespace ObjectSystem

/-- An emission: handlers that were connected when it began and have not had their turn. -/
structure Emission (β : Type) where
  owner : InstanceId
  args : List Value
  accumulator : Accumulator
  remaining : List (Handler β)
  /-- The result so far. -/
  result : Option Value := none
  /-- Whether the result of the handler that runs now counts. -/
  heeded : Bool := true
  deriving Repr

/-- An activation: handlers that have not had their turn. -/
structure Activation (β : Type) where
  action : ActionId
  parameter : Option Value
  remaining : List (ActionHandler β)
  deriving Repr

/-- A pass over the tasks of a context. -/
structure Pass where
  context : ContextId
  /-- The number of unfinished tasks when the round began. -/
  limit : Nat := 0
  /-- The number of tasks that were polled in this round and wait. -/
  waiting : Nat := 0
  /-- The number of tasks that finished in this pass. -/
  finished : Nat := 0
  /-- The task that is polled now. -/
  current : Option TaskId := none
  deriving Repr

/-- How far an advance of the clock has come. -/
inductive AdvanceStage where
  /-- What is due already is run first. -/
  | before
  /-- The clock steps from deadline to deadline. -/
  | within
  /-- The clock stands at its target; what is due there is run. -/
  | after
  deriving Repr, DecidableEq

/-- What remains to be done by an operation in progress. -/
inductive Frame (β : Type) where
  /-- After a setter: report the change under this name. -/
  | reportChange (i : InstanceId) (name : String)
  /-- After the report: run the effect. -/
  | runEffect (i : InstanceId) (property : String) (effect : Option β) (value : Value)
  /-- After everything else: the write is done. -/
  | finishWrite (i : InstanceId)
  /-- After a getter: the default stands in for nothing. -/
  | orDefault (i : InstanceId) (default : Value)
  | emission (e : Emission β)
  /-- After a method: its result. -/
  | result (i : InstanceId)
  /-- After a leading run: start the interval. -/
  | startInterval (i : InstanceId) (method : String) (debounce : Debounce) (callback : β)
  | activation (a : Activation β)
  /-- After a failure: hand it on, then let go of what was made or collected so far. -/
  | letGo (held : List Handle)
  /-- Construct properties that are still to be written. -/
  | constructing (i : InstanceId) (properties : List (String × Value))
  /-- Hooks that are still to run, with the types that declare them. -/
  | initializing (i : InstanceId) (hooks : List (String × β))
  /-- After a ready hook: report a failure. -/
  | readyEnd (typeName : String)
  /-- After a ready hook that yields a task: spawn it. -/
  | readySpawn (c : ContextId) (owner : ReadyOwner)
  /-- After the work of a source: settle what becomes of it. -/
  | sourceEnd (c : ContextId) (source : SourceId) (mayStay : Bool)
  /-- Sources that an iteration still has to run. -/
  | iteration (c : ContextId) (ready : List SourceId) (worked : Bool)
  /-- After the pass over the tasks: collect the sources. -/
  | collect (c : ContextId) (polled : Bool)
  | pass (p : Pass)
  /-- A pass that is about to end drops what nested passes left. -/
  | finishPass (p : Pass)
  /-- Iterate until nothing is pending. -/
  | drain (c : ContextId) (count : Nat)
  | advance (c : ContextId) (target : Nat) (count : Nat) (stage : AdvanceStage)
  /-- A loop looks whether it is to go on. -/
  | loop (l : LoopId)
  /-- A loop has made an iteration. -/
  | looped (l : LoopId)
  deriving Repr

/-- What happens next. -/
inductive Control (β : Type) where
  /-- A command is carried out. -/
  | perform (command : Command β)
  /-- A callback starts. -/
  | invoke (callback : β) (invocation : Invocation)
  /-- A suspended task goes on with the outcome that it waited for. -/
  | continueTask (c : ContextId) (task : TaskId) (outcome : EventOutcome)
  /-- The top of the stack gets a reply. -/
  | deliver (reply : Reply β)
  deriving Repr

/-- What one step of an operation leads to. -/
structure Progress (β : Type) where
  world : World β
  control : Control β
  /-- Frames to be put on the stack, the topmost first. -/
  frames : List (Frame β) := []
  /-- A ready hook that has just gone wrong. -/
  report : Option ReadyFailure := none
  deriving Repr

namespace Progress

variable {β : Type}

/-- The operation ends with a reply. -/
def reply (w : World β) (r : Reply β) : Progress β :=
  { world := w, control := .deliver r }

/-- The operation goes on with the topmost of the given frames. -/
def proceed (w : World β) (frames : List (Frame β)) : Progress β :=
  { world := w, control := .deliver .proceed, frames }

/-- The operation goes on when a callback has ended. -/
def invoke (w : World β) (callback : β) (invocation : Invocation) (frames : List (Frame β)) :
    Progress β :=
  { world := w, control := .invoke callback invocation, frames }

/-- The operation goes on when a command has been carried out. -/
def perform (w : World β) (command : Command β) (frames : List (Frame β)) : Progress β :=
  { world := w, control := .perform command, frames }

end Progress

/-! ### Handles of operations in progress -/

/-- The handles in a frame. Handlers of an activation keep nothing alive: a declared handler refers
to its instance weakly. -/
def Frame.handles {β : Type} : Frame β → List Handle
  | .reportChange i _ => [.object i]
  | .runEffect i _ _ value => Handle.ofValues [value] ++ [.object i]
  | .finishWrite i => [.object i]
  | .orDefault i _ => [.object i]
  | .emission e => Handle.ofValues e.result.toList ++ .object e.owner :: Handle.ofValues e.args
  | .result i => [.object i]
  | .startInterval i _ _ _ => [.object i]
  | .activation a => .action a.action :: Handle.ofValues a.parameter.toList
  | .letGo held => held
  | .constructing i properties => Handle.ofValues (properties.map (·.2)) ++ [.object i]
  | .initializing i _ => [.object i]
  | .readyEnd _ => []
  | .readySpawn c owner => [.context c, .object owner.target]
  | .sourceEnd c _ _ => [.context c]
  | .iteration c _ _ => [.context c]
  | .collect c _ => [.context c]
  | .pass p => [.context p.context]
  | .finishPass p => [.context p.context]
  | .drain c _ => [.context c]
  | .advance c _ _ _ => [.context c]
  | .loop l => [.loop l]
  | .looped l => [.loop l]

/-- The handles in what happens next. -/
def Control.handles {β : Type} : Control β → List Handle
  | .perform command => command.handles
  | .invoke _ invocation => invocation.handles
  | .continueTask c _ outcome => .context c :: outcome.handles
  | .deliver reply => reply.handles

/-- The events that handlers of an emission in progress could still settle. -/
def Frame.events {β : Type} : Frame β → List EventId
  | .emission e => e.remaining.filterMap (·.target.event?)
  | _ => []

end ObjectSystem
