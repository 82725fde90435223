import ObjectSystem.World

/-!
# Commands, invocations and replies

A program talks to the library in *commands* and gets *replies*; the library talks to a program by
*invoking* callbacks, which end with an *outcome*. All four are plain data. Queries that run no
callback are not commands: a program sees the world and can ask it directly.

Each kind of data lists the handles in it, in the order in which they are let go of together.
-/

namespace ObjectSystem

/-! ### Commands -/

/-- How an instance is to be constructed. -/
structure Construction (β : Type) where
  ofClass : Class β
  context : ContextId
  fields : List (String × Value) := []
  children : List (String × InstanceId) := []
  properties : List (String × Value) := []
  deriving Repr

/-- What a program asks the library to do. -/
inductive Command (β : Type) where
  | registerEnum (name : String) (members : List EnumMember)
  | registerInterface (name : String)
  | registerClass (registration : ClassRegistration)
  | finalize (builder : ClassBuilder β)
  | construct (construction : Construction β)
  | property (i : InstanceId) (name : String)
  | setProperty (i : InstanceId) (name : String) (value : Value)
  | notify (i : InstanceId) (name : String)
  | setField (i : InstanceId) (name : String) (value : Value)
  | dispose (i : InstanceId)
  | connect (i : InstanceId) (signal : String) (callback : β)
  | connectNotify (i : InstanceId) (property : Option String) (callback : β)
  | disconnect (i : InstanceId) (handler : HandlerId)
  | emit (i : InstanceId) (signal : String) (args : List Value)
  | call (i : InstanceId) (method : String) (args : List Value)
  | newAction (name : String) (options : ActionOptions)
  | enableAction (a : ActionId) (enabled : Bool)
  | setActionState (a : ActionId) (state : Value)
  | connectAction (a : ActionId) (callback : β)
  | activateAction (a : ActionId) (parameter : Option Value)
  | activate (i : InstanceId) (name : String) (parameter : Option Value)
  | attachAction (i : InstanceId) (a : ActionId)
  | setAccels (i : InstanceId) (name : String) (accels : List String)
  | newGroup
  | ownGroup (i : InstanceId)
  | insertGroup (i : InstanceId) (qualifier : String) (g : GroupId)
  | addToGroup (g : GroupId) (a : ActionId)
  | removeFromGroup (g : GroupId) (name : String)
  | activateInGroup (g : GroupId) (name : String) (parameter : Option Value)
  | newContext (config : Config)
  | addIdle (c : ContextId) (priority : Priority) (once : Bool) (callback : β)
  | addTimeout (c : ContextId) (priority : Priority) (interval : Nat) (once : Bool) (callback : β)
  | removeSource (c : ContextId) (source : SourceId)
  | iterate (c : ContextId)
  | runUntilIdle (c : ContextId)
  | advance (c : ContextId) (duration : Nat)
  | spawn (c : ContextId) (callback : β)
  | newLoop (c : ContextId)
  | runLoop (l : LoopId)
  | quitLoop (l : LoopId)
  | awaitEvent (i : InstanceId) (resolve : String) (reject : Option String)
  | pollEvent (e : EventId)
  deriving Repr

/-! ### Invocations and outcomes -/

/-- What a callback is run for. -/
inductive Role where
  /-- The outermost program. -/
  | program
  | getter (property : String)
  | setter (name : String)
  | effect (property : String)
  | handler (handler : HandlerId)
  | method (name : String)
  | initHook (typeName : String)
  | action
  | source (c : ContextId) (source : SourceId)
  | ready (typeName : String)
  /-- A ready hook that is to yield a task. -/
  | readyTask (typeName : String)
  | task (c : ContextId) (task : TaskId)
  deriving Repr, DecidableEq

/-- One run of a callback. -/
structure Invocation where
  role : Role
  self : Option InstanceId := none
  action : Option ActionId := none
  args : List Value := []
  deriving Repr

/-- What a panicking callback leaves behind. -/
inductive PanicPayload where
  | text (message : String)
  | other
  deriving Repr, DecidableEq

/-- The text of a panic in reports. -/
def PanicPayload.message : PanicPayload → String
  | .text message => message
  | .other => "panic"

/-- How a callback ends. -/
inductive Outcome (β : Type) where
  /-- With a value, or without one. -/
  | value (result : Option Value)
  /-- A source says whether it stays. -/
  | flow (stays : Bool)
  /-- A ready hook fails. -/
  | failure (text : String)
  | panic (payload : PanicPayload)
  /-- A ready hook yields its task. -/
  | task (callback : β)
  deriving Repr

namespace Outcome

variable {β : Type}

/-- The value that a callback returned. -/
def value? : Outcome β → Option Value
  | .value result => result
  | _ => none

/-- Whether a source stays. -/
def stays : Outcome β → Bool
  | .flow stays => stays
  | _ => false

/-- What is reported about a ready hook that went wrong. -/
def failure? : Outcome β → Option String
  | .failure text => some text
  | .panic payload => some payload.message
  | _ => none

end Outcome

/-- The report of a ready hook that went wrong. -/
structure ReadyFailure where
  /-- The type that declares the hook. -/
  typeName : String
  text : String
  deriving Repr, DecidableEq

/-! ### Replies -/

/-- What a waiting program or operation is told. -/
inductive Reply (β : Type) where
  /-- Go on: the run begins, or the program asked to be called again. -/
  | proceed
  | done
  | failed (error : Error)
  /-- A command named something that does not exist. -/
  | missing
  | value (result : Option Value)
  | flag (answer : Bool)
  | count (number : Nat)
  | object (i : InstanceId)
  | ofClass (c : Class β)
  | handler (h : HandlerId)
  | source (s : SourceId)
  | action (a : Option ActionId)
  | group (g : GroupId)
  | context (c : ContextId)
  | loop (l : LoopId)
  | event (e : EventId)
  /-- The outcome of an event, if it has one. -/
  | outcome (outcome : Option EventOutcome)
  /-- A callback has ended. -/
  | returned (outcome : Outcome β)
  /-- A task waits. -/
  | suspended
  deriving Repr

/-! ### Handles in data -/

/-- The handles in an outcome of an event. -/
def EventOutcome.handles (o : EventOutcome) : List Handle :=
  o.targets.map .object

/-- The handles in an invocation. The instance outlives the arguments. -/
def Invocation.handles (inv : Invocation) : List Handle :=
  Handle.ofValues inv.args ++ inv.action.toList.map .action ++ inv.self.toList.map .object

/-- The handles in an outcome. -/
def Outcome.handles {β : Type} (o : Outcome β) : List Handle :=
  Handle.ofValues o.value?.toList

/-- The handles in a reply. -/
def Reply.handles {β : Type} : Reply β → List Handle
  | .failed error => error.targets.map .object
  | .value result => Handle.ofValues result.toList
  | .object i => [.object i]
  | .ofClass c => c.handles
  | .action a => a.toList.map .action
  | .group g => [.group g]
  | .context c => [.context c]
  | .loop l => [.loop l]
  | .event e => [.event e]
  | .outcome o => (o.map EventOutcome.handles).getD []
  | .returned o => o.handles
  | _ => []

/-- The handles in a construction. -/
def Construction.handles {β : Type} (c : Construction β) : List Handle :=
  c.ofClass.handles ++ [.context c.context] ++ Handle.ofValues (c.properties.map (·.2))
    ++ Handle.ofValues (c.fields.map (·.2)) ++ c.children.map fun child => .object child.2

/-- The handles in a command. A value that is passed to an instance is let go of before it. -/
def Command.handles {β : Type} : Command β → List Handle
  | .finalize builder => builder.handles
  | .construct c => c.handles
  | .property i _ => [.object i]
  | .setProperty i _ value => Handle.ofValues [value] ++ [.object i]
  | .notify i _ => [.object i]
  | .setField i _ value => Handle.ofValues [value] ++ [.object i]
  | .dispose i => [.object i]
  | .connect i _ _ => [.object i]
  | .connectNotify i _ _ => [.object i]
  | .disconnect i _ => [.object i]
  | .emit i _ args => .object i :: Handle.ofValues args
  | .call i _ args => .object i :: Handle.ofValues args
  | .newAction _ options => Handle.ofValues options.state.toList
  | .enableAction a _ => [.action a]
  | .setActionState a state => Handle.ofValues [state] ++ [.action a]
  | .connectAction a _ => [.action a]
  | .activateAction a parameter => .action a :: Handle.ofValues parameter.toList
  | .activate i _ parameter => .object i :: Handle.ofValues parameter.toList
  | .attachAction i a => [.action a, .object i]
  | .setAccels i _ _ => [.object i]
  | .ownGroup i => [.object i]
  | .insertGroup i _ g => [.group g, .object i]
  | .addToGroup g a => [.action a, .group g]
  | .removeFromGroup g _ => [.group g]
  | .activateInGroup g _ parameter => .group g :: Handle.ofValues parameter.toList
  | .awaitEvent i _ _ => [.object i]
  | .pollEvent e => [.event e]
  | .addIdle c .. => [.context c]
  | .addTimeout c .. => [.context c]
  | .removeSource c _ => [.context c]
  | .iterate c => [.context c]
  | .runUntilIdle c => [.context c]
  | .advance c _ => [.context c]
  | .spawn c _ => [.context c]
  | .newLoop c => [.context c]
  | .runLoop l => [.loop l]
  | .quitLoop l => [.loop l]
  | _ => []

end ObjectSystem
