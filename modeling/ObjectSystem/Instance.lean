import ObjectSystem.Class
import ObjectSystem.Signal

/-!
# Instances

An instance belongs to a class and a main context and has a state of its own: stored property
values, raw fields, connected handlers, bursts of debounced calls, and actions. This module holds
that state, the errors of its operations, and every query and change that runs no callback.
-/

namespace ObjectSystem

/-! ### Errors -/

/-- Why a property or a child cannot be read or written. -/
inductive PropertyError where
  | unknownProperty (typeName property : String)
  | notWritable (typeName property : String)
  /-- The property can be written during construction only. -/
  | constructOnly (typeName property : String)
  | invalidValue (cause : SpecError)
  | unknownChild (typeName child : String)
  | childReadOnly (child : String)
  deriving Repr, DecidableEq

/-- The wording of a property error. -/
def PropertyError.message : PropertyError → String
  | .unknownProperty typeName property =>
    s!"Property '{property}' is not defined for type '{typeName}'"
  | .notWritable typeName property =>
    s!"Cannot write to CONSTANT property '{property}' of '{typeName}'"
  | .constructOnly typeName property =>
    s!"Property '{property}' of '{typeName}' can only be set at construction"
  | .invalidValue cause => cause.message
  | .unknownChild typeName child => s!"Child '{child}' is not declared for type '{typeName}'"
  | .childReadOnly child => s!"Cannot write to internal child '{child}'"

/-- Why a method cannot be called. -/
inductive MethodError where
  | unknownMethod (typeName method : String)
  /-- The instance was disposed; its text is given. -/
  | disposed (target method : String)
  deriving Repr, DecidableEq

/-- The wording of a method error. -/
def MethodError.message : MethodError → String
  | .unknownMethod typeName method => s!"Method '{method}' is not defined for type '{typeName}'"
  | .disposed target method => s!"Cannot call '{method}' on disposed instance {target}"

/-- Why an instance cannot be constructed. -/
inductive ConstructError where
  | isAbstract (typeName : String)
  | unknownChild (typeName child : String)
  | property (cause : PropertyError)
  deriving Repr, DecidableEq

/-- The wording of a construction error. -/
def ConstructError.message : ConstructError → String
  | .isAbstract typeName => s!"Cannot instantiate abstract type '{typeName}'"
  | .unknownChild typeName child => s!"Type '{typeName}' declares no child '{child}'"
  | .property cause => cause.message

/-! ### Handlers -/

/-- What a handler does when its signal is emitted. -/
inductive HandlerTarget (β : Type) where
  /-- Runs a callback with the arguments; its result counts. -/
  | callback (callback : β)
  /-- Runs a callback with the name of the changed property; its result does not count. -/
  | change (callback : β)
  /-- Settles an event with the arguments. -/
  | resolves (event : EventId)
  /-- Settles an event with a rejection by the named signal. -/
  | rejects (event : EventId) (signal : String)
  deriving Repr

/-- The event that a handler settles. -/
def HandlerTarget.event? {β : Type} : HandlerTarget β → Option EventId
  | .resolves event => some event
  | .rejects event _ => some event
  | _ => none

/-- A connected handler. -/
structure Handler (β : Type) where
  id : HandlerId
  signal : String
  /-- The only detail that the handler listens to; every one if not given. -/
  detail : Option String
  target : HandlerTarget β
  deriving Repr

/-- Whether a handler is called by an emission. -/
def Handler.matches {β : Type} (h : Handler β) (signal : String) (detail : Option String) : Bool :=
  h.signal == signal && (h.detail.isNone || h.detail == detail)

/-! ### State -/

/-- The state of an instance. -/
structure Instance (β : Type) where
  ofClass : Class β
  context : ContextId
  /-- Whether construct-only properties can still be written. -/
  constructing : Bool := true
  disposed : Bool := false
  /-- Written property values, by declared name. -/
  stored : NameTable Value := .empty
  /-- Raw fields, among them children and backing fields. -/
  fields : NameTable Value := .empty
  /-- Connected handlers, in order of connection. -/
  handlers : List (Handler β) := []
  nextHandler : Nat := 0
  /-- Bursts of debounced calls, by method. -/
  bursts : NameTable Burst := .empty
  /-- The group of a widget's own actions. -/
  ownGroup : Option GroupId := none
  groups : NameTable GroupId := .empty
  /-- Directly held actions. -/
  actions : NameTable ActionId := .empty
  accels : NameTable (List String) := .empty
  exposed : NameTable ActionId := .empty
  /-- Attached sources of ready hooks that have not started. -/
  readySources : List SourceId := []
  deriving Repr

/-- The field that a child is kept in. -/
def childField (name : String) : String :=
  "_" ++ name

namespace Instance

variable {β : Type}

/-- The registered name of the class. -/
def typeName (x : Instance β) : String :=
  x.ofClass.typeName

/-- The error for a name that no property has. -/
def unknownProperty (x : Instance β) (name : String) : PropertyError :=
  .unknownProperty x.typeName name

/-! ### Properties, fields and children -/

/-- Stores a property value under its declared name. -/
def store (x : Instance β) (name : String) (value : Value) : Instance β :=
  { x with stored := x.stored.insert name value }

/-- The value of a raw field. -/
def field? (x : Instance β) (name : String) : Option Value :=
  x.fields.find? name

/-- Writes a raw field. -/
def setField (x : Instance β) (name : String) (value : Value) : Instance β :=
  { x with fields := x.fields.insert name value }

/-- Writes a raw field unless it has a value. -/
def seedField (x : Instance β) (name : String) (value : Value) : Instance β :=
  if x.fields.contains name then x else x.setField name value

/-- The child of a name, if it was bound. -/
def child (x : Instance β) (name : String) : Except PropertyError (Option InstanceId) :=
  if x.ofClass.declaresChild name then .ok ((x.field? (childField name)).bind Value.asObject?)
  else .error (.unknownChild x.typeName name)

/-- Children are bound during construction and never written. -/
def setChild (_ : Instance β) (name : String) : Except PropertyError Unit :=
  .error (.childReadOnly name)

/-- How a write to a property proceeds once it is admitted. -/
inductive Write (β : Type) where
  /-- A setter that no property belongs to. -/
  | setter (callback : β)
  /-- The setter of a computed property. -/
  | computed (spec : PropertySpec) (callback : β)
  /-- A stored property. -/
  | stored (spec : PropertySpec) (notify : Option NotifyPolicy) (equality : Option ObjectEquality)
      (effect : Option β)

/-- Admits a write or says why it is refused. The name must belong to a property or a setter; a
stored property must be writable, and written in time; a computed one must have a setter; and the
value must fit. -/
def admitWrite (x : Instance β) (isA : InstanceId → TypeHandle → Bool) (name : String)
    (value : Value) : Except PropertyError (Write β) :=
  match x.ofClass.findProperty? name with
  | none =>
    match x.ofClass.findSetter? name with
    | some callback => .ok (.setter callback)
    | none => .error (x.unknownProperty name)
  | some ⟨spec, .computed _ _⟩ =>
    match x.ofClass.findSetter? spec.name with
    | none => .error (.notWritable x.typeName spec.name)
    | some callback => do
      (spec.check isA value).mapError .invalidValue
      return .computed spec callback
  | some ⟨spec, .stored notify equality effect⟩ =>
    if !spec.flags.writable then .error (.notWritable x.typeName spec.name)
    else if spec.flags.constructOnly && !x.constructing then
      .error (.constructOnly x.typeName spec.name)
    else do
      (spec.check isA value).mapError .invalidValue
      return .stored spec notify equality effect

/-! ### Signals -/

/-- The declaration of a signal, if it may be named with that detail. -/
def resolveSignal (x : Instance β) (signal : String) (detail : Option String) :
    Except SignalError SignalSpec :=
  let found := if signal = notifySignal then some .notify else x.ofClass.findSignal? signal
  match found with
  | none => .error (.unknownSignal x.typeName signal)
  | some spec =>
    if detail.isSome && !spec.flags.detailed then .error (.notDetailed signal) else .ok spec

/-- The spelling of a detail that handlers are compared by: the change signal takes canonical names
of properties. -/
def detailKey (signal : String) (detail : Option String) : Option String :=
  if signal = notifySignal then detail.map Name.canonical else detail

/-- Connects a handler behind all others. -/
def connect (x : Instance β) (detailed : String) (target : HandlerTarget β) :
    Except SignalError (Instance β × HandlerId) :=
  let (signal, detail) := Name.splitDetail detailed
  match x.resolveSignal signal detail with
  | .error e => .error e
  | .ok _ =>
    let id := HandlerId.mk x.nextHandler
    let handler : Handler β := { id, signal, detail := detailKey signal detail, target }
    .ok ({ x with handlers := x.handlers ++ [handler], nextHandler := x.nextHandler + 1 }, id)

/-- Whether a handler is connected. -/
def isConnected (x : Instance β) (id : HandlerId) : Bool :=
  x.handlers.any (·.id = id)

/-- Disconnects a handler, if it is connected. -/
def disconnect (x : Instance β) (id : HandlerId) : Instance β :=
  { x with handlers := x.handlers.filter (·.id ≠ id) }

/-- The handlers that an emission calls, in order of connection. -/
def handlersOf (x : Instance β) (signal : String) (detail : Option String) : List (Handler β) :=
  x.handlers.filter (·.matches signal detail)

/-! ### Debounced calls -/

/-- The burst of a method; a fresh one if it was never called. -/
def burst (x : Instance β) (method : String) : Burst :=
  (x.bursts.find? method).getD {}

/-- Replaces the burst of a method. -/
def setBurst (x : Instance β) (method : String) (burst : Burst) : Instance β :=
  { x with bursts := x.bursts.insert method burst }

/-! ### Life cycle -/

/-- Notes that the source of a ready hook is attached. -/
def trackReady (x : Instance β) (id : SourceId) : Instance β :=
  { x with readySources := x.readySources ++ [id] }

/-- Notes that a ready hook has started. -/
def untrackReady (x : Instance β) (id : SourceId) : Instance β :=
  { x with readySources := x.readySources.filter (· ≠ id) }

/-- The sources that disposal removes: those of ready hooks, then those that end bursts. -/
def deferredSources (x : Instance β) : List SourceId :=
  x.readySources ++ x.bursts.values.filterMap (·.pending)

/-- What disposal leaves of an instance: no ready hooks, no timers, no handlers. -/
def dispose (x : Instance β) : Instance β :=
  { x with
    disposed := true
    readySources := []
    bursts := x.bursts.map fun burst => { burst with pending := none }
    handlers := [] }

/-! ### Handles -/

/-- The handles that an instance lets go of before its handlers when it is dropped. -/
def firstHandles (x : Instance β) : List Handle :=
  x.ofClass.handles ++ [.context x.context] ++ Handle.ofValues x.stored.values
    ++ Handle.ofValues x.fields.values

/-- The handles that an instance lets go of after its handlers when it is dropped. -/
def lastHandles (x : Instance β) : List Handle :=
  Handle.ofValues (x.bursts.values.flatMap fun burst => burst.lastArgs.getD [])
    ++ x.ownGroup.toList.map .group ++ x.groups.values.map .group ++ x.actions.values.map .action
    ++ x.exposed.values.map .action

/-- The handles that an instance keeps. -/
def handles (x : Instance β) : List Handle :=
  x.firstHandles ++ x.lastHandles

end Instance

end ObjectSystem
