import ObjectSystem.Scenario.Declare

/-!
# Steps on instances

Construction, properties, fields, children, signals, methods and awaited events. Whatever a step has
looked up is kept while it evaluates the rest.
-/

namespace ObjectSystem.Scenario.Run

/-! ### Making and dropping -/

/-- The instances that are to be bound as children. -/
def childTargets (env : Env) : List (String × String) → Run (List (String × InstanceId))
  | [] => pure []
  | (name, label) :: rest => do
    let i ← target env label
    let others ← childTargets env rest
    pure ((name, i) :: others)

/-- Labels an instance; the weak label stays when the other is dropped. -/
def labelInstance (label : String) (i : InstanceId) : Run Unit :=
  modifySession fun s =>
    { s with instances := s.instances.insert label i, weak := s.weak.insert label i }

/-- Constructs an instance and labels it. -/
def construct (env : Env) (ofClass : String) (context : Option String)
    (fields : List (String × Option Expr)) (children : List (String × String))
    (properties : List (String × Option Expr)) (label : String) : Run Report := do
  let c ← labelled ofClass (·.classes)
  let context ← contextOf context
  let bare : Construction CallbackId := { ofClass := c, context }
  let fields ← namedValues env bare.handles fields
  let children ← childTargets env children
  let partly := { bare with fields, children }
  let properties ← namedValues env partly.handles properties
  match ← issue env (.construct { partly with properties }) (.context context :: c.handles) with
  | .object i =>
    labelInstance label i
    let w ← world
    pure (.text (w.shown i))
  | _ => pure .nothing

/-- Forgets the label of an instance. -/
def dropLabel (label : String) : Run Report := do
  let s ← session
  modifySession fun s => { s with instances := s.instances.erase label }
  pure (.flag (s.instances.contains label))

/-- Whether the instance that a label once stood for is alive. -/
def isLabelAlive (label : String) : Run Report := do
  let i ← labelled label (·.weak)
  let w ← world
  pure (.flag (w.isAlive i))

/-- Whether two labels stand for the same instance. -/
def isSame (env : Env) (a b : String) : Run Report := do
  let i ← target env a
  let j ← target env b
  pure (.flag (i = j))

/-! ### Queries -/

/-- A question about an instance. -/
def askInstance (env : Env) (label : String)
    (report : ScenarioWorld → InstanceId → Instance CallbackId → Report) : Run Report := do
  let (i, x) ← targetState env label
  let w ← world
  pure (report w i x)

/-- An instance that may be absent. -/
def shownOptional (w : ScenarioWorld) (i : Option InstanceId) : Report :=
  .optional (fun i => .text (w.shown i)) i

/-- The child of a name. -/
def child (env : Env) (label name : String) : Run Report := do
  let (_, x) ← targetState env label
  let i ← orFail env .property (x.child name)
  let w ← world
  pure (shownOptional w i)

/-- Tries to replace a child. -/
def setChild (env : Env) (child : Option String) (label name : String) : Run Report := do
  match child with
  | some child => let _ ← target env child
  | none => pure ()
  let (_, x) ← targetState env label
  let _ ← orFail env .property (x.setChild name)
  pure .ok

/-! ### Properties and fields -/

/-- The value in a reply. -/
def valueReport (reply : Reply CallbackId) : Run Report := do
  let w ← world
  match reply with
  | .value v => pure (.optional (.value w) v)
  | _ => pure .nothing

/-- Reads a property. -/
def getProperty (env : Env) (label name : String) : Run Report := do
  let i ← target env label
  valueReport (← issue env (.property i name) [.object i])

/-- Writes a property. -/
def setProperty (env : Env) (label name : String) (e : Option Expr) : Run Report := do
  let i ← target env label
  let v ← value env [.object i] e
  issueOk env (.setProperty i name v) [.object i]

/-- Writes a raw field. -/
def setField (env : Env) (label name : String) (e : Option Expr) : Run Report := do
  let i ← target env label
  let v ← value env [.object i] e
  valueReport (← issue env (.setField i name v) [.object i])

/-! ### Signals and methods -/

/-- Labels the handler in a reply. -/
def labelHandler (label : String) : Reply CallbackId → Run Report
  | .handler h => do
    modifySession fun s => { s with handlers := s.handlers.insert label h }
    pure .ok
  | _ => pure .nothing

/-- Connects a handler. -/
def connect (env : Env) (label signal : String) (body : Body) (handler : String) : Run Report := do
  let i ← target env label
  let callback ← returning body
  labelHandler handler (← issue env (.connect i signal callback) [.object i])

/-- Connects a handler to changes of properties. -/
def connectNotify (env : Env) (label : String) (property : Option String) (body : Body)
    (handler : String) : Run Report := do
  let i ← target env label
  let callback ← silent body
  labelHandler handler (← issue env (.connectNotify i property callback) [.object i])

/-- Disconnects a handler. -/
def disconnect (env : Env) (label handler : String) : Run Report := do
  let i ← target env label
  let h ← labelled handler (·.handlers)
  issueOk env (.disconnect i h) [.object i]

/-- Whether a handler is connected. -/
def isConnected (env : Env) (label handler : String) : Run Report := do
  let (_, x) ← targetState env label
  let h ← labelled handler (·.handlers)
  pure (.flag (x.isConnected h))

/-- Emits a signal; the arguments are evaluated first. -/
def emit (env : Env) (args : List (Option Expr)) (label signal : String) : Run Report := do
  let args ← values env [] args
  let i ← target env label
  valueReport (← issue env (.emit i signal args) (.object i :: Handle.ofValues args))

/-- Calls a method; the arguments are evaluated first. -/
def call (env : Env) (args : List (Option Expr)) (label method : String) : Run Report := do
  let args ← values env [] args
  let i ← target env label
  valueReport (← issue env (.call i method args) (.object i :: Handle.ofValues args))

/-! ### Awaited events -/

/-- Awaits one of two signals. -/
def awaitEvent (env : Env) (label resolve : String) (reject : Option String) (future : String) :
    Run Report := do
  let i ← target env label
  match ← issue env (.awaitEvent i resolve reject) [.object i] with
  | .event e =>
    modifySession fun s => { s with futures := s.futures.insert future e }
    pure .ok
  | _ => pure .nothing

/-- Forgets the label of an awaited event. -/
def forgetFuture (future : String) : Run Unit :=
  modifySession fun s => { s with futures := s.futures.erase future }

/-- The report of an outcome. -/
def outcomeReport (env : Env) (outcome : EventOutcome) : Run Report := do
  let w ← world
  match outcome with
  | .ok args => pure (.record [("ok", .list (args.map (.value w)))])
  | .error e => pure (errorReport env w (.event e))

/-- Asks for the outcome of an event; the label is gone with the outcome. -/
def poll (env : Env) (future : String) : Run Report := do
  let e ← labelled future (·.futures)
  match ← issue env (.pollEvent e) [] with
  | .outcome (some outcome) =>
    forgetFuture future
    outcomeReport env outcome
  | _ => pure .nothing

/-- Waits for the outcome of an event; only a step of a task can. -/
def join (env : Env) (future : String) : Run Report := do
  if !env.inTask then throw (.misuse "bad op")
  let e ← labelled future (·.futures)
  forgetFuture future
  match ← ExceptT.lift (.await e .pure) with
  | .outcome (some outcome) => outcomeReport env outcome
  | _ => pure .nothing

/-- Drops an awaited event. -/
def dropFuture (future : String) : Run Report := do
  let s ← session
  forgetFuture future
  pure (.flag (s.futures.contains future))

end ObjectSystem.Scenario.Run
