import ObjectSystem.Scenario.Script

/-!
# Evaluating the parts of a step

A step runs in an *environment*: the instance, the action and the arguments of the callback that it
belongs to. Its parts are looked up one after the other, and the first one that is missing is the
answer of the step.
-/

namespace ObjectSystem.Scenario

/-- What a step can refer to besides labels. -/
structure Env where
  self : Option InstanceId := none
  action : Option ActionId := none
  args : List Value := []
  /-- Whether the step belongs to a task. -/
  inTask : Bool := false
  /-- Whether error messages say where they come from. -/
  wrap : Bool := false

/-- A script that may end early with the answer of the step. -/
abbrev Run (α : Type) := ExceptT Report Script α

namespace Run

/-! ### Access -/

/-- The world as it is now. -/
def world : Run ScenarioWorld :=
  ExceptT.lift (.look fun w _ => .pure w)

/-- The session as it is now. -/
def session : Run Session :=
  ExceptT.lift (.look fun _ s => .pure s)

/-- Changes the session. -/
def modifySession (f : Session → Session) : Run Unit :=
  ExceptT.lift (.look fun _ s => .put (f s) (.pure ()))

/-- Makes a callback. -/
def newCallback (body : Body) (purpose : Purpose) : Run CallbackId :=
  ExceptT.lift (.look fun _ s =>
    let (s, id) := s.addCallback body purpose
    .put s (.pure id))

/-! ### Failures -/

/-- The report of an error. -/
def errorReport (env : Env) (w : ScenarioWorld) (e : Error) : Report :=
  .failure e (if env.wrap then e.description w.shown else e.message w.shown)

/-- Ends the step with an error. -/
def fail {α : Type} (env : Env) (e : Error) : Run α := do
  let w ← world
  throw (errorReport env w e)

/-- Ends the step with an error if there is one. -/
def orFail {α ε : Type} (env : Env) (toError : ε → Error) : Except ε α → Run α
  | .ok a => pure a
  | .error e => fail env (toError e)

/-- Ends the step because nothing has this label. -/
def noSuch {α : Type} (label : String) : Run α :=
  throw (.misuse ("no '" ++ label ++ "'"))

/-- What a label stands for. -/
def labelled {α : Type} (label : String) (table : Session → NameTable α) : Run α := do
  let s ← session
  match (table s).find? label with
  | some a => pure a
  | none => noSuch label

/-- Has a command carried out, during which some handles are kept; an error ends the step. -/
def issue (env : Env) (c : Command CallbackId) (held : List Handle) : Run (Reply CallbackId) := do
  let reply ← ExceptT.lift (.command c held .pure)
  match reply with
  | .failed e => fail env e
  | reply => pure reply

/-- Has a command carried out that answers nothing. -/
def issueOk (env : Env) (c : Command CallbackId) (held : List Handle) : Run Report := do
  let _ ← issue env c held
  pure .ok

/-! ### Things -/

/-- The instance of a label, or of the running callback. -/
def target (env : Env) (label : String) : Run InstanceId :=
  if label = "self" then
    match env.self with
    | some i => pure i
    | none => noSuch label
  else labelled label (·.instances)

/-- The state of the instance of a label. -/
def targetState (env : Env) (label : String) : Run (InstanceId × Instance CallbackId) := do
  let i ← target env label
  let w ← world
  match w.instance? i with
  | some x => pure (i, x)
  | none => noSuch label

/-- The action of a label, or the one that is being activated. -/
def actionOf (env : Env) (label : String) : Run ActionId :=
  if label = "current" then
    match env.action with
    | some a => pure a
    | none => noSuch label
  else labelled label (·.actions)

/-- The label of the context that steps use unless they name another. -/
def mainLabel : String := "main"

/-- The context of a label. -/
def contextOf (label : Option String) : Run ContextId :=
  labelled (label.getD mainLabel) (·.contexts)

/-- The state of the context of a label. -/
def contextState (label : Option String) : Run (MainContext CallbackId) := do
  let c ← contextOf label
  let w ← world
  match w.context? c with
  | some context => pure context
  | none => noSuch (label.getD mainLabel)

/-! ### Values -/

/-- The value of an expression, which may be nothing. -/
def expr (env : Env) (held : List Handle) : Expr → Run (Option Value)
  | .literal value => pure (some value)
  | .object none => pure (some (.object none))
  | .object (some label) => do
    let i ← target env label
    pure (some (.object (some i)))
  | .argument index => pure env.args[index]?
  | .field name => do
    let (_, x) ← targetState env "self"
    pure (x.field? name)
  | .property name => do
    let i ← target env "self"
    let reply ← ExceptT.lift (.command (.property i name) held .pure)
    match reply with
    | .value result => pure result
    | _ => pure none

/-- The value of an expression that may be absent or yield nothing. -/
def optional (env : Env) (held : List Handle) : Option Expr → Run (Option Value)
  | none => pure none
  | some e => expr env held e

/-- The value of an expression where one is needed; null stands in for nothing. -/
def value (env : Env) (held : List Handle) (e : Option Expr) : Run Value := do
  let v ← optional env held e
  pure (v.getD (.object none))

/-- The values of expressions, one after the other. Those already found are kept meanwhile. -/
def values (env : Env) (held : List Handle) : List (Option Expr) → Run (List Value)
  | [] => pure []
  | e :: rest => do
    let v ← value env held e
    let vs ← values env (held ++ Handle.ofValues [v]) rest
    pure (v :: vs)

/-- Named values. -/
def namedValues (env : Env) (held : List Handle) (entries : List (String × Option Expr)) :
    Run (List (String × Value)) := do
  let vs ← values env held (entries.map (·.2))
  pure ((entries.map (·.1)).zip vs)

/-! ### Types and options -/

/-- A value type. -/
def valueType (r : Registry) : TypeExpr → ValueType
  | .string => .string
  | .bool => .bool
  | .uint => .uint
  | .int => .int
  | .double => .double
  | .enumeration name => .enumeration (r.handle name)
  | .object name => .object (r.handle name)

/-- A type tag. -/
def typeTag (r : Registry) : TagExpr → TypeTag
  | .text tag => .ofText tag
  | .type name => .type (r.handle name)

/-- The declaration of a signal. -/
def signal (r : Registry) (s : SignalExpr) : SignalSpec :=
  { flags := (s.flags.map SignalFlags.ofBits).getD .standard
    params := s.params.map (valueType r)
    returns := s.returns.map (valueType r)
    accumulator := s.accumulator }

/-- The options of a property. Null stands in for a default that yields nothing. -/
def options (env : Env) (held : List Handle) (o : OptionsExpr) : Run PropertyOptions := do
  let flags ← match o.flags with
    | none => pure FlagPreset.standard
    | some name =>
      match FlagPreset.ofName? name with
      | some preset => pure preset
      | none => fail env (.unknownFlagPreset name)
  let default ← match o.default with
    | none => pure none
    | some e => some <$> value env held (some e)
  pure { nick := o.nick, blurb := o.blurb, flags, default, min := o.min, max := o.max }

/-- A ready-made descriptor. -/
def descriptor (env : Env) (s : SpecExpr) : Run PropertySpec := do
  let w ← world
  let label : PropertyLabel :=
    { name := s.name, nick := s.nick, blurb := s.blurb, flags := .ofBits s.flags }
  orFail env .spec <| match s.kind with
    | .string default => .ok (.ofKind label (.string default))
    | .bool default => .ok (.ofKind label (.bool default))
    | .uint min max default => PropertySpec.uint label min max default
    | .int min max default => PropertySpec.int label min max default
    | .double min max default => PropertySpec.double label min max default
    | .object type => .ok (.ofKind label (.object (w.registry.handle type)))
    | .enumeration type default =>
      .ok (.ofKind label (.enumeration (w.registry.handle type) default))

/-- The options of an action. -/
def actionOptions (env : Env) (held : List Handle) (a : ActionExpr) : Run ActionOptions := do
  let state ← optional env held a.state
  let w ← world
  pure
    { state, parameterType := a.parameterType.map (valueType w.registry), enabled := a.enabled,
      accels := a.accels, exposeAs := a.exposeAs }

end Run

end ObjectSystem.Scenario
