import ObjectSystem.Scenario.Perform.Lookup

/-!
# Steps on main contexts
-/

namespace ObjectSystem.Scenario.Run

/-! ### Contexts -/

/-- The configuration that a step asks for. A step that says nothing gets a clock that only moves
when it is told to. -/
def contextConfig (env : Env) (c : ContextExpr) : Run Config := do
  if c.isDefault then pure {}
  else
    let config ← match c.document with
      | some document => configuration env document
      | none => pure { clock := .manual }
    pure
      { config with
        objectEquality := c.equality.getD config.objectEquality
        notifyPolicy := c.notify.getD config.notifyPolicy }

/-- Makes a context and labels it. -/
def newContext (env : Env) (config : Config) (label : String) : Run Report := do
  match ← issue env (.newContext config) [] with
  | .context c =>
    modifySession fun s => { s with contexts := s.contexts.insert label c }
    pure .ok
  | _ => pure .nothing

/-- Has a command of a context carried out. -/
def driveContext (env : Env) (context : Option String)
    (command : ContextId → Command CallbackId) : Run Report := do
  let c ← contextOf context
  match ← issue env (command c) [.context c] with
  | .flag worked => pure (.flag worked)
  | .count n => pure (.count n)
  | _ => pure .ok

/-- Whether two labels stand for the same context. -/
def isSameContext (a b : Option String) : Run Report := do
  let c ← contextOf a
  let d ← contextOf b
  pure (.flag (c = d))

/-! ### Sources -/

/-- Attaches a source and labels it. -/
def addSource (env : Env) (context : Option String) (source : SourceExpr) (body : Body)
    (label : String) (command : ContextId → Bool → CallbackId → Command CallbackId) :
    Run Report := do
  let c ← contextOf context
  let callback ← newCallback body (.source source.runs)
  match ← issue env (command c source.once callback) [.context c] with
  | .source id =>
    modifySession fun s => { s with sources := s.sources.insert label id }
    pure .ok
  | _ => pure .nothing

/-- Attaches an idle source. One that runs once has the priority of idle work. -/
def addIdle (env : Env) (context : Option String) (source : SourceExpr) (body : Body)
    (label : String) : Run Report :=
  let priority := if source.once then .standardIdle else source.priority.getD .standardIdle
  addSource env context source body label fun c once callback => .addIdle c priority once callback

/-- Attaches a timeout. One that runs once has the standard priority. -/
def addTimeout (env : Env) (context : Option String) (interval : Nat) (source : SourceExpr)
    (body : Body) (label : String) : Run Report :=
  let priority := if source.once then .standard else source.priority.getD .standard
  addSource env context source body label fun c once callback =>
    .addTimeout c priority interval once callback

/-- Removes a source. -/
def removeSource (env : Env) (context : Option String) (source : String) : Run Report := do
  let c ← contextOf context
  let id ← labelled source (·.sources)
  issueOk env (.removeSource c id) [.context c]

/-- Whether a source is attached. -/
def isPending (context : Option String) (source : String) : Run Report := do
  let state ← contextState context
  let id ← labelled source (·.sources)
  pure (.flag (state.isPending id))

/-- Spawns a task. -/
def spawn (env : Env) (context : Option String) (body : Body) : Run Report := do
  let c ← contextOf context
  let callback ← silent body
  issueOk env (.spawn c callback) [.context c]

/-! ### Loops -/

/-- Makes a loop and labels it. -/
def newLoop (env : Env) (context : Option String) (label : String) : Run Report := do
  let c ← contextOf context
  match ← issue env (.newLoop c) [.context c] with
  | .loop l =>
    modifySession fun s => { s with loops := s.loops.insert label l }
    pure .ok
  | _ => pure .nothing

/-- Has a command of a loop carried out. -/
def driveLoop (env : Env) (loop : String) (command : LoopId → Command CallbackId) : Run Report := do
  let l ← labelled loop (·.loops)
  issueOk env (command l) [.loop l]

/-- The state of a loop. -/
def loopState (loop : String) : Run MainLoop := do
  let l ← labelled loop (·.loops)
  let w ← world
  match w.loops.find? l with
  | some state => pure state
  | none => noSuch loop

end ObjectSystem.Scenario.Run
