import ObjectSystem.Scenario.Declare

/-!
# Steps on actions and their groups
-/

namespace ObjectSystem.Scenario.Run

/-! ### Actions -/

/-- Labels an action if there is one to label and a label. -/
def labelAction (label : Option String) (a : Option ActionId) : Run Unit :=
  match label, a with
  | some label, some a => modifySession fun s => { s with actions := s.actions.insert label a }
  | _, _ => pure ()

/-- The report of an action that may be absent; it is labelled on the way. -/
def actionReport (label : Option String) (a : Option ActionId) : Run Report := do
  labelAction label a
  let w ← world
  pure (.optional (.actionOf w) a)

/-- The action in a reply. -/
def actionReply (label : Option String) : Reply CallbackId → Run Report
  | .action a => actionReport label a
  | _ => pure .nothing

/-- The flag in a reply. -/
def flagReply : Reply CallbackId → Run Report
  | .flag answer => pure (.flag answer)
  | _ => pure .nothing

/-- Makes an action and labels it. -/
def newAction (env : Env) (action : ActionExpr) (name label : String) : Run Report := do
  let opts ← actionOptions env [] action
  actionReply (some label) (← issue env (.newAction name opts) [])

/-- Everything about an action. -/
def actionInfo (env : Env) (action : String) : Run Report := do
  let a ← actionOf env action
  actionReport none (some a)

/-- Whether two labels stand for the same action. -/
def isSameAction (env : Env) (a b : String) : Run Report := do
  let a ← actionOf env a
  let b ← actionOf env b
  pure (.flag (a = b))

/-- Enables or disables an action. -/
def enableAction (env : Env) (action : String) (enabled : Bool) : Run Report := do
  let a ← actionOf env action
  issueOk env (.enableAction a enabled) [.action a]

/-- Replaces the state of an action; the state is evaluated first. -/
def setActionState (env : Env) (state : Option Expr) (action : String) : Run Report := do
  let v ← value env [] state
  let a ← actionOf env action
  issueOk env (.setActionState a v) [.action a]

/-- Connects a callback to an action. -/
def connectAction (env : Env) (action : String) (body : Body) : Run Report := do
  let a ← actionOf env action
  let callback ← silent body
  issueOk env (.connectAction a callback) [.action a]

/-- Activates an action; the parameter is evaluated first. -/
def activateAction (env : Env) (parameter : Option Expr) (action : String) : Run Report := do
  let parameter ← optional env [] parameter
  let a ← actionOf env action
  let held := .action a :: Handle.ofValues parameter.toList
  flagReply (← issue env (.activateAction a parameter) held)

/-! ### Actions of instances -/

/-- The action that an instance finds. -/
def findAction (env : Env) (label : String)
    (find? : ScenarioWorld → Instance CallbackId → Option ActionId) (found : Option String) :
    Run Report := do
  let (_, x) ← targetState env label
  let w ← world
  actionReport found (find? w x)

/-- Activates the action that an instance finds; the parameter is evaluated first. -/
def activate (env : Env) (parameter : Option Expr) (label name : String) : Run Report := do
  let parameter ← optional env [] parameter
  let i ← target env label
  let held := .object i :: Handle.ofValues parameter.toList
  flagReply (← issue env (.activate i name parameter) held)

/-- Attaches an action to an instance. -/
def addAction (env : Env) (label action : String) : Run Report := do
  let i ← target env label
  let a ← actionOf env action
  issueOk env (.attachAction i a) [.object i]

/-! ### Groups -/

/-- The names of the actions of a group, which is labelled on the way. -/
def groupReport (label : Option String) (g : GroupId) : Run Report := do
  match label with
  | some label => modifySession fun s => { s with groups := s.groups.insert label g }
  | none => pure ()
  let w ← world
  pure (.texts (w.group g).names)

/-- The group in a reply. -/
def groupReply (label : Option String) : Reply CallbackId → Run Report
  | .group g => groupReport label g
  | _ => pure .nothing

/-- The group of an instance's own actions. -/
def ownGroup (env : Env) (target : String) (label : Option String) : Run Report := do
  let i ← Run.target env target
  groupReply label (← issue env (.ownGroup i) [.object i])

/-- The group that an instance reaches under a qualifier. -/
def actionGroup (env : Env) (target qualifier : String) (label : Option String) : Run Report := do
  let (_, x) ← targetState env target
  match x.groups.find? qualifier with
  | some g => groupReport label g
  | none => pure .nothing

/-- Makes a group reachable under a qualifier. -/
def insertGroup (env : Env) (target qualifier group : String) : Run Report := do
  let i ← Run.target env target
  let g ← labelled group (·.groups)
  issueOk env (.insertGroup i qualifier g) [.object i]

/-- Adds an action to a group; the report is the one that it replaces. -/
def addToGroup (env : Env) (group action : String) : Run Report := do
  let g ← labelled group (·.groups)
  let a ← actionOf env action
  actionReply none (← issue env (.addToGroup g a) [.group g])

/-- Removes an action from a group. -/
def removeFromGroup (env : Env) (group name : String) : Run Report := do
  let g ← labelled group (·.groups)
  actionReply none (← issue env (.removeFromGroup g name) [.group g])

/-- The action of a name in a group. -/
def findInGroup (group name : String) (label : Option String) : Run Report := do
  let g ← labelled group (·.groups)
  let w ← world
  actionReport label ((w.group g).find? name)

/-- Activates an action of a group; the parameter is evaluated first. -/
def activateInGroup (env : Env) (parameter : Option Expr) (group name : String) : Run Report := do
  let parameter ← optional env [] parameter
  let g ← labelled group (·.groups)
  let held := .group g :: Handle.ofValues parameter.toList
  flagReply (← issue env (.activateInGroup g name parameter) held)

end ObjectSystem.Scenario.Run
