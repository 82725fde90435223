import ObjectSystem.NameTable
import ObjectSystem.Value

/-!
# Actions

An action has a name, an optional state whose kind never changes, an optional parameter type, and a
list of handlers that run when it is activated. A group is a set of actions with different names.
-/

namespace ObjectSystem

/-- Why an action cannot be activated or updated. -/
inductive ActionError where
  | unknownAction (name : String)
  | missingParameter (action : String)
  | unexpectedParameter (action : String)
  | parameterType (action expected got : String)
  /-- The kind of a state is fixed by the first state. -/
  | stateType (action expected got : String)
  | stateless (action : String)
  deriving Repr, DecidableEq

/-- The wording of an action error. -/
def ActionError.message : ActionError → String
  | .unknownAction name => s!"No action named '{name}'"
  | .missingParameter action => s!"Action '{action}' requires a parameter"
  | .unexpectedParameter action => s!"Action '{action}' takes no parameter"
  | .parameterType action expected got =>
    s!"Action '{action}' expects a {expected} parameter, got {got}"
  | .stateType action expected got => s!"State of action '{action}' must be {expected}, got {got}"
  | .stateless action => s!"Action '{action}' is stateless"

/-- What a declaration says about an action. -/
structure ActionOptions where
  state : Option Value := none
  parameterType : Option ValueType := none
  enabled : Bool := true
  /-- Key combinations, bound on applications only. -/
  accels : List String := []
  /-- The field under which an instance exposes the action. -/
  exposeAs : Option String := none
  deriving Repr

/-- Who reacts to an activation. -/
inductive ActionHandler (β : Type) where
  /-- A callback of the class that declared the action, run on its instance while that is alive. -/
  | declared (owner : InstanceId) (callback : β)
  /-- A callback that was connected to the action itself. -/
  | connected (callback : β)
  deriving Repr

/-- An action. -/
structure Action (β : Type) where
  name : String
  parameterType : Option ValueType
  enabled : Bool
  state : Option Value
  handlers : List (ActionHandler β)
  deriving Repr

namespace Action

variable {β : Type}

/-- A new action, which nobody reacts to yet. -/
def ofOptions (name : String) (options : ActionOptions) : Action β :=
  { name, parameterType := options.parameterType, enabled := options.enabled,
    state := options.state, handlers := [] }

/-- Replaces the state by one of the same kind. -/
def setState (a : Action β) (state : Value) : Except ActionError (Action β) :=
  match a.state with
  | none => .error (.stateless a.name)
  | some old =>
    if old.label = state.label then .ok { a with state := some state }
    else .error (.stateType a.name old.label state.label)

/-- Whether a parameter may be passed to the action. -/
def checkParameter (isA : InstanceId → TypeHandle → Bool) (a : Action β)
    (parameter : Option Value) : Except ActionError Unit :=
  match a.parameterType, parameter with
  | none, none => .ok ()
  | some _, none => .error (.missingParameter a.name)
  | none, some _ => .error (.unexpectedParameter a.name)
  | some type, some value =>
    if value.conformsTo isA type then .ok ()
    else .error (.parameterType a.name type.label value.label)

end Action

/-- A set of actions, filed under their names. -/
abbrev ActionGroup := NameTable ActionId

end ObjectSystem
