import ObjectSystem.Machine.Frame
import ObjectSystem.World.Actions

/-!
# Activating actions

An activation must pass a parameter exactly if the action takes one, of the right type. A disabled
action then answers `false`; otherwise its handlers, as they are when the activation begins, run one
after the other. The handler of a declaration runs on its instance and is passed over when that is
gone.
-/

namespace ObjectSystem

variable {β : Type}

namespace World

/-- Activates an action. -/
def activateAction (w : World β) (a : ActionId) (parameter : Option Value) : Progress β :=
  match w.actions.find? a with
  | none => .reply w .missing
  | some action =>
    match action.checkParameter w.isA parameter with
    | .error e => .reply w (.failed (.action e))
    | .ok _ =>
      if action.enabled then
        .proceed w [.activation { action := a, parameter, remaining := action.handlers }]
      else .reply w (.flag false)

/-- Activates the action that was found under a name. -/
def activateFound (w : World β) (name : String) (found : Option ActionId)
    (parameter : Option Value) : Progress β :=
  match found with
  | some a => w.activateAction a parameter
  | none => .reply w (.failed (.action (.unknownAction name)))

/-- Activates the action that an instance finds under a plain or qualified name. -/
def activate (w : World β) (i : InstanceId) (name : String) (parameter : Option Value) :
    Progress β :=
  match w.instance? i with
  | none => .reply w .missing
  | some x => w.activateFound name (w.lookupAction? x name) parameter

/-- Activates an action of a group. -/
def activateInGroup (w : World β) (g : GroupId) (name : String) (parameter : Option Value) :
    Progress β :=
  w.activateFound name ((w.group g).find? name) parameter

end World

/-- Gives the next handler its turn; without one, the activation is complete. -/
def Activation.next (w : World β) (a : Activation β) : Progress β :=
  match a.remaining with
  | [] => .reply w (.flag true)
  | handler :: rest =>
    let frames := [Frame.activation { a with remaining := rest }]
    let invocation : Invocation :=
      { role := .action, action := some a.action, args := a.parameter.toList }
    match handler with
    | .connected callback => .invoke w callback invocation frames
    | .declared owner callback =>
      if w.isAlive owner then .invoke w callback { invocation with self := some owner } frames
      else .proceed w frames

end ObjectSystem
