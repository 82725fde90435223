import ObjectSystem.Machine.Frame
import ObjectSystem.World.Actions

/-!
# Constructing instances

Construction runs in this order: fields are preset and children bound; each level of the class, the
root first, seeds backing fields and creates its actions; construct properties are written; from
then on construct-only properties are closed; init hooks run, the root's first; ready hooks are
attached to the context. The first undeclared child or refused property ends it with an error. An
instance has its number from the moment when the class turns out not to be abstract.
-/

namespace ObjectSystem.World

variable {β : Type}

/-- Presets fields of a new instance. -/
def presetFields (w : World β) (i : InstanceId) (fields : List (String × Value)) : World β :=
  w.modifyInstance i fun x => fields.foldl (fun x (name, value) => x.setField name value) x

/-- Binds children of a new instance. -/
def bindChildren (w : World β) (i : InstanceId) (children : List (String × InstanceId)) : World β :=
  w.presetFields i (children.map fun (name, child) => (childField name, .object (some child)))

/-- Lets every level of a class initialize a new instance, the root's first. -/
def initializeLevels (w : World β) (i : InstanceId) (c : Class β) : World β :=
  c.rootFirst.foldl (fun w level => w.initializeLevel i c.kind level) w

/-- Begins a construction. Children are bound up to the first one that is not declared. -/
def construct (w : World β) (c : Construction β) : Progress β :=
  if c.ofClass.own.flags.isAbstract then
    .reply w (.failed (.construct (.isAbstract c.ofClass.typeName)))
  else
    let (w, i) := w.addInstance c.ofClass c.context
    let w := w.presetFields i c.fields
    let (known, others) := c.children.span fun child => c.ofClass.declaresChild child.1
    let w := w.bindChildren i known
    match others with
    | [] => .proceed (w.initializeLevels i c.ofClass) [.constructing i c.properties]
    | (name, _) :: _ =>
      { world := w
        control := .deliver (.failed (.construct (.unknownChild c.ofClass.typeName name)))
        frames := [.letGo (.object i :: Handle.ofValues (c.properties.map (·.2)))] }

/-- Attaches the ready hooks of an instance, the root's first. -/
def scheduleHooks (w : World β) (i : InstanceId) (x : Instance β) : World β :=
  x.ofClass.rootFirst.foldl (fun w level =>
    match level.ready with
    | some hook => w.scheduleReady i level.typeName hook
    | none => w) w

/-- The init hooks of an instance with the types that declare them, the root's first. -/
def initHooks (x : Instance β) : List (String × β) :=
  x.ofClass.rootFirst.flatMap fun level => level.initHooks.map fun hook => (level.typeName, hook)

/-- Writes the next construct property, unless the one before was refused; without one, construction
goes on with the init hooks. -/
def continueConstructing (w : World β) (i : InstanceId) (properties : List (String × Value))
    (reply : Reply β) : Progress β :=
  match reply with
  | .failed (.property e) => .reply w (.failed (.construct (.property e)))
  | _ =>
    match properties with
    | (name, value) :: rest => .perform w (.setProperty i name value) [.constructing i rest]
    | [] =>
      match w.instance? i with
      | none => .reply w .missing
      | some x =>
        let w := w.modifyInstance i fun x => { x with constructing := false }
        .proceed w [.initializing i (initHooks x)]

/-- Runs the next init hook; without one, the ready hooks are attached and the instance is there. -/
def continueInitializing (w : World β) (i : InstanceId) (hooks : List (String × β)) : Progress β :=
  match hooks with
  | (typeName, hook) :: rest =>
    .invoke w hook { role := .initHook typeName, self := some i } [.initializing i rest]
  | [] =>
    match w.instance? i with
    | none => .reply w .missing
    | some x => .reply (w.scheduleHooks i x) (.object i)

end ObjectSystem.World
