import ObjectSystem.World

/-!
# Actions of instances

Where an instance keeps its actions depends on its kind: a widget in a group of its own, a window or
an application directly, a plain object nowhere. An action is found by its plain name or by a
qualified one: the qualifier is that of directly held actions or the name under which a group was
inserted.
-/

namespace ObjectSystem.World

variable {β : Type}

/-- Makes a group reachable under a qualifier. -/
def insertGroup (w : World β) (i : InstanceId) (qualifier : String) (g : GroupId) : World β :=
  w.modifyInstance i fun x => { x with groups := x.groups.insert qualifier g }

/-- The group of an instance's own actions, made on first use and inserted under the name of its
type. -/
def ownGroup (w : World β) (i : InstanceId) (x : Instance β) : World β × GroupId :=
  match x.ownGroup with
  | some g => (w, g)
  | none =>
    let (w, g) := w.addGroup
    let w := w.modifyInstance i fun x => { x with ownGroup := some g }
    (w.insertGroup i x.typeName g, g)

/-- Attaches an action the way the instance's kind asks for. -/
def attachAction (w : World β) (i : InstanceId) (a : ActionId) : World β :=
  match w.instance? i, w.actions.find? a with
  | some x, some action =>
    match x.ofClass.kind with
    | .object => w
    | .widget =>
      let (w, g) := w.ownGroup i x
      w.modifyGroup g (·.insert action.name a)
    | .window | .application =>
      w.modifyInstance i fun x => { x with actions := x.actions.insert action.name a }
  | _, _ => w

/-- Binds key combinations to a qualified name. -/
def setAccels (w : World β) (i : InstanceId) (name : String) (accels : List String) : World β :=
  w.modifyInstance i fun x => { x with accels := x.accels.insert name accels }

/-- The action that an instance finds under a plain or qualified name. -/
def lookupAction? (w : World β) (x : Instance β) (name : String) : Option ActionId :=
  match Name.splitQualifier name with
  | some (qualifier, plain) =>
    if x.ofClass.kind.actionQualifier = some qualifier then x.actions.find? plain
    else (x.groups.find? qualifier).bind fun g => (w.group g).find? plain
  | none =>
    (x.actions.find? name).or (x.ownGroup.bind fun g => (w.group g).find? name)

/-- The order of names in a listing. -/
def nameLe (a b : String) : Bool :=
  a ≤ b

/-- The qualified names of the actions that an instance reaches, sorted. -/
def listActions (w : World β) (x : Instance β) : List String :=
  let direct := match x.ofClass.kind.actionQualifier with
    | some qualifier => x.actions.names.map fun name => qualifier ++ "." ++ name
    | none => []
  let grouped := x.groups.entries.flatMap fun (qualifier, g) =>
    (w.group g).names.map fun name => qualifier ++ "." ++ name
  (direct ++ grouped).mergeSort nameLe

/-- Gives an instance one of the actions that its class declares. -/
def createAction (w : World β) (i : InstanceId) (kind : InstanceKind)
    (declared : ActionDeclaration β) : World β :=
  let action : Action β := .ofOptions declared.name declared.options
  let action := { action with handlers := [.declared i declared.callback] }
  let (w, a) := w.addAction action
  let w := w.attachAction i a
  let w :=
    if kind = .application ∧ declared.options.accels ≠ [] then
      w.setAccels i ("app." ++ declared.name) declared.options.accels
    else w
  match declared.options.exposeAs with
  | some field => w.modifyInstance i fun x => { x with exposed := x.exposed.insert field a }
  | none => w

/-- Seeds the backing field of a computed property with the default of the property. -/
def seedBacking (x : Instance β) (entry : PropertyEntry β) : Instance β :=
  match entry.behaviour with
  | .computed _ (some field) => x.seedField field entry.spec.defaultValue
  | _ => x

/-- What one level of a class does for a new instance before any callback runs. -/
def initializeLevel (w : World β) (i : InstanceId) (kind : InstanceKind) (level : ClassLevel β) :
    World β :=
  let w := w.modifyInstance i fun x => level.properties.values.foldl seedBacking x
  level.actions.foldl (fun w declared => w.createAction i kind declared) w

end ObjectSystem.World
