import ObjectSystem.Action
import ObjectSystem.Config
import ObjectSystem.Debounce
import ObjectSystem.Handle
import ObjectSystem.Types.Registry

/-!
# Classes

A class is a stack of *levels*, its own on top of those of the declared classes that it derives
from. Everything is looked up from the top: the most derived level that knows a name decides. A
property or a setter is looked up under the spelling that was used and, within the same level,
under its underscored spelling.

Callbacks are only referred to, by names of a type `β`; what they do is told elsewhere.
-/

namespace ObjectSystem

/-! ### Declared things -/

/-- Where the value of a property lives. -/
inductive PropertyBehaviour (β : Type) where
  /-- In the instance. Policy and comparison override those of the context; the effect runs after
  each write. -/
  | stored (notify : Option NotifyPolicy) (equality : Option ObjectEquality) (effect : Option β)
  /-- Wherever the getter finds it. The backing field starts with the default of the property. -/
  | computed (getter : β) (backingField : Option String)
  deriving Repr

/-- A declared property. -/
structure PropertyEntry (β : Type) where
  spec : PropertySpec
  behaviour : PropertyBehaviour β
  deriving Repr

/-- A declared method. -/
structure Method (β : Type) where
  callback : β
  debounce : Option Debounce := none
  deriving Repr

/-- An action that every instance gets. -/
structure ActionDeclaration (β : Type) where
  name : String
  options : ActionOptions
  callback : β
  deriving Repr

/-- The handles in the declaration of an action. -/
def ActionDeclaration.handles {β : Type} (a : ActionDeclaration β) : List Handle :=
  Handle.ofValues a.options.state.toList

/-- What runs soon after construction. -/
inductive ReadyHook (β : Type) where
  /-- A callback that runs to its end. -/
  | immediate (callback : β)
  /-- A callback that yields a task. -/
  | deferred (callback : β)
  deriving Repr

/-- What instances of a class can do with actions. -/
inductive InstanceKind where
  /-- Has no place for actions. -/
  | object
  /-- Keeps its actions in a group of its own. -/
  | widget
  /-- Holds its actions directly. -/
  | window
  /-- Holds its actions directly and binds accelerators. -/
  | application
  deriving Repr, DecidableEq

/-- The qualifier of actions that are held directly. -/
def InstanceKind.actionQualifier : InstanceKind → Option String
  | .window => some "win"
  | .application => some "app"
  | .object | .widget => none

/-! ### Levels and classes -/

/-- What one class declares itself. -/
structure ClassLevel (β : Type) where
  typeName : String
  handle : TypeHandle
  /-- The type, its ancestors and their interfaces. -/
  ancestry : List TypeHandle
  kind : InstanceKind
  flags : TypeFlags
  template : Option String
  cssName : Option String
  properties : NameTable (PropertyEntry β)
  children : List String
  signals : NameTable SignalSpec
  setters : NameTable β
  methods : NameTable (Method β)
  actions : List (ActionDeclaration β)
  initHooks : List β
  ready : Option (ReadyHook β)
  deriving Repr

/-- A registered class: its own level and those it inherits from, nearest first. -/
structure Class (β : Type) where
  own : ClassLevel β
  inherited : List (ClassLevel β)
  deriving Repr

namespace ClassLevel

variable {β : Type}

/-- An entry under a name or, failing that, under its underscored spelling. -/
def findSpelling {α : Type} (table : NameTable α) (name : String) : Option α :=
  (table.find? name).or (table.find? (Name.underscored name))

end ClassLevel

namespace Class

variable {β : Type}

/-- The levels of a class, the most derived first. -/
def levels (c : Class β) : List (ClassLevel β) :=
  c.own :: c.inherited

/-- The levels of a class, the root first. -/
def rootFirst (c : Class β) : List (ClassLevel β) :=
  c.levels.reverse

/-- The registered name. -/
def typeName (c : Class β) : String := c.own.typeName

/-- The registered type. -/
def handle (c : Class β) : TypeHandle := c.own.handle

/-- What instances can do with actions. -/
def kind (c : Class β) : InstanceKind := c.own.kind

/-- The declared class that a class derives from; none above a built-in type. -/
def parent? (c : Class β) : Option (Class β) :=
  match c.inherited with
  | [] => none
  | level :: rest => some ⟨level, rest⟩

/-- Whether the class is a type, derives from it or implements it. -/
def isA (c : Class β) (type : TypeHandle) : Bool :=
  type ∈ c.own.ancestry

/-- Whether two classes are the same registered class. -/
def same (c d : Class β) : Bool :=
  c.handle = d.handle

/-- The property of a name. -/
def findProperty? (c : Class β) (name : String) : Option (PropertyEntry β) :=
  c.levels.findSome? fun level => ClassLevel.findSpelling level.properties name

/-- The notifying setter of a name. -/
def findSetter? (c : Class β) (name : String) : Option β :=
  c.levels.findSome? fun level => ClassLevel.findSpelling level.setters name

/-- The signal of a name, as declared. -/
def findSignal? (c : Class β) (name : String) : Option SignalSpec :=
  c.levels.findSome? fun level => level.signals.find? name

/-- The method of a name. -/
def findMethod? (c : Class β) (name : String) : Option (Method β) :=
  c.levels.findSome? fun level => level.methods.find? name

/-- Whether some level declares a child of the name. -/
def declaresChild (c : Class β) (name : String) : Bool :=
  c.levels.any fun level => name ∈ level.children

/-- The descriptor of a property. -/
def propertySpec? (c : Class β) (name : String) : Option PropertySpec :=
  (c.findProperty? name).map (·.spec)

/-- Every descriptor, one per declared name, sorted by name; the most derived declaration wins. -/
def properties (c : Class β) : List PropertySpec :=
  let table := c.rootFirst.foldl (fun (table : NameTable PropertySpec) level =>
    level.properties.entries.foldl (fun table (name, entry) => table.insert name entry.spec) table)
    .empty
  table.values

/-- The descriptors that the class declares itself, sorted by name. -/
def ownProperties (c : Class β) : List PropertySpec :=
  c.own.properties.values.map (·.spec)

/-- Adds names that are not yet in a list behind it, each once. -/
def appendNewNames (known names : List String) : List String :=
  names.foldl (fun known name => if name ∈ known then known else known ++ [name]) known

/-- Every child name once: the root's first, within a level in the order of declaration. -/
def internalChildren (c : Class β) : List String :=
  c.rootFirst.foldl (fun known level => appendNewNames known level.children) []

/-- Whether a method of the name is declared or inherited. -/
def hasMethod (c : Class β) (name : String) : Bool :=
  (c.findMethod? name).isSome

/-- The handles in a class: those in the states of its declared actions, the root's first. -/
def handles (c : Class β) : List Handle :=
  c.rootFirst.flatMap fun level => level.actions.flatMap ActionDeclaration.handles

end Class

end ObjectSystem
