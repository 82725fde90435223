import ObjectSystem.Class
import ObjectSystem.Property.Resolve

/-!
# Declaring classes

A `ClassBuilder` collects the declarations of one class, in order. `ClassBuilder.finalize`
registers the class and yields it. Of two declarations of one property the later wins, except that
descriptors given ready-made win over resolved ones; children are kept once, in the order of their
first mention.
-/

namespace ObjectSystem

/-- Why a class cannot be declared. -/
inductive ClassError where
  | resolve (className property : String) (cause : ResolveError)
  /-- A computed property cannot be constant. -/
  | constantComputed (className property : String)
  | registration (cause : RegistrationError)
  deriving Repr, DecidableEq

/-- The wording of a class error. -/
def ClassError.message : ClassError → String
  | .resolve className property cause =>
    let reason := cause.message
    s!"Cannot resolve property '{property}' of '{className}': {reason}"
  | .constantComputed className property =>
    s!"Computed property '{property}' of '{className}' cannot be CONSTANT"
  | .registration cause => cause.message

/-- What a class derives from. -/
inductive Parent (β : Type) where
  /-- A type that no class was declared for. -/
  | type (handle : TypeHandle)
  | declared (parent : Class β)
  deriving Repr

/-- The declarations of one class, as far as they were made. -/
structure ClassBuilder (β : Type) where
  className : String
  typeName : Option String := none
  parent : Option (Parent β) := none
  template : Option String := none
  cssName : Option String := none
  implements : List TypeHandle := []
  flags : TypeFlags := {}
  /-- Resolved properties, in order of declaration. -/
  properties : List (PropertyEntry β) := []
  /-- Ready-made descriptors, in order of declaration. -/
  manualProperties : List PropertySpec := []
  children : List String := []
  /-- Children without accessors; they follow the others. -/
  manualChildren : List String := []
  signals : NameTable SignalSpec := .empty
  setters : NameTable β := .empty
  methods : NameTable (Method β) := .empty
  actions : List (ActionDeclaration β) := []
  initHooks : List β := []
  ready : Option (ReadyHook β) := none
  deriving Repr

namespace ClassBuilder

variable {β : Type}

/-! ### Declarations -/

/-- Completes the declaration of a property of this class. -/
def resolve (b : ClassBuilder β) (r : Registry) (name : String) (tag : TypeTag)
    (options : PropertyOptions) : Except ClassError PropertySpec :=
  (Property.resolve r name tag options).mapError (.resolve b.className name)

/-- Declares a property with a value of its own. -/
def stored (b : ClassBuilder β) (r : Registry) (name : String) (tag : TypeTag)
    (options : PropertyOptions) (notify : Option NotifyPolicy) (equality : Option ObjectEquality)
    (effect : Option β) : Except ClassError (ClassBuilder β) := do
  let spec ← b.resolve r name tag options
  return { b with properties := b.properties ++ [⟨spec, .stored notify equality effect⟩] }

/-- Declares a property whose value a getter finds. -/
def computed (b : ClassBuilder β) (r : Registry) (name : String) (tag : TypeTag)
    (options : PropertyOptions) (backingField : Option String) (getter : β) :
    Except ClassError (ClassBuilder β) := do
  if options.flags = .constant then .error (.constantComputed b.className name)
  else
    let spec ← b.resolve r name tag options
    return { b with properties := b.properties ++ [⟨spec, .computed getter backingField⟩] }

/-- Declares a property by its descriptor; it behaves like a stored one. -/
def manual (b : ClassBuilder β) (spec : PropertySpec) : ClassBuilder β :=
  { b with manualProperties := b.manualProperties ++ [spec] }

/-- Declares a child with an accessor. -/
def child (b : ClassBuilder β) (name : String) : ClassBuilder β :=
  { b with children := b.children ++ [name] }

/-- Declares children without accessors. -/
def internalChildren (b : ClassBuilder β) (names : List String) : ClassBuilder β :=
  { b with manualChildren := b.manualChildren ++ names }

/-- Declares a signal, or declares it anew. -/
def signal (b : ClassBuilder β) (name : String) (spec : SignalSpec) : ClassBuilder β :=
  { b with signals := b.signals.insert name spec }

/-- Declares a setter, after which a change is always reported. -/
def setter (b : ClassBuilder β) (name : String) (callback : β) : ClassBuilder β :=
  { b with setters := b.setters.insert name callback }

/-- Declares a method, or declares it anew. -/
def method (b : ClassBuilder β) (name : String) (callback : β) (debounce : Option Debounce) :
    ClassBuilder β :=
  { b with methods := b.methods.insert name ⟨callback, debounce⟩ }

/-- Declares an action that every instance gets. -/
def action (b : ClassBuilder β) (name : String) (options : ActionOptions) (callback : β) :
    ClassBuilder β :=
  { b with actions := b.actions ++ [⟨name, options, callback⟩] }

/-- The handles in the declarations: those of the class to derive from, then those in the states of
actions. -/
def handles (b : ClassBuilder β) : List Handle :=
  (match b.parent with
    | some (.declared parent) => parent.handles
    | _ => []) ++ b.actions.flatMap ActionDeclaration.handles

/-! ### Registration -/

/-- The name to register: the given one unless it is empty, else the name of the class. -/
def registeredName (b : ClassBuilder β) : String :=
  match b.typeName with
  | some name => if name = "" then b.className else name
  | none => b.className

/-- The properties by name; later declarations win, ready-made descriptors over all others. -/
def propertyEntries (b : ClassBuilder β) : NameTable (PropertyEntry β) :=
  let manual : List (PropertyEntry β) :=
    b.manualProperties.map fun spec => ⟨spec, .stored none none none⟩
  .ofList ((b.properties ++ manual).map fun entry => (entry.spec.name, entry))

/-- The children, each once. -/
def childNames (b : ClassBuilder β) : List String :=
  Class.appendNewNames [] (b.children ++ b.manualChildren)

/-- The type that the class derives from: `Object` unless told otherwise. -/
def parentHandle (b : ClassBuilder β) (r : Registry) : TypeHandle :=
  match b.parent with
  | some (.type handle) => handle
  | some (.declared parent) => parent.handle
  | none => r.handle Registry.objectName

/-- The levels that the class inherits. -/
def inheritedLevels (b : ClassBuilder β) : List (ClassLevel β) :=
  match b.parent with
  | some (.declared parent) => parent.levels
  | _ => []

/-- The resource path of a template. -/
def templatePath (template : String) : String :=
  s!"resource://{template}.ui"

/-- What the registry is told. -/
def registration (b : ClassBuilder β) (r : Registry) : ClassRegistration :=
  { typeName := b.registeredName
    parent := b.parentHandle r
    template := b.template.map templatePath
    internalChildren := b.childNames
    signals := b.signals
    cssName := b.cssName
    properties := b.propertyEntries.values.map (·.spec)
    implements := b.implements
    flags := b.flags }

/-- The kind of instances, by the built-in types among the ancestors. -/
def kindOf (r : Registry) (ancestry : List TypeHandle) : InstanceKind :=
  let derivesFrom (name : String) : Bool :=
    match r.lookup? name with
    | some type => type ∈ ancestry
    | none => false
  if derivesFrom Registry.applicationName then .application
  else if derivesFrom Registry.windowName then .window
  else if derivesFrom Registry.widgetName then .widget
  else .object

/-- Registers the class. -/
def finalize (b : ClassBuilder β) (r : Registry) : Except ClassError (Registry × Class β) := do
  let registration := b.registration r
  let (r, handle) ← (r.registerClass registration).mapError .registration
  let ancestry := r.ancestry handle
  let own : ClassLevel β :=
    { typeName := registration.typeName
      handle
      ancestry
      kind := kindOf r ancestry
      flags := b.flags
      template := registration.template
      cssName := b.cssName
      properties := b.propertyEntries
      children := b.childNames
      signals := b.signals
      setters := b.setters
      methods := b.methods
      actions := b.actions
      initHooks := b.initHooks
      ready := b.ready }
  return (r, ⟨own, b.inheritedLevels⟩)

end ClassBuilder

end ObjectSystem
