import ObjectSystem.Types.Registration

/-!
# The type registry

The registry knows four kinds of facts: which names are types, what kind of type each is, who
derives from whom, and who implements what. It starts with `Object` and three types derived from
it, and it only grows: a registration either fails and changes nothing or adds one type behind all
others. A type is therefore always registered after its parent, and walking up the parents ends.
-/

namespace ObjectSystem

/-! ### Types -/

/-- What a registered type is. -/
inductive TypeKind where
  /-- A class of instances. -/
  | object
  /-- A capability that classes list among what they implement. -/
  | interface
  | enumeration
  deriving Repr, DecidableEq

/-- One member of an enumerated type. -/
structure EnumMember where
  value : Int32
  name : String
  deriving Repr, DecidableEq

/-- What the registry keeps about one type. -/
structure TypeInfo where
  name : String
  kind : TypeKind
  parent : Option TypeHandle := none
  flags : TypeFlags := {}
  interfaces : List TypeHandle := []
  members : List EnumMember := []
  registration : Option ClassRegistration := none
  deriving Repr

/-- Why a type cannot be registered. -/
inductive RegistrationError where
  | emptyTypeName
  | duplicateTypeName (name : String)
  /-- The parent is not a registered object type. -/
  | invalidParent (typeName : String)
  | finalParent (typeName parent : String)
  /-- Something listed as implemented is not an interface. -/
  | notAnInterface (typeName : String)
  | emptyEnum (name : String)
  /-- Two members share a value or a name; the second of them is named. -/
  | duplicateEnumMember (typeName member : String)
  deriving Repr, DecidableEq

/-- The wording of a registration error. -/
def RegistrationError.message : RegistrationError → String
  | .emptyTypeName => "Type name must not be empty"
  | .duplicateTypeName name => s!"Type '{name}' is already registered"
  | .invalidParent typeName => s!"Parent of '{typeName}' is not a registered object type"
  | .finalParent typeName parent => s!"Cannot derive '{typeName}' from final type '{parent}'"
  | .notAnInterface typeName => s!"'{typeName}' cannot implement a type that is not an interface"
  | .emptyEnum name => s!"Enum '{name}' has no members"
  | .duplicateEnumMember typeName member =>
    s!"Enum '{typeName}' declares member '{member}' twice"

/-- The registered types, in order of registration. -/
structure Registry where
  types : List TypeInfo
  deriving Repr

namespace Registry

/-! ### Built-in types -/

/-- The name of the type that all classes derive from. -/
def objectName : String := "Object"
/-- The name of the built-in type of widgets. -/
def widgetName : String := "Widget"
/-- The name of the built-in type of windows. -/
def windowName : String := "Window"
/-- The name of the built-in type of applications. -/
def applicationName : String := "Application"

/-- The root of all classes. -/
def objectType : TypeHandle := .registered 0
/-- Widgets own a group of actions. -/
def widgetType : TypeHandle := .registered 1
/-- Windows hold their actions directly. -/
def windowType : TypeHandle := .registered 2
/-- Applications hold their actions directly and bind accelerators. -/
def applicationType : TypeHandle := .registered 3

/-- The registry that knows the built-in types only. -/
def builtin : Registry where
  types := [
    { name := objectName, kind := .object },
    { name := widgetName, kind := .object, parent := some objectType },
    { name := windowName, kind := .object, parent := some widgetType },
    { name := applicationName, kind := .object, parent := some objectType }]

/-! ### Queries -/

/-- What is known about a type. -/
def info? (r : Registry) : TypeHandle → Option TypeInfo
  | .null => none
  | .registered index => r.types[index]?

/-- The type of a name. -/
def lookup? (r : Registry) (name : String) : Option TypeHandle :=
  (r.types.findIdx? (·.name = name)).map .registered

/-- The type of a name; the null handle if there is none. -/
def handle (r : Registry) (name : String) : TypeHandle :=
  (r.lookup? name).getD .null

/-- The name of a type. -/
def typeName? (r : Registry) (type : TypeHandle) : Option String :=
  (r.info? type).map (·.name)

/-- The kind of a type. -/
def kind? (r : Registry) (type : TypeHandle) : Option TypeKind :=
  (r.info? type).map (·.kind)

/-- The flags of a type; none for an unknown one. -/
def flags (r : Registry) (type : TypeHandle) : TypeFlags :=
  ((r.info? type).map (·.flags)).getD {}

/-- The parent of a type. -/
def parent? (r : Registry) (type : TypeHandle) : Option TypeHandle :=
  (r.info? type).bind (·.parent)

/-- The interfaces that a type itself lists. -/
def interfaces (r : Registry) (type : TypeHandle) : List TypeHandle :=
  ((r.info? type).map (·.interfaces)).getD []

/-- The members of an enumerated type, in order. -/
def enumMembers? (r : Registry) (type : TypeHandle) : Option (List EnumMember) :=
  match r.info? type with
  | some info => if info.kind = .enumeration then some info.members else none
  | none => none

/-- What a class was registered with. -/
def registration? (r : Registry) (type : TypeHandle) : Option ClassRegistration :=
  (r.info? type).bind (·.registration)

/-- The number of types, built-in ones included. -/
def size (r : Registry) : Nat :=
  r.types.length

/-! ### Ancestry -/

/-- A type and its ancestors, nearest first. Only parents registered before their child are
followed, and the registry admits no others. -/
def parentChain (r : Registry) : TypeHandle → List TypeHandle
  | .null => [.null]
  | .registered index =>
    match r.parent? (.registered index) with
    | some (.registered parent) =>
      if parent < index then .registered index :: r.parentChain (.registered parent)
      else [.registered index]
    | _ => [.registered index]
  termination_by type => match type with
    | .null => 0
    | .registered index => index + 1

/-- Adds what is not yet in a list behind it, each thing once. -/
def appendNew (known : List TypeHandle) (types : List TypeHandle) : List TypeHandle :=
  types.foldl (fun known type => if type ∈ known then known else known ++ [type]) known

/-- A type, its ancestors, and every interface that any of them implements. -/
def ancestry (r : Registry) (type : TypeHandle) : List TypeHandle :=
  let chain := r.parentChain type
  appendNew chain (chain.flatMap r.interfaces)

/-- Whether a type is another, derives from it or implements it. -/
def isA (r : Registry) (type ancestor : TypeHandle) : Bool :=
  ancestor ∈ r.ancestry type

/-! ### Registration -/

/-- A name must not be empty and not be taken. -/
def checkName (r : Registry) (name : String) : Except RegistrationError Unit :=
  if name = "" then .error .emptyTypeName
  else if (r.lookup? name).isSome then .error (.duplicateTypeName name)
  else .ok ()

/-- Adds a type behind all others. -/
def push (r : Registry) (info : TypeInfo) : Registry × TypeHandle :=
  (⟨r.types ++ [info]⟩, .registered r.types.length)

/-- Collects enumeration members as long as no value and no name comes twice. -/
def collectMembers (typeName : String) (known : List EnumMember) :
    List EnumMember → Except RegistrationError (List EnumMember)
  | [] => .ok known
  | member :: rest =>
    if known.any fun m => m.value = member.value ∨ m.name = member.name then
      .error (.duplicateEnumMember typeName member.name)
    else collectMembers typeName (known ++ [member]) rest

/-- Registers an enumerated type. -/
def registerEnum (r : Registry) (name : String) (members : List EnumMember) :
    Except RegistrationError (Registry × TypeHandle) := do
  r.checkName name
  let members ← collectMembers name [] members
  if members.isEmpty then .error (.emptyEnum name)
  else .ok (r.push { name, kind := .enumeration, members })

/-- Registers an interface. -/
def registerInterface (r : Registry) (name : String) :
    Except RegistrationError (Registry × TypeHandle) := do
  r.checkName name
  return r.push { name, kind := .interface }

/-- Registers a class. Its parent must be an object type that is not final, and whatever it
implements an interface. -/
def registerClass (r : Registry) (c : ClassRegistration) :
    Except RegistrationError (Registry × TypeHandle) := do
  r.checkName c.typeName
  match r.info? c.parent with
  | none => .error (.invalidParent c.typeName)
  | some parent =>
    if parent.kind ≠ .object then .error (.invalidParent c.typeName)
    else if parent.flags.isFinal then .error (.finalParent c.typeName parent.name)
    else if c.implements.any fun type => r.kind? type ≠ some .interface then
      .error (.notAnInterface c.typeName)
    else
      let info : TypeInfo :=
        { name := c.typeName, kind := .object, parent := some c.parent, flags := c.flags,
          interfaces := c.implements, registration := some c }
      .ok (r.push info)

end Registry

end ObjectSystem
