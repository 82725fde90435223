import ObjectSystem.Machine.Command

/-!
# Steps of a scenario

A scenario is a program for the library: a list of steps, each of which does one thing with things
that carry labels. Callbacks are given by *bodies*, which are lists of steps again. The steps are
plain data; the type `γ` of bodies is closed off by `Body` at the end.
-/

namespace ObjectSystem.Scenario

/-! ### Parts of steps -/

/-- How a step writes a value. -/
inductive Expr where
  | literal (value : Value)
  /-- The instance of a label, or null. -/
  | object (label : Option String)
  /-- An argument of the running callback. -/
  | argument (index : Nat)
  /-- A raw field of the running callback's instance. -/
  | field (name : String)
  /-- A property of the running callback's instance. -/
  | property (name : String)
  deriving Repr

/-- How a step writes a value type; named types are looked up. -/
inductive TypeExpr where
  | string
  | bool
  | uint
  | int
  | double
  | enumeration (name : String)
  | object (name : String)
  deriving Repr

/-- How a step writes a type tag. -/
inductive TagExpr where
  | text (tag : String)
  /-- The handle of a named type. -/
  | type (name : String)
  deriving Repr

/-- How a step writes the options of a property. -/
structure OptionsExpr where
  nick : Option String := none
  blurb : Option String := none
  flags : Option String := none
  default : Option Expr := none
  min : Option Float := none
  max : Option Float := none
  deriving Repr

/-- A property by its type and bounds, without a registry to ask. -/
inductive KindExpr where
  | string (default : String)
  | bool (default : Bool)
  | uint (min max default : UInt32)
  | int (min max default : Int32)
  | double (min max default : Float)
  | object (type : String)
  | enumeration (type : String) (default : Int32)
  deriving Repr

/-- A ready-made descriptor. -/
structure SpecExpr where
  name : String
  nick : String
  blurb : String
  flags : Nat
  kind : KindExpr
  deriving Repr

/-- How a step writes the declaration of a signal. -/
structure SignalExpr where
  params : List TypeExpr := []
  flags : Option Nat := none
  returns : Option TypeExpr := none
  accumulator : Accumulator := .last
  deriving Repr

/-- How a step writes the options of an action. -/
structure ActionExpr where
  state : Option Expr := none
  parameterType : Option TypeExpr := none
  enabled : Bool := true
  accels : List String := []
  exposeAs : Option String := none
  deriving Repr

/-- One declaration of a class. -/
inductive Decl (γ : Type) where
  | parentType (name : String)
  | subclassOf (label : String)
  | property (name : String) (tag : TagExpr) (options : OptionsExpr) (notify : Option NotifyPolicy)
      (equality : Option ObjectEquality) (effect : Option γ)
  | computed (name : String) (tag : TagExpr) (options : OptionsExpr) (backing : Option String)
      (getter : γ)
  | manualProperty (spec : SpecExpr)
  | child (name : String)
  | internalChildren (names : List String)
  | signal (name : String) (signal : SignalExpr)
  | setter (name : String) (body : γ)
  | method (name : String) (body : γ)
  | debounce (name : String) (interval : Nat) (trigger : Option String) (body : γ)
  | action (name : String) (action : ActionExpr) (body : γ)
  | template (path : String)
  | cssName (name : String)
  | typeName (name : String)
  | implements (name : String)
  | typeFlags (bits : Nat)
  | init (body : γ)
  | ready (body : γ)
  | readyAsync (body : γ)
  deriving Repr

/-- What a step describes. -/
inductive Subject (γ : Type) where
  | value (value : Option Expr)
  | object (label : String)
  | weak (label : String)
  | ofClass (label : String)
  | action (label : String)
  | group (label : String)
  | context (label : String)
  | loop (label : String)
  | future (label : String)
  | types
  | builder (className : String) (decls : List (Decl γ))
  deriving Repr

/-- How a step makes a main context. -/
structure ContextExpr where
  /-- The context with the default configuration of the library. -/
  isDefault : Bool := false
  document : Option String := none
  equality : Option ObjectEquality := none
  notify : Option NotifyPolicy := none
  deriving Repr

/-- When the callback of a source gives up. -/
structure SourceExpr where
  priority : Option Priority := none
  /-- The run that is the last; 0 for none. -/
  runs : Nat := 1
  once : Bool := false
  deriving Repr

/-! ### Steps -/

/-- What a step does. -/
inductive Op (γ : Type) where
  -- names, presets, values
  | titleCase (text : String)
  | canonicalName (text : String)
  | parseDetailed (text : String)
  | flagPreset (text : String)
  | trigger (text : String)
  | config (document : String)
  | value (a : Option Expr) (b : Option Expr) (type : Option TypeExpr)
  -- descriptors
  | resolve (options : OptionsExpr) (name : String) (tag : TagExpr) (check : Option (List Expr))
  | spec (spec : SpecExpr) (check : Option (List Expr))
  | propsTable (specs : List (OptionsExpr × String × TagExpr))
  -- types
  | registerEnum (name : String) (members : List EnumMember)
  | registerInterface (name : String)
  | registerClass (name parent : String) (template : Option String) (children : List String)
      (cssName : Option String) (signals : List (String × SignalExpr)) (implements : List String)
      (flags : Nat)
  | typeInfo (name : String)
  | isA (name ancestor : String)
  | typeCount
  | builtinTypes
  -- classes
  | declare (name : String) (decls : List (Decl γ)) (label : Option String)
  | classInfo (label : String)
  | classLookup (label name : String)
  | classIsA (label ancestor : String)
  -- instances
  | construct (ofClass : String) (context : Option String) (fields : List (String × Option Expr))
      (children : List (String × String)) (properties : List (String × Option Expr))
      (label : String)
  | drop (label : String)
  | alive (label : String)
  | same (a b : String)
  | info (target : String)
  | instanceIsA (target ancestor : String)
  | get (target name : String)
  | set (target name : String) (value : Option Expr)
  | notify (target name : String)
  | field (target name : String)
  | setField (target name : String) (value : Option Expr)
  | hasField (target name : String)
  | child (target name : String)
  | setChild (child : Option String) (target name : String)
  | dispose (target : String)
  -- signals and methods
  | connect (target signal : String) (body : γ) (label : String)
  | connectNotify (target : String) (property : Option String) (body : γ) (label : String)
  | disconnect (target handler : String)
  | isConnected (target handler : String)
  | emit (args : List (Option Expr)) (target signal : String)
  | call (args : List (Option Expr)) (target method : String)
  -- actions
  | actionNew (action : ActionExpr) (name label : String)
  | actionInfo (action : String)
  | actionSame (a b : String)
  | actionEnable (action : String) (enabled : Bool)
  | actionSetState (value : Option Expr) (action : String)
  | actionConnect (action : String) (body : γ)
  | actionActivate (parameter : Option Expr) (action : String)
  | lookupAction (target name : String) (label : Option String)
  | exposedAction (target name : String) (label : Option String)
  | listActions (target : String)
  | activate (parameter : Option Expr) (target name : String)
  | addAction (target action : String)
  | setAccels (target name : String) (accels : List String)
  | accels (target name : String)
  | groupNew (label : String)
  | ownGroup (target : String) (label : Option String)
  | actionGroup (target qualifier : String) (label : Option String)
  | insertGroup (target qualifier group : String)
  | groupAdd (group action : String)
  | groupRemove (group name : String)
  | groupLookup (group name : String) (label : Option String)
  | groupList (group : String)
  | groupActivate (parameter : Option Expr) (group name : String)
  -- main contexts
  | context (context : ContextExpr) (label : String)
  | contextInfo (context : Option String)
  | idle (context : Option String) (source : SourceExpr) (body : γ) (label : String)
  | timeout (context : Option String) (interval : Nat) (source : SourceExpr) (body : γ)
      (label : String)
  | sourceRemove (context : Option String) (source : String)
  | isPending (context : Option String) (source : String)
  | iterate (context : Option String)
  | runUntilIdle (context : Option String)
  | advance (context : Option String) (duration : Nat)
  | spawn (context : Option String) (body : γ)
  | loopNew (context : Option String) (label : String)
  | loopRun (loop : String)
  | loopQuit (loop : String)
  | loopRunning (loop : String)
  | sameContext (a b : Option String)
  -- awaited events
  | awaitEvent (target resolve : String) (reject : Option String) (label : String)
  | poll (future : String)
  | dropFuture (future : String)
  | join (future : String)
  -- descriptions
  | describe (subject : Subject γ)
  /-- A step that says nothing sensible, with the complaint about it. -/
  | malformed (complaint : String)
  deriving Repr

/-- One step. -/
structure Step (γ : Type) where
  op : Op γ
  /-- Error messages say which part of the library they come from. -/
  wrap : Bool := false
  deriving Repr

/-- How the body of a ready hook ends, if it does not end well. -/
inductive ReadyEnd where
  | well
  | failure (text : String)
  /-- A panic before the hook has yielded a task (`early`), or at its end. -/
  | panic (payload : PanicPayload) (early : Bool)
  deriving Repr

/-- What a callback does: some steps, a value in the end. -/
structure BodyOf (γ : Type) where
  tag : Option String := none
  steps : List (Step γ) := []
  result : Option Expr := none
  /-- Only so many runs carry out the steps. -/
  limit : Option Nat := none
  readyEnd : ReadyEnd := .well
  deriving Repr

/-- The body of a callback. -/
inductive Body where
  | mk (content : BodyOf Body)

namespace Body

/-- What is in a body. -/
def content : Body → BodyOf Body
  | mk content => content

end Body

end ObjectSystem.Scenario
