import ObjectSystem.Text.Quoted
import ObjectSystem.World

/-!
# Descriptions

A description shows a thing with its kind and its parts on one line: a record as its name and, in
braces, its named parts; lists in brackets, strings in quotation marks, doubles always with a
fraction or an exponent.
-/

namespace ObjectSystem.Description

variable {β : Type}

open Text (quoted)

/-! ### Forms -/

/-- Parts in brackets. -/
def listed (parts : List String) : String :=
  "[" ++ String.intercalate ", " parts ++ "]"

/-- A record with named parts. -/
def fields (name : String) (parts : List (String × String)) : String :=
  let texts := parts.map fun (part, text) => part ++ ": " ++ text
  name ++ " \x7b " ++ String.intercalate ", " texts ++ " \x7d"

/-- A name applied to one part. -/
def applied (name part : String) : String :=
  name ++ "(" ++ part ++ ")"

/-- Something that may be absent. -/
def optional (part : Option String) : String :=
  match part with
  | some part => applied "Some" part
  | none => "None"

/-- A truth value. -/
def truth (b : Bool) : String :=
  if b then "true" else "false"

/-! ### Things -/

/-- A value. -/
def value (w : World β) : Value → String
  | .string s => applied "String" (quoted s)
  | .bool b => applied "Bool" (truth b)
  | .uint n => applied "UInt" (toString n.toNat)
  | .int n => applied "Int" (toString n.toInt)
  | .double x => applied "Double" (Decimal.exact x)
  | .enumeration n => applied "Enum" (toString n.toInt)
  | .object none => "Object(null)"
  | .object (some i) => applied "Object" (w.shown i)

/-- An instance. -/
def ofInstance (i : InstanceId) (x : Instance β) : String :=
  fields "Instance"
    [("type", quoted x.typeName), ("id", toString i.number), ("disposed", truth x.disposed)]

/-- A reference that does not keep its instance alive. -/
def weak (w : World β) (i : InstanceId) : String :=
  if w.isAlive i then applied "WeakInstance" (w.shown i) else "WeakInstance(<dropped>)"

/-- The name of a kind of instances. -/
def kind : InstanceKind → String
  | .object => "Object"
  | .widget => "Widget"
  | .window => "Window"
  | .application => "Application"

/-- A class. -/
def ofClass (c : Class β) : String :=
  fields "Class"
    [("type_name", quoted c.typeName), ("kind", kind c.kind),
      ("properties", listed (c.own.properties.names.map quoted))]

/-- The declarations of a class. -/
def builder (b : ClassBuilder β) : String :=
  fields "ClassBuilder"
    [("class_name", quoted b.className), ("properties", toString b.properties.length),
      ("children", listed (b.children.map quoted)),
      ("signals", listed (b.signals.names.map quoted))]

/-- An action. -/
def action (w : World β) (a : Action β) : String :=
  fields "Action"
    [("name", quoted a.name), ("enabled", truth a.enabled),
      ("state", optional (a.state.map (value w)))]

/-- A group of actions. -/
def group (g : ActionGroup) : String :=
  fields "ActionGroup" [("actions", listed (g.names.map quoted))]

/-- The name of a clock mode. -/
def clock : ClockMode → String
  | .system => "System"
  | .manual => "Manual"

/-- A main context. -/
def context (c : MainContext β) : String :=
  fields "MainContext"
    [("sources", toString c.sources.length), ("tasks", toString c.liveTasks),
      ("clock", clock c.config.clock)]

/-- A main loop. -/
def loop (l : MainLoop) : String :=
  fields "MainLoop" [("running", truth l.running)]

/-- An awaited event, whose parts are not shown. -/
def event : String :=
  "EventFuture \x7b .. \x7d"

/-- The registry: the names of all types, sorted. -/
def registry (r : Registry) : String :=
  let names := (NameTable.ofList (r.types.map fun info => (info.name, ()))).names
  fields "TypeRegistry" [("types", listed (names.map quoted))]

end ObjectSystem.Description
