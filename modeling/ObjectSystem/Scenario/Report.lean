import ObjectSystem.World

/-!
# Reports

What a step answers is a report: a small tree of numbers, texts, lists and named parts, or the error
that the step ended with. A report is made while everything it shows exists, and shows instances by
their texts.
-/

namespace ObjectSystem.Scenario

/-- The answer of a step. -/
inductive Report where
  | nothing
  | flag (answer : Bool)
  | number (n : Int)
  | text (text : String)
  | list (parts : List Report)
  | record (parts : List (String × Report))
  /-- An error of the library, with its message. -/
  | failure (error : Error) (message : String)
  /-- The step itself makes no sense. -/
  | misuse (complaint : String)
  deriving Repr

namespace Report

variable {β : Type}

/-! ### Forms -/

/-- The answer of a step that has nothing else to say. -/
def ok : Report := .text "ok"

/-- A part that may be absent. -/
def optional {α : Type} (report : α → Report) : Option α → Report
  | some a => report a
  | none => .nothing

/-- A natural number. -/
def count (n : Nat) : Report := .number n

/-- A list of texts. -/
def texts (parts : List String) : Report :=
  .list (parts.map .text)

/-! ### Values and types -/

/-- A value under the letter of its kind. -/
def value (w : World β) : Value → Report
  | .string s => .record [("s", .text s)]
  | .bool b => .record [("b", .flag b)]
  | .uint n => .record [("u", .number n.toNat)]
  | .int n => .record [("i", .number n.toInt)]
  | .double x => .record [("d", .text (Decimal.plain x))]
  | .enumeration n => .record [("e", .number n.toInt)]
  | .object none => .record [("o", .nothing)]
  | .object (some i) => .record [("o", .text (w.shown i))]

/-- Named values. -/
def namedValues (w : World β) (entries : List (String × Value)) : Report :=
  .list (entries.map fun (name, v) => .list [.text name, value w v])

/-- The name of a type; nothing for the null handle. -/
def typeName (r : Registry) (type : TypeHandle) : Report :=
  optional .text (r.typeName? type)

/-- A value type. -/
def valueType (r : Registry) : ValueType → Report
  | .enumeration type => .record [("enum", typeName r type)]
  | .object type => .record [("object", typeName r type)]
  | type => .text type.label

/-- The bounds of a numeric property. -/
def bounds : SpecKind → Report × Report
  | .uint min max _ => (.number min.toNat, .number max.toNat)
  | .int min max _ => (.number min.toInt, .number max.toInt)
  | .double min max _ => (.text (Decimal.plain min), .text (Decimal.plain max))
  | _ => (.nothing, .nothing)

/-- A property descriptor. -/
def spec (w : World β) (s : PropertySpec) : Report :=
  let (min, max) := bounds s.kind
  .record
    [("name", .text s.name), ("canonical", .text s.canonicalName), ("nick", .text s.nick),
      ("blurb", .text s.blurb), ("flags", count s.flags.bits), ("readable", .flag s.flags.readable),
      ("writable", .flag s.flags.writable), ("construct_only", .flag s.flags.constructOnly),
      ("type", valueType w.registry s.valueType), ("default", value w s.defaultValue),
      ("min", min), ("max", max)]

/-- How results of handlers are combined. -/
def accumulator : Accumulator → Report
  | .last => .text "last"
  | .firstWins => .text "first-wins"
  | .trueHandled => .text "true-handled"

/-- The declaration of a signal. -/
def signal (r : Registry) (s : SignalSpec) : Report :=
  .record
    [("flags", count s.flags.bits), ("params", .list (s.params.map (valueType r))),
      ("returns", optional (valueType r) s.returns), ("accumulator", accumulator s.accumulator)]

/-- What a class was registered with. -/
def registration (r : Registry) (c : ClassRegistration) : Report :=
  let names := c.properties.map (·.name)
  .record
    [("type_name", .text c.typeName), ("parent", typeName r c.parent),
      ("template", optional .text c.template), ("internal_children", texts c.internalChildren),
      ("css_name", optional .text c.cssName),
      ("signals", .list (c.signals.entries.map fun (name, s) => .list [.text name, signal r s])),
      ("properties", texts (NameTable.ofList (names.map fun name => (name, ()))).names),
      ("implements", .list (c.implements.map (typeName r))), ("flags", count c.flags.bits)]

/-- The kind of a type. -/
def typeKind : TypeKind → Report
  | .object => .text "Object"
  | .interface => .text "Interface"
  | .enumeration => .text "Enum"

/-- Everything the registry says about a type. -/
def typeInfo (r : Registry) (type : TypeHandle) : Report :=
  let member (m : EnumMember) : Report := .list [.number m.value.toInt, .text m.name]
  .record
    [("found", .flag (r.info? type).isSome), ("name", typeName r type),
      ("kind", optional typeKind (r.kind? type)), ("flags", count (r.flags type).bits),
      ("parent", optional (typeName r) (r.parent? type)),
      ("interfaces", .list ((r.interfaces type).map (typeName r))),
      ("members", optional (fun members => .list (members.map member)) (r.enumMembers? type)),
      ("ancestry", .list ((r.ancestry type).map (typeName r))),
      ("registration", optional (registration r) (r.registration? type))]

/-- The name of a kind of instances. -/
def instanceKind : InstanceKind → Report
  | .object => .text "Object"
  | .widget => .text "Widget"
  | .window => .text "Window"
  | .application => .text "Application"

/-- Everything about a class. -/
def classInfo (w : World β) (c : Class β) : Report :=
  let r := w.registry
  .record
    [("type_name", .text c.typeName), ("kind", instanceKind c.kind),
      ("flags", count c.own.flags.bits), ("template", optional .text c.own.template),
      ("css_name", optional .text c.own.cssName),
      ("parent", optional (fun (p : Class β) => .text p.typeName) c.parent?),
      ("ancestry", .list (c.own.ancestry.map (typeName r))),
      ("properties", .list (c.properties.map (spec w))),
      ("own", texts (c.ownProperties.map (·.name))), ("children", texts c.internalChildren),
      ("registration", optional (registration r) (r.registration? c.handle))]

/-- Everything about an instance that can be asked without running a callback. -/
def info (w : World β) (i : InstanceId) (x : Instance β) : Report :=
  .record
    [("show", .text (w.shown i)), ("type_name", .text x.typeName),
      ("class", .text x.ofClass.typeName), ("kind", instanceKind x.ofClass.kind),
      ("prefix", optional .text x.ofClass.kind.actionQualifier), ("disposed", .flag x.disposed),
      ("pending_ready", count x.readySources.length), ("handlers", count x.handlers.length),
      ("stored", namedValues w x.stored.entries)]

/-- An action. -/
def action (w : World β) (a : Action β) : Report :=
  .record
    [("name", .text a.name), ("enabled", .flag a.enabled), ("state", optional (value w) a.state),
      ("parameter_type", optional (valueType w.registry) a.parameterType)]

/-- The action of an identity. -/
def actionOf (w : World β) (a : ActionId) : Report :=
  optional (action w) (w.actions.find? a)

/-- The state of a main context. The machine's clock is not shown. -/
def contextInfo (c : MainContext β) : Report :=
  let isManual := c.config.clock = .manual
  .record
    [("sources", count c.sources.length), ("tasks", count c.liveTasks),
      ("pending", .flag c.pending), ("now", if isManual then count c.now else .nothing),
      ("next", if isManual then optional count c.timeUntilNext else .nothing)]

/-- The names of the settings of a configuration. -/
def config (c : Config) : Report :=
  texts
    [match c.clock with | .system => "System" | .manual => "Manual",
      match c.objectEquality with | .identity => "Identity" | .structural => "Structural",
      match c.notifyPolicy with | .onChange => "OnChange" | .always => "Always"]

end Report

end ObjectSystem.Scenario
