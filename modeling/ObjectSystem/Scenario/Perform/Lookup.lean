import ObjectSystem.Scenario.Declare

/-!
# Steps that look something up

Names and their spellings, presets, values, descriptors, types and classes: these steps run no
callback, and all but the registrations leave the world as it is.
-/

namespace ObjectSystem.Scenario.Run

/-! ### Names and presets -/

/-- The preset of a name, with the bits of its flags. -/
def flagPreset (env : Env) (text : String) : Run Report :=
  match FlagPreset.ofName? text with
  | none => fail env (.unknownFlagPreset text)
  | some preset =>
    pure <| .record
      [("name", .text preset.name), ("bits", .count preset.flags.bits),
        ("is_default", .flag (preset = .standard))]

/-- The trigger of a name. -/
def trigger (env : Env) (text : String) : Run Report :=
  match Trigger.ofName? text with
  | none => fail env (.unknownTrigger text)
  | some trigger =>
    pure <| .record
      [("name", .text trigger.name), ("leading", .flag trigger.isLeading),
        ("trailing", .flag trigger.isTrailing), ("is_default", .flag (trigger = .standard))]

/-- A name and its detail. -/
def parseDetailed (text : String) : Report :=
  let (name, detail) := Name.splitDetail text
  .list [.text name, .optional .text detail]

/-- The configuration that a document describes. -/
def configuration (env : Env) (document : String) : Run Config :=
  match Config.ofText? document with
  | some config => pure config
  | none => fail env .config

/-! ### Values -/

/-- What a value is when it is taken for each of the seven kinds in turn. -/
def views (w : ScenarioWorld) (v : Value) : Report :=
  .list
    [match v with | .string s => .text s | _ => .nothing,
      match v with | .bool b => .flag b | _ => .nothing,
      match v with | .uint n => .number n.toNat | _ => .nothing,
      match v with | .int n => .number n.toInt | _ => .nothing,
      match v with | .double x => .text (Decimal.plain x) | _ => .nothing,
      match v with | .enumeration n => .number n.toInt | _ => .nothing,
      .optional (fun i => .text (w.shown i)) v.asObject?]

/-- How two values compare. The third comparison is the one that configurations call identity. -/
def comparisons (w : ScenarioWorld) (a b : Value) : List (String × Report) :=
  [("identical", .flag (a.identical b)), ("structural", .flag (w.structurallyEqual a b)),
    ("eq", .flag (a.identical b))]

/-- Everything about a value. -/
def describeValue (env : Env) (a b : Option Expr) (type : Option TypeExpr) : Run Report := do
  let a ← value env [] a
  let b ← match b with
    | none => pure none
    | some e => some <$> value env (Handle.ofValues [a]) (some e)
  let w ← world
  let compared := (b.map (comparisons w a)).getD []
  let conforms := match type with
    | none => []
    | some type => [("conforms", .flag (a.conformsTo w.isA (valueType w.registry type)))]
  pure <| .record <|
    [("display", .text (a.text w.shown)), ("type_name", .text a.label),
      ("to_f64", .optional (fun x => .text (Decimal.plain x)) a.toDouble?), ("as", views w a)]
      ++ compared ++ conforms

/-! ### Descriptors -/

/-- The verdicts of a descriptor on some values. Each value is let go of before the next one is
evaluated. -/
def verdicts (env : Env) (spec : PropertySpec) : List Expr → Run (List Report)
  | [] => pure []
  | e :: rest => do
    let v ← value env [] (some e)
    let w ← world
    let verdict := match spec.check w.isA v with
      | .ok _ => .ok
      | .error e => errorReport env w (.spec e)
    let others ← verdicts env spec rest
    pure (verdict :: others)

/-- A descriptor, with the verdict on each of some values. -/
def specReport (env : Env) (spec : PropertySpec) (check : Option (List Expr)) : Run Report := do
  let checks ← match check with
    | none => pure []
    | some exprs => do
      let answers ← verdicts env spec exprs
      pure [("checks", Report.list answers)]
  let w ← world
  pure (.record (("spec", .spec w spec) :: checks))

/-- Completes a declaration. -/
def resolved (env : Env) (opts : OptionsExpr) (name : String) (tag : TagExpr) :
    Run PropertySpec := do
  let opts ← options env [] opts
  let w ← world
  orFail env .resolve (Property.resolve w.registry name (typeTag w.registry tag) opts)

/-- Completes declarations one after the other. -/
def resolvedAll (env : Env) : List (OptionsExpr × String × TagExpr) → Run (List PropertySpec)
  | [] => pure []
  | (opts, name, tag) :: rest => do
    let spec ← resolved env opts name tag
    let specs ← resolvedAll env rest
    pure (spec :: specs)

/-- Completes declarations and files them under their names. -/
def propsTable (env : Env) (specs : List (OptionsExpr × String × TagExpr)) : Run Report := do
  let specs ← resolvedAll env specs
  let w ← world
  let entry (named : String × PropertySpec) : Report := .list [.text named.1, .spec w named.2]
  pure (.list ((propertyTable specs).entries.map entry))

/-! ### Types -/

/-- A question about the registry. -/
def askRegistry (report : Registry → Report) : Run Report := do
  let w ← world
  pure (report w.registry)

/-- Registers a class directly. -/
def registerClass (env : Env) (name parent : String) (template : Option String)
    (children : List String) (cssName : Option String) (signals : List (String × SignalExpr))
    (implements : List String) (flags : Nat) : Run Report := do
  let w ← world
  let r := w.registry
  let registration : ClassRegistration :=
    { typeName := name
      parent := r.handle parent
      template
      internalChildren := children
      signals := .ofList (signals.map fun (name, s) => (name, signal r s))
      cssName
      properties := []
      implements := implements.map r.handle
      flags := .ofBits flags }
  issueOk env (.registerClass registration) []

/-- The names of the built-in types. -/
def builtinTypes (r : Registry) : Report :=
  .list <| [Registry.objectType, Registry.widgetType, Registry.windowType,
    Registry.applicationType].map (Report.typeName r)

/-! ### Classes -/

/-- Declares a class and labels it. -/
def declareClass (env : Env) (name : String) (decls : List (Decl Body)) (label : Option String) :
    Run Report := do
  let b ← declareAll env { className := name } decls
  match ← issue env (.finalize b) [] with
  | .ofClass c =>
    modifySession fun s => { s with classes := s.classes.insert (label.getD name) c }
    pure (.text c.typeName)
  | _ => pure .nothing

/-- What a class knows under a name. -/
def classLookup (label name : String) : Run Report := do
  let c ← labelled label (·.classes)
  let w ← world
  pure <| .record
    [("property", .optional (.spec w) (c.propertySpec? name)),
      ("signal", .optional (.signal w.registry) (c.findSignal? name)),
      ("method", .flag (c.hasMethod name))]

end ObjectSystem.Scenario.Run
