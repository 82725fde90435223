import ObjectSystem.Scenario.Evaluate

/-!
# Declaring a class step by step

The declarations of a class are applied in order; the first one that fails is the answer of the
step. Each declaration with a body makes a callback of its own, which all instances of the class
share.
-/

namespace ObjectSystem.Scenario.Run

/-- The declarations of a class of the scenario. -/
abbrev Builder := ClassBuilder CallbackId

/-- A callback that returns nothing. -/
def silent (body : Body) : Run CallbackId :=
  newCallback body (.plain false)

/-- A callback that may return a value. -/
def returning (body : Body) : Run CallbackId :=
  newCallback body (.plain true)

/-- Applies one declaration; what is declared already is kept meanwhile. -/
def declare (env : Env) (b : Builder) : Decl Body → Run Builder
  | .parentType name => do
    let w ← world
    pure { b with parent := some (.type (w.registry.handle name)) }
  | .subclassOf label => do
    let parent ← labelled label (·.classes)
    pure { b with parent := some (.declared parent) }
  | .property name tag opts notify equality effect => do
    let opts ← options env b.handles opts
    let effect ← match effect with
      | some body => some <$> silent body
      | none => pure none
    let w ← world
    orFail env .ofClass
      (b.stored w.registry name (typeTag w.registry tag) opts notify equality effect)
  | .computed name tag opts backing getter => do
    let opts ← options env b.handles opts
    let getter ← returning getter
    let w ← world
    orFail env .ofClass (b.computed w.registry name (typeTag w.registry tag) opts backing getter)
  | .manualProperty spec => do
    let spec ← descriptor env spec
    pure (b.manual spec)
  | .child name => pure (b.child name)
  | .internalChildren names => pure (b.internalChildren names)
  | .signal name spec => do
    let w ← world
    pure (b.signal name (signal w.registry spec))
  | .setter name body => do
    let callback ← silent body
    pure (b.setter name callback)
  | .method name body => do
    let callback ← returning body
    pure (b.method name callback none)
  | .debounce name interval trigger body => do
    let trigger ← match trigger with
      | none => pure Trigger.standard
      | some text =>
        match Trigger.ofName? text with
        | some trigger => pure trigger
        | none => fail env (.unknownTrigger text)
    let callback ← silent body
    pure (b.method name callback (some { interval, trigger }))
  | .action name action body => do
    let opts ← actionOptions env b.handles action
    let callback ← silent body
    pure (b.action name opts callback)
  | .template path => pure { b with template := some path }
  | .cssName name => pure { b with cssName := some name }
  | .typeName name => pure { b with typeName := some name }
  | .implements name => do
    let w ← world
    pure { b with implements := b.implements ++ [w.registry.handle name] }
  | .typeFlags bits => pure { b with flags := .ofBits bits }
  | .init body => do
    let hook ← silent body
    pure { b with initHooks := b.initHooks ++ [hook] }
  | .ready body => do
    let hook ← newCallback body .ready
    pure { b with ready := some (.immediate hook) }
  | .readyAsync body => do
    let task ← newCallback body .ready
    let hook ← newCallback body (.readyTask task)
    pure { b with ready := some (.deferred hook) }

/-- Applies declarations in order. -/
def declareAll (env : Env) (b : Builder) : List (Decl Body) → Run Builder
  | [] => pure b
  | decl :: rest => do
    let b ← declare env b decl
    declareAll env b rest

end ObjectSystem.Scenario.Run
