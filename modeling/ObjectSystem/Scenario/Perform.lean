import ObjectSystem.Description
import ObjectSystem.Scenario.Perform.Actions
import ObjectSystem.Scenario.Perform.Contexts
import ObjectSystem.Scenario.Perform.Instances

/-!
# Carrying out steps

`Run.perform` carries out one step and answers with its report.
-/

namespace ObjectSystem.Scenario.Run

/-- The description of a thing. -/
def describe (env : Env) (subject : Subject Body) : Run Report := do
  let text ← match subject with
    | .value e => do
      let v ← value env [] e
      let w ← world
      pure (Description.value w v)
    | .object label => do
      let (i, x) ← targetState env label
      pure (Description.ofInstance i x)
    | .weak label => do
      let i ← labelled label (·.weak)
      let w ← world
      pure (Description.weak w i)
    | .ofClass label => do
      let c ← labelled label (·.classes)
      pure (Description.ofClass c)
    | .action label => do
      let a ← actionOf env label
      let w ← world
      match w.actions.find? a with
      | some action => pure (Description.action w action)
      | none => noSuch label
    | .group label => do
      let g ← labelled label (·.groups)
      let w ← world
      pure (Description.group (w.group g))
    | .context label => do
      let state ← contextState (some label)
      pure (Description.context state)
    | .loop label => do
      let state ← loopState label
      pure (Description.loop state)
    | .future label => do
      let _ ← labelled label (·.futures)
      pure Description.event
    | .types => do
      let w ← world
      pure (Description.registry w.registry)
    | .builder className decls => do
      let b ← declareAll env { className } decls
      pure (Description.builder b)
  pure (.text text)

/-- Carries out a step. -/
def perform (env : Env) : Op Body → Run Report
  | .titleCase text => pure (.text (Text.titleCase text))
  | .canonicalName text => pure (.text (Name.canonical text))
  | .parseDetailed text => pure (parseDetailed text)
  | .flagPreset text => flagPreset env text
  | .trigger text => trigger env text
  | .config document => do
    let config ← configuration env document
    pure (.config config)
  | .value a b type => describeValue env a b type
  | .resolve opts name tag check => do
    let spec ← resolved env opts name tag
    specReport env spec check
  | .spec spec check => do
    let spec ← descriptor env spec
    specReport env spec check
  | .propsTable specs => propsTable env specs
  | .registerEnum name members => issueOk env (.registerEnum name members) []
  | .registerInterface name => issueOk env (.registerInterface name) []
  | .registerClass name parent template children cssName signals implements flags =>
    registerClass env name parent template children cssName signals implements flags
  | .typeInfo name => askRegistry fun r => .typeInfo r (r.handle name)
  | .isA name ancestor => askRegistry fun r => .flag (r.isA (r.handle name) (r.handle ancestor))
  | .typeCount => askRegistry fun r => .list [.count r.size, .flag (r.size = 0)]
  | .builtinTypes => askRegistry builtinTypes
  | .declare name decls label => declareClass env name decls label
  | .classInfo label => do
    let c ← labelled label (·.classes)
    let w ← world
    pure (.classInfo w c)
  | .classLookup label name => classLookup label name
  | .classIsA label ancestor => do
    let c ← labelled label (·.classes)
    askRegistry fun r => .flag (c.isA (r.handle ancestor))
  | .construct ofClass context fields children properties label =>
    construct env ofClass context fields children properties label
  | .drop label => dropLabel label
  | .alive label => isLabelAlive label
  | .same a b => isSame env a b
  | .info target => askInstance env target .info
  | .instanceIsA target ancestor =>
    askInstance env target fun w _ x => .flag (x.ofClass.isA (w.registry.handle ancestor))
  | .get target name => getProperty env target name
  | .set target name value => setProperty env target name value
  | .notify label name => do
    let i ← target env label
    issueOk env (.notify i name) [.object i]
  | .field target name =>
    askInstance env target fun w _ x => .optional (.value w) (x.field? name)
  | .setField target name value => setField env target name value
  | .hasField target name => askInstance env target fun _ _ x => .flag (x.fields.contains name)
  | .child target name => child env target name
  | .setChild bound target name => setChild env bound target name
  | .dispose label => do
    let i ← target env label
    issueOk env (.dispose i) [.object i]
  | .connect target signal body label => connect env target signal body label
  | .connectNotify target property body label => connectNotify env target property body label
  | .disconnect target handler => disconnect env target handler
  | .isConnected target handler => isConnected env target handler
  | .emit args target signal => emit env args target signal
  | .call args target method => call env args target method
  | .actionNew action name label => newAction env action name label
  | .actionInfo action => actionInfo env action
  | .actionSame a b => isSameAction env a b
  | .actionEnable action enabled => enableAction env action enabled
  | .actionSetState value action => setActionState env value action
  | .actionConnect action body => connectAction env action body
  | .actionActivate parameter action => activateAction env parameter action
  | .lookupAction target name label =>
    findAction env target (fun w x => w.lookupAction? x name) label
  | .exposedAction target name label =>
    findAction env target (fun _ x => x.exposed.find? name) label
  | .listActions target => askInstance env target fun w _ x => .texts (w.listActions x)
  | .activate parameter target name => activate env parameter target name
  | .addAction target action => addAction env target action
  | .setAccels label name accels => do
    let i ← target env label
    issueOk env (.setAccels i name accels) [.object i]
  | .accels target name =>
    askInstance env target fun _ _ x => .texts ((x.accels.find? name).getD [])
  | .groupNew label => do groupReply (some label) (← issue env .newGroup [])
  | .ownGroup target label => ownGroup env target label
  | .actionGroup target qualifier label => actionGroup env target qualifier label
  | .insertGroup target qualifier group => insertGroup env target qualifier group
  | .groupAdd group action => addToGroup env group action
  | .groupRemove group name => removeFromGroup env group name
  | .groupLookup group name label => findInGroup group name label
  | .groupList group => do
    let g ← labelled group (·.groups)
    groupReport none g
  | .groupActivate parameter group name => activateInGroup env parameter group name
  | .context context label => do
    let config ← contextConfig env context
    newContext env config label
  | .contextInfo context => do
    let state ← contextState context
    pure (.contextInfo state)
  | .idle context source body label => addIdle env context source body label
  | .timeout context interval source body label =>
    addTimeout env context interval source body label
  | .sourceRemove context source => removeSource env context source
  | .isPending context source => isPending context source
  | .iterate context => driveContext env context .iterate
  | .runUntilIdle context => driveContext env context .runUntilIdle
  | .advance context duration => driveContext env context fun c => .advance c duration
  | .spawn context body => spawn env context body
  | .loopNew context label => newLoop env context label
  | .loopRun loop => driveLoop env loop .runLoop
  | .loopQuit loop => driveLoop env loop .quitLoop
  | .loopRunning loop => do
    let state ← loopState loop
    pure (.flag state.running)
  | .sameContext a b => isSameContext a b
  | .awaitEvent target resolve reject label => awaitEvent env target resolve reject label
  | .poll future => poll env future
  | .dropFuture future => dropFuture future
  | .join future => join env future
  | .describe subject => describe env subject
  | .malformed complaint => throw (.misuse complaint)

end ObjectSystem.Scenario.Run
