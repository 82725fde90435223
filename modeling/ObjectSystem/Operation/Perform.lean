import ObjectSystem.Operation.Activation
import ObjectSystem.Operation.Construct
import ObjectSystem.Operation.Drive
import ObjectSystem.Operation.Iterate
import ObjectSystem.Operation.Poll
import ObjectSystem.Operation.Write

/-!
# Carrying out commands

`World.perform` begins to carry out a command, and `Frame.resume` goes on with an operation when it
gets the reply that it waits for. Most commands are complete in one step.
-/

namespace ObjectSystem

variable {β : Type}

namespace World

/-- The reply to a registration. -/
def registered (w : World β) (result : Except RegistrationError (Registry × TypeHandle)) :
    Progress β :=
  match result with
  | .ok (registry, _) => .reply { w with registry } .done
  | .error e => .reply w (.failed (.registration e))

/-- Registers a declared class. -/
def finalize (w : World β) (builder : ClassBuilder β) : Progress β :=
  match builder.finalize w.registry with
  | .ok (registry, c) => .reply { w with registry } (.ofClass c)
  | .error e => .reply w (.failed (.ofClass e))

/-- Changes the state of an action. -/
def setActionState (w : World β) (a : ActionId) (state : Value) : Progress β :=
  match w.actions.find? a with
  | none => .reply w .missing
  | some action =>
    match action.setState state with
    | .ok action => .reply (w.modifyAction a fun _ => action) .done
    | .error e => .reply w (.failed (.action e))

/-- Adds an action to a group; the reply is the action that it replaces. -/
def addToGroup (w : World β) (g : GroupId) (a : ActionId) : Progress β :=
  match w.actions.find? a with
  | none => .reply w .missing
  | some action =>
    .reply (w.modifyGroup g (·.insert action.name a)) (.action ((w.group g).find? action.name))

/-- Attaches a source to a context. -/
def addSource (w : World β) (c : ContextId)
    (attach : MainContext β → MainContext β × SourceId) : Progress β :=
  match w.context? c with
  | none => .reply w .missing
  | some context =>
    let (context, source) := attach context
    .reply (w.setContext c context) (.source source)

/-- The work of a source that runs a callback. -/
def callbackWork (once : Bool) (callback : β) : SourceWork β :=
  if once then .single callback else .repeating callback

/-- Removes a source that is attached. -/
def removeSource (w : World β) (c : ContextId) (source : SourceId) : Progress β :=
  match w.context? c with
  | none => .reply w .missing
  | some context =>
    if context.isPending source then .reply (w.setContext c (context.detach source)) .done
    else .reply w (.failed (.source (.invalidSource source)))

/-- Begins to carry out a command. -/
def perform (w : World β) : Command β → Progress β
  | .registerEnum name members => w.registered (w.registry.registerEnum name members)
  | .registerInterface name => w.registered (w.registry.registerInterface name)
  | .registerClass registration => w.registered (w.registry.registerClass registration)
  | .finalize builder => w.finalize builder
  | .construct construction => w.construct construction
  | .property i name => w.readProperty i name
  | .setProperty i name value => w.writeProperty i name value
  | .notify i name => w.notify i name
  | .setField i name value => w.writeField i name value
  | .dispose i => .reply (w.dispose i) .done
  | .connect i signal callback => w.connect i signal (.callback callback)
  | .connectNotify i property callback => w.connectNotify i property callback
  | .disconnect i handler => w.disconnect i handler
  | .emit i signal args => w.emit i signal args
  | .call i method args => w.call i method args
  | .newAction name options =>
    let (w, a) := w.addAction (.ofOptions name options)
    .reply w (.action (some a))
  | .enableAction a enabled =>
    .reply (w.modifyAction a fun action => { action with enabled }) .done
  | .setActionState a state => w.setActionState a state
  | .connectAction a callback =>
    let connect (action : Action β) : Action β :=
      { action with handlers := action.handlers ++ [.connected callback] }
    .reply (w.modifyAction a connect) .done
  | .activateAction a parameter => w.activateAction a parameter
  | .activate i name parameter => w.activate i name parameter
  | .attachAction i a => .reply (w.attachAction i a) .done
  | .setAccels i name accels => .reply (w.setAccels i name accels) .done
  | .newGroup =>
    let (w, g) := w.addGroup
    .reply w (.group g)
  | .ownGroup i =>
    match w.instance? i with
    | none => .reply w .missing
    | some x =>
      let (w, g) := w.ownGroup i x
      .reply w (.group g)
  | .insertGroup i qualifier g => .reply (w.insertGroup i qualifier g) .done
  | .addToGroup g a => w.addToGroup g a
  | .removeFromGroup g name =>
    .reply (w.modifyGroup g (·.erase name)) (.action ((w.group g).find? name))
  | .activateInGroup g name parameter => w.activateInGroup g name parameter
  | .newContext config =>
    let (w, c) := w.addContext config
    .reply w (.context c)
  | .addIdle c priority once callback =>
    w.addSource c (·.addIdle priority (callbackWork once callback))
  | .addTimeout c priority interval once callback =>
    w.addSource c (·.addTimeout priority interval (callbackWork once callback))
  | .removeSource c source => w.removeSource c source
  | .iterate c => w.iterate c
  | .runUntilIdle c => w.drain c 0
  | .advance c duration => w.advance c duration
  | .spawn c callback => .reply (w.modifyContext c (·.spawn callback none)) .done
  | .newLoop c =>
    let (w, l) := w.addLoop c
    .reply w (.loop l)
  | .runLoop l => w.runLoop l
  | .quitLoop l => .reply (w.setRunning l false) .done
  | .awaitEvent i resolve reject => w.awaitEvent i resolve reject
  | .pollEvent e =>
    let (w, outcome) := w.takeOutcome e
    .reply w (.outcome outcome)

end World

/-- Goes on with an operation. -/
def Frame.resume (w : World β) (frame : Frame β) (reply : Reply β) : Progress β :=
  match frame with
  | .reportChange i name => w.reportChange i name
  | .runEffect i property effect value => w.runEffect i property effect value
  | .finishWrite _ => .reply w .done
  | .orDefault _ default =>
    let found := match reply with
      | .returned outcome => outcome.value?
      | _ => none
    .reply w (.value (some (found.getD default)))
  | .emission e => e.resume w reply
  | .result _ =>
    let result := match reply with
      | .returned outcome => outcome.value?
      | _ => none
    .reply w (.value result)
  | .startInterval i method debounce callback =>
    .reply (w.restartBurst i method debounce callback) (.value none)
  | .activation a => a.next w
  | .letGo _ => .reply w reply
  | .constructing i properties => w.continueConstructing i properties reply
  | .initializing i hooks => w.continueInitializing i hooks
  | .readyEnd typeName => w.endReady typeName reply
  | .readySpawn c owner => w.spawnReady c owner reply
  | .sourceEnd c source mayStay => w.endSource c source mayStay reply
  | .iteration c ready worked => w.continueIteration c ready worked
  | .collect c polled => w.collect c polled
  | .pass p => p.resume w reply
  | .finishPass p => p.finish w
  | .drain c count => w.continueDrain c count reply
  | .advance c target count stage => w.continueAdvance c target count stage reply
  | .loop l => w.checkLoop l
  | .looped l => w.continueLoop l reply

end ObjectSystem
