import ObjectSystem.Operation.Call

/-!
# Iterations

An iteration first makes a pass over the tasks, then collects the sources that are to run and runs
them one after the other. A source that is gone when its turn comes is passed over, and one that was
attached in the meantime is not among the collected. The iteration answers whether it did anything.
-/

namespace ObjectSystem.World

variable {β : Type}

/-- Begins an iteration. -/
def iterate (w : World β) (c : ContextId) : Progress β :=
  match w.context? c with
  | none => .reply w .missing
  | some context =>
    match context.beginPass with
    | some context => .proceed (w.setContext c context) [.pass { context := c }, .collect c true]
    | none => .proceed w [.collect c false]

/-- Collects the sources that this iteration runs. -/
def collect (w : World β) (c : ContextId) (polled : Bool) : Progress β :=
  match w.context? c with
  | none => .reply w .missing
  | some context =>
    let (context, ready) := context.collectReady
    .proceed (w.setContext c context) [.iteration c ready (polled || !ready.isEmpty)]

/-- Starts the ready hook of an instance that is still alive. It counts as started from now on. -/
def startReady (w : World β) (c : ContextId) (source : SourceId) (owner : InstanceId)
    (typeName : String) (hook : ReadyHook β) (frames : List (Frame β)) : Progress β :=
  if w.isAlive owner then
    let w := w.modifyInstance owner (·.untrackReady source)
    match hook with
    | .immediate callback =>
      .invoke w callback { role := .ready typeName, self := some owner }
        (.readyEnd typeName :: frames)
    | .deferred callback =>
      .invoke w callback { role := .readyTask typeName, self := some owner }
        (.readySpawn c ⟨owner, typeName⟩ :: frames)
  else .proceed w frames

/-- Starts the work of a source. -/
def startWork (w : World β) (c : ContextId) (source : SourceId) (work : SourceWork β)
    (frames : List (Frame β)) : Progress β :=
  match work with
  | .repeating callback => .invoke w callback { role := .source c source } frames
  | .single callback => .invoke w callback { role := .source c source } frames
  | .ready owner typeName hook => w.startReady c source owner typeName hook frames
  | .endOfBurst owner method trigger callback => w.endBurst owner method trigger callback frames

/-- Runs the next collected source; without one, the iteration ends. -/
def continueIteration (w : World β) (c : ContextId) (ready : List SourceId) (worked : Bool) :
    Progress β :=
  match ready with
  | [] => .reply w (.flag worked)
  | source :: rest =>
    let next := Frame.iteration c rest worked
    match (w.context? c).bind fun context => context.beginRun source with
    | none => .proceed w [next]
    | some (context, work) =>
      (w.setContext c context).startWork c source work [.sourceEnd c source work.mayStay, next]

/-- Settles what becomes of a source whose work has ended. -/
def endSource (w : World β) (c : ContextId) (source : SourceId) (mayStay : Bool) (reply : Reply β) :
    Progress β :=
  let stays := match reply with
    | .returned outcome => mayStay && outcome.stays
    | _ => false
  .proceed (w.modifyContext c (·.endRun source stays)) []

/-- Reports a ready hook that went wrong. -/
def endReady (w : World β) (typeName : String) (reply : Reply β) : Progress β :=
  let report := match reply with
    | .returned outcome => outcome.failure?.map fun text => { typeName, text }
    | _ => none
  { world := w, control := .deliver .proceed, report }

/-- Spawns the task that a ready hook yields, or reports that the hook went wrong. -/
def spawnReady (w : World β) (c : ContextId) (owner : ReadyOwner) (reply : Reply β) : Progress β :=
  match reply with
  | .returned (.task callback) => .proceed (w.modifyContext c (·.spawn callback (some owner))) []
  | reply => w.endReady owner.typeName reply

end ObjectSystem.World
