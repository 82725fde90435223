import ObjectSystem.MainContext.TimeoutQueue
import ObjectSystem.MainContext.Task

/-!
# Main contexts

A main context owns sources, tasks and a clock. This module holds its state and every change of it
that runs no callback: attaching and removing sources, collecting those that are due, marking one
as running and settling what becomes of it afterwards, and the bookkeeping around a pass over the
tasks.

`MainContext.pending` says whether an iteration would find anything to do.
-/

namespace ObjectSystem

/-- A single-threaded context. -/
structure MainContext (β : Type) where
  config : Config
  /-- The time of the clock, in milliseconds. -/
  now : Nat := 0
  /-- The attached sources, in order of attachment. -/
  sources : List (Source β) := []
  nextSource : Nat := 0
  queue : TimeoutQueue := {}
  /-- Tasks that no pass has taken in yet. -/
  spawned : List (Task β) := []
  /-- The set of tasks, while no pass has taken it. -/
  tasks : TaskSet β := {}
  /-- The sets that passes have taken, the innermost pass first. -/
  passes : List (TaskSet β) := []
  /-- Whether a task was woken since the last pass began. -/
  woken : Bool := false
  /-- The number of tasks that were spawned and have not been counted as finished. -/
  liveTasks : Nat := 0
  nextTask : Nat := 0
  deriving Repr

namespace MainContext

variable {β : Type}

/-! ### Sources -/

/-- Attaches a source. -/
def attach (c : MainContext β) (kind : SourceKind) (priority : Priority) (readyAt : Nat)
    (work : SourceWork β) : MainContext β × SourceId :=
  let id := SourceId.mk c.nextSource
  let source : Source β := { id, kind, priority, readyAt, work }
  ({ c with
      sources := c.sources ++ [source]
      nextSource := c.nextSource + 1
      queue := c.queue.enter source }, id)

/-- Attaches an idle source. -/
def addIdle (c : MainContext β) (priority : Priority) (work : SourceWork β) :
    MainContext β × SourceId :=
  c.attach .idle priority c.now work

/-- Attaches a timeout, which is first due when the interval has passed. -/
def addTimeout (c : MainContext β) (priority : Priority) (interval : Nat) (work : SourceWork β) :
    MainContext β × SourceId :=
  c.attach (.timeout interval) priority (c.now + interval) work

/-- The attached source of an identity. -/
def source? (c : MainContext β) (id : SourceId) : Option (Source β) :=
  c.sources.find? (·.id = id)

/-- Whether a source is attached. -/
def isPending (c : MainContext β) (id : SourceId) : Bool :=
  (c.source? id).isSome

/-- Removes a source, if it is attached. -/
def detach (c : MainContext β) (id : SourceId) : MainContext β :=
  { c with sources := c.sources.filter (·.id ≠ id) }

/-- Changes a source. -/
def modifySource (c : MainContext β) (id : SourceId) (f : Source β → Source β) : MainContext β :=
  { c with sources := c.sources.map fun s => if s.id = id then f s else s }

/-! ### Deadlines -/

/-- Whether an entry of the queue is out of date: its source is gone or due at another time. -/
def isStale (c : MainContext β) (e : TimeoutEntry) : Bool :=
  match c.source? e.id with
  | none => true
  | some s => s.readyAt ≠ e.readyAt

/-- The earliest deadline in the timeout queue. -/
def nextDeadline (c : MainContext β) : Option Nat :=
  (c.queue.first? c.isStale).map (·.readyAt)

/-- The time until the earliest deadline, zero if it has passed. -/
def timeUntilNext (c : MainContext β) : Option Nat :=
  c.nextDeadline.map (· - c.now)

/-- Whether a pass over the tasks would find one to poll. -/
def tasksReady (c : MainContext β) : Bool :=
  !c.spawned.isEmpty || c.woken

/-- Whether an iteration would find anything to do. -/
def pending (c : MainContext β) : Bool :=
  c.tasksReady || c.sources.any (·.isReadyIdle) ||
    (c.queue.first? c.isStale).any (·.readyAt ≤ c.now)

/-! ### Iterations -/

/-- The timeout that an entry of the queue stands for, if it may run. -/
def timeout? (c : MainContext β) (e : TimeoutEntry) : Option (Source β) :=
  (c.source? e.id).filter fun s => s.readyAt = e.readyAt && !s.running

/-- Takes the due timeouts out of the queue and lists what this iteration runs, in order. -/
def collectReady (c : MainContext β) : MainContext β × List SourceId :=
  let timeouts := (c.queue.due c.now).filterMap c.timeout?
  let ready := (timeouts ++ c.sources.filter (·.isReadyIdle)).mergeSort Source.runsBefore
  ({ c with queue := c.queue.afterDue c.now }, ready.map (·.id))

/-- Marks a source as running; nothing if it is gone or running already. -/
def beginRun (c : MainContext β) (id : SourceId) : Option (MainContext β × SourceWork β) :=
  match c.source? id with
  | none => none
  | some s =>
    if s.running then none
    else some (c.modifySource id fun s => { s with running := true }, s.work)

/-- A source that has run and stays; a timeout is due again an interval from now. -/
def rearm (now : Nat) (s : Source β) : Source β :=
  match s.kind with
  | .idle => { s with running := false }
  | .timeout interval => { s with running := false, readyAt := now + interval }

/-- Settles what becomes of a source that has run. A timeout that stays enters the queue again. -/
def endRun (c : MainContext β) (id : SourceId) (stays : Bool) : MainContext β :=
  if stays then
    let queue := match c.source? id with
      | none => c.queue
      | some s => c.queue.enter (rearm c.now s)
    { c.modifySource id (rearm c.now) with queue }
  else c.detach id

/-! ### Tasks -/

/-- Spawns a task; it is polled in the next iteration. -/
def spawn (c : MainContext β) (callback : β) (owner : Option ReadyOwner) : MainContext β :=
  let task : Task β := { id := ⟨c.nextTask⟩, callback, owner }
  { c with
    spawned := c.spawned ++ [task]
    liveTasks := c.liveTasks + 1
    nextTask := c.nextTask + 1 }

/-- Begins a pass over the tasks, if one was spawned or woken. The pass takes the set and the
spawned tasks with it. -/
def beginPass (c : MainContext β) : Option (MainContext β) :=
  if c.tasksReady then
    some { c with spawned := [], woken := false, tasks := {},
                  passes := c.tasks.extend c.spawned :: c.passes }
  else none

/-- Changes the set of the innermost pass. -/
def modifyPass (c : MainContext β) (f : TaskSet β → TaskSet β) : MainContext β :=
  match c.passes with
  | [] => c
  | set :: rest => { c with passes := f set :: rest }

/-- The set of the innermost pass. -/
def passTasks (c : MainContext β) : TaskSet β :=
  c.passes.headD {}

/-- Drops a task of the set that no pass has taken. -/
def dropTask (c : MainContext β) (id : TaskId) : MainContext β :=
  { c with tasks := c.tasks.remove id }

/-- Ends the innermost pass: its set becomes the set of the context, in place of the one there, and
the tasks it finished are no longer counted. -/
def endPass (c : MainContext β) (finished : Nat) : MainContext β :=
  { c with tasks := c.passTasks, passes := c.passes.drop 1, liveTasks := c.liveTasks - finished }

/-- Asks for another pass. -/
def requestPass (c : MainContext β) : MainContext β :=
  { c with woken := true }

/-- Wakes a task in the first of some sets that has it. -/
def wakeIn (id : TaskId) : List (TaskSet β) → List (TaskSet β) × Bool
  | [] => ([], false)
  | set :: rest =>
    if set.contains id then
      let (set, told) := set.wake id
      (set :: rest, told)
    else
      let (rest, told) := wakeIn id rest
      (set :: rest, told)

/-- Wakes a task that waits, wherever its set is. -/
def wake (c : MainContext β) (id : TaskId) : MainContext β :=
  if c.tasks.contains id then
    let (tasks, told) := c.tasks.wake id
    { c with tasks, woken := c.woken || told }
  else
    let (passes, told) := wakeIn id c.passes
    { c with passes, woken := c.woken || told }

/-- Every unfinished task that the context holds, in the order in which it lets go of them: of a set
the last that entered it first, then those that no pass has taken. -/
def heldTasks (c : MainContext β) : List (Task β) :=
  (c.tasks :: c.passes).flatMap (·.tasks.reverse) ++ c.spawned

end MainContext

/-- A loop that drives a context. -/
structure MainLoop where
  context : ContextId
  running : Bool := false
  deriving Repr

end ObjectSystem
