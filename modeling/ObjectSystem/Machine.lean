import ObjectSystem.Operation.Perform
import ObjectSystem.World.Reclaim

/-!
# The machine

A *client* is whoever declares classes, connects handlers and spawns tasks. Its callbacks are
coroutines: they are started, issue commands one at a time, and end with an outcome. A callback
sees the whole world, has a state that all callbacks of the client share, and can behave in any way
at all; a statement that holds for every client therefore holds for every behaviour of callbacks.

The machine runs a client: a stack holds the callbacks and operations in progress, the innermost on
top, and `step` makes one move. It is a total function; a run is its repetition. After each move,
instances that nothing keeps are dropped.
-/

namespace ObjectSystem

/-! ### Clients -/

/-- What a callback does next. -/
inductive Move (β κ : Type) where
  | finish (outcome : Outcome β)
  /-- Has a command carried out and waits for the reply. -/
  | command (command : Command β) (rest : κ)
  /-- Waits for an event; only tasks can. -/
  | await (event : EventId) (rest : κ)
  /-- Lets go of what it no longer holds and goes on. -/
  | pause (rest : κ)

/-- The callbacks of a program: `σ` is the state they share, `β` names them and `κ` is what is left
of one that waits. -/
structure Client (σ β κ : Type) where
  /-- Starts a callback. -/
  start : World β → σ → β → Invocation → σ × κ
  /-- Goes on with a callback when it gets a reply. -/
  resume : World β → σ → κ → Reply β → σ × Move β κ
  /-- Hears about a ready hook that went wrong. -/
  report : σ → ReadyFailure → σ
  /-- The handles in the shared state. -/
  keeps : σ → List Handle
  /-- The handles that a waiting callback holds besides those of its invocation. -/
  holds : κ → List Handle

/-! ### States -/

/-- A place on the stack. -/
inductive Layer (β κ : Type) where
  /-- A callback that waits for a reply. -/
  | callback (rest : κ) (invocation : Invocation)
  /-- An operation of the library that waits for a reply. -/
  | operation (frame : Frame β)

/-- A task in the middle of its callback. -/
structure Suspended (κ : Type) where
  context : ContextId
  task : TaskId
  rest : κ
  invocation : Invocation

/-- A state of the machine. -/
structure Machine (σ β κ : Type) where
  world : World β
  client : σ
  stack : List (Layer β κ)
  suspended : List (Suspended κ) := []
  control : Control β

namespace Machine

variable {σ β κ : Type}

/-- The handles of a place on the stack. -/
def layerHandles (client : Client σ β κ) : Layer β κ → List Handle
  | .callback rest invocation => client.holds rest ++ invocation.handles
  | .operation frame => frame.handles

/-- The events that a place on the stack could still settle. -/
def layerEvents : Layer β κ → List EventId
  | .callback _ _ => []
  | .operation frame => frame.events

/-- Whether a suspended task is still held by a context that is kept. -/
def isHeld (w : World β) (contexts : List ContextId) (s : Suspended κ) : Bool :=
  s.context ∈ contexts &&
    match w.context? s.context with
    | some context => context.heldTasks.any (·.id = s.task)
    | none => false

/-- Every handle in a state: of its shared part, what happens next, its stack, and the suspended
tasks of kept contexts, those that were suspended last first. -/
def handles (client : Client σ β κ) (m : Machine σ β κ) : List Handle :=
  let base := client.keeps m.client ++ m.control.handles ++ m.stack.flatMap (layerHandles client)
  let contexts := m.world.keptContexts base
  let held := m.suspended.filter (isHeld m.world contexts)
  base ++ held.reverse.flatMap fun s => client.holds s.rest ++ s.invocation.handles

/-- Abandons events that no handler is left for and drops instances that nothing keeps any more. The
state before the move tells which references may have been let go of: those of its handles, then
those that live instances have lost. -/
def reclaimOnce (client : Client σ β κ) (before m : Machine σ β κ) : Machine σ β κ :=
  let handles := m.handles client
  let events := m.stack.flatMap layerEvents
  let w := m.world.abandonEvents events
  match w.firstUnkept handles with
  | none => { m with world := w }
  | some _ =>
    let held := (before.handles client).flatMap before.world.targets
    { m with world := w.dropUnkept handles events (held ++ before.world.lostTargets m.world) }

/-- Whether nothing is to be reclaimed: every open event has a handler left, and every instance is
kept. -/
def isTidy (client : Client σ β κ) (m : Machine σ β κ) : Bool :=
  (m.world.lostEvents (m.stack.flatMap layerEvents)).isEmpty &&
    (m.world.firstUnkept (m.handles client)).isNone

/-- Reclaims in a number of rounds, or until nothing is left to be reclaimed. -/
def reclaimWithin (client : Client σ β κ) :
    Nat → Machine σ β κ → Machine σ β κ → Machine σ β κ
  | 0, _, m => m
  | rounds + 1, before, m =>
    if m.isTidy client then m else reclaimWithin client rounds m (reclaimOnce client before m)

/-- Reclaims until nothing is left to be reclaimed. An instance that is dropped may have been the
last to keep a context, and with it tasks that hold more. Every round settles an event or drops an
instance, which bounds their number. -/
def reclaim (client : Client σ β κ) (before m : Machine σ β κ) : Machine σ β κ :=
  reclaimWithin client (m.world.openEvents.length + m.world.instances.entries.length) before m

/-! ### Moves -/

/-- Takes over what one step of an operation leads to. -/
def follow (client : Client σ β κ) (m : Machine σ β κ) (stack : List (Layer β κ))
    (progress : Progress β) : Machine σ β κ :=
  { m with
    world := progress.world
    client := match progress.report with
      | some failure => client.report m.client failure
      | none => m.client
    stack := progress.frames.map .operation ++ stack
    control := progress.control }

/-- A task waits for an event: if there is no outcome yet, it is suspended until there is one. -/
def awaitEvent (m : Machine σ β κ) (stack : List (Layer β κ)) (event : EventId) (rest : κ)
    (invocation : Invocation) : Machine σ β κ :=
  let goOn (w : World β) (outcome : Option EventOutcome) : Machine σ β κ :=
    { m with world := w, stack := .callback rest invocation :: stack,
             control := .deliver (.outcome outcome) }
  match invocation.role with
  | .task context task =>
    match m.world.takeOutcome event with
    | (w, some outcome) => goOn w (some outcome)
    | (w, none) =>
      let waiter : Waiter := { context, task }
      let w := { w with events := w.events.modify event fun e => { e with waiter := some waiter } }
      let w := w.modifyContext context fun context =>
        context.modifyPass (·.modify task fun task => { task with awaits := some event })
      { m with world := w, stack, control := .deliver .suspended,
               suspended := m.suspended ++ [{ context, task, rest, invocation }] }
  | _ => goOn m.world none

/-- A callback makes its move. -/
def move (m : Machine σ β κ) (stack : List (Layer β κ)) (invocation : Invocation) :
    Move β κ → Machine σ β κ
  | .finish outcome => { m with stack, control := .deliver (.returned outcome) }
  | .command command rest =>
    { m with stack := .callback rest invocation :: stack, control := .perform command }
  | .await event rest => m.awaitEvent stack event rest invocation
  | .pause rest =>
    { m with stack := .callback rest invocation :: stack, control := .deliver .proceed }

/-- A suspended task goes on. -/
def continueTask (m : Machine σ β κ) (context : ContextId) (task : TaskId)
    (outcome : EventOutcome) : Machine σ β κ :=
  let isTask (s : Suspended κ) : Bool := s.context = context ∧ s.task = task
  match m.suspended.find? isTask with
  | none => { m with control := .deliver .suspended }
  | some s =>
    { m with
      stack := .callback s.rest s.invocation :: m.stack
      suspended := m.suspended.filter fun s => !isTask s
      control := .deliver (.outcome (some outcome)) }

/-- The next state, before instances are dropped. -/
def advance (client : Client σ β κ) (m : Machine σ β κ) : Machine σ β κ :=
  match m.control with
  | .perform command => m.follow client m.stack (m.world.perform command)
  | .invoke callback invocation =>
    let (state, rest) := client.start m.world m.client callback invocation
    { m with client := state, stack := .callback rest invocation :: m.stack,
             control := .deliver .proceed }
  | .continueTask context task outcome => m.continueTask context task outcome
  | .deliver reply =>
    match m.stack with
    | [] => m
    | .callback rest invocation :: stack =>
      let (state, next) := client.resume m.world m.client rest reply
      { m with client := state }.move stack invocation next
    | .operation frame :: stack => m.follow client stack (frame.resume m.world reply)

/-- Makes one move. -/
def step (client : Client σ β κ) (m : Machine σ β κ) : Machine σ β κ :=
  reclaim client m (m.advance client)

/-- Whether the program has ended: nothing is in progress any more. -/
def isDone (m : Machine σ β κ) : Bool :=
  m.stack.isEmpty && match m.control with
    | .deliver _ => true
    | _ => false

/-- The state in which a program begins: an empty world and a callback about to start. -/
def initial (state : σ) (callback : β) : Machine σ β κ :=
  { world := {}, client := state, stack := [], control := .invoke callback { role := .program } }

/-- Runs until the program has ended, but for no more than the given number of moves. -/
def run (client : Client σ β κ) : Nat → Machine σ β κ → Machine σ β κ
  | 0, m => m
  | fuel + 1, m => if m.isDone then m else run client fuel (m.step client)

/-- Whether a state occurs in some run of a client. -/
inductive Reachable (client : Client σ β κ) : Machine σ β κ → Prop where
  | initial (state : σ) (callback : β) : Reachable client (.initial state callback)
  | step {m : Machine σ β κ} : Reachable client m → Reachable client (m.step client)

end Machine

end ObjectSystem
