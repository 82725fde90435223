import ObjectSystem.Identity

/-!
# Sets of tasks

A task is a callback that may wait for an event in the middle. The tasks of a context form a set
with a queue: a task is polled when its turn in the queue comes, enters the queue when it is put
into the set and again when the event it waits for is settled, and stands in the queue at most
once.

The set *listens* from the start of a poll until the first task is woken; only then does waking a
task raise the flag of the context.
-/

namespace ObjectSystem

/-- The level of an instance's class whose ready hook a task carries out. -/
structure ReadyOwner where
  target : InstanceId
  typeName : String
  deriving Repr, DecidableEq

/-- A spawned task that has not finished. -/
structure Task (β : Type) where
  id : TaskId
  callback : β
  owner : Option ReadyOwner := none
  started : Bool := false
  /-- The event that a suspended task waits for. -/
  awaits : Option EventId := none
  deriving Repr

/-- A set of unfinished tasks. -/
structure TaskSet (β : Type) where
  /-- The tasks, in the order in which they entered the set. -/
  tasks : List (Task β) := []
  /-- The tasks to be polled, in order. -/
  queue : List TaskId := []
  listening : Bool := false
  deriving Repr

namespace TaskSet

variable {β : Type}

/-- The task of an identity. -/
def find? (set : TaskSet β) (id : TaskId) : Option (Task β) :=
  set.tasks.find? (·.id = id)

/-- Whether a task is in the set. -/
def contains (set : TaskSet β) (id : TaskId) : Bool :=
  (set.find? id).isSome

/-- Puts new tasks into the set, each to be polled. -/
def extend (set : TaskSet β) (tasks : List (Task β)) : TaskSet β :=
  { set with tasks := set.tasks ++ tasks, queue := set.queue ++ tasks.map (·.id) }

/-- Changes a task. -/
def modify (set : TaskSet β) (id : TaskId) (f : Task β → Task β) : TaskSet β :=
  { set with tasks := set.tasks.map fun task => if task.id = id then f task else task }

/-- Removes a finished task. -/
def remove (set : TaskSet β) (id : TaskId) : TaskSet β :=
  { set with tasks := set.tasks.filter (·.id ≠ id) }

/-- Moves a task to the end of the set. -/
def reenter (set : TaskSet β) (id : TaskId) : TaskSet β :=
  { set with tasks := set.tasks.filter (·.id ≠ id) ++ set.tasks.filter (·.id = id) }

/-- Starts to listen for tasks that are woken. -/
def listen (set : TaskSet β) : TaskSet β :=
  { set with listening := true }

/-- Takes the next task to be polled out of the queue; entries of finished tasks are passed over. -/
def dequeue (set : TaskSet β) : Option (Task β) × TaskSet β :=
  let rec go : List TaskId → Option (Task β) × List TaskId
    | [] => (none, [])
    | id :: rest =>
      match set.find? id with
      | some task => (some task, rest)
      | none => go rest
  let (task?, queue) := go set.queue
  (task?, { set with queue })

/-- Wakes a task of the set; the flag tells whether the context is told. -/
def wake (set : TaskSet β) (id : TaskId) : TaskSet β × Bool :=
  if id ∈ set.queue then (set, false)
  else ({ set with queue := set.queue ++ [id], listening := false }, set.listening)

end TaskSet

end ObjectSystem
