import ObjectSystem.Machine.Frame

/-!
# Passes over tasks

A pass polls the tasks in the queue of its set, first come first served. It goes in rounds: a round
begins by noting how many tasks are unfinished, and a task that finishes ends the round. The pass
ends when the queue is empty, or when as many tasks of one round wait as there were at its
beginning; in that case another pass is asked for.

What a finished task held is let go of before the next round, so a task that waited for it is
polled in the same pass.
-/

namespace ObjectSystem

variable {β : Type}

namespace Pass

/-- Ends a pass. The tasks that nested passes left unfinished are dropped before, one at a time, the
one that entered its set last first. -/
def finish (w : World β) (p : Pass) : Progress β :=
  match (w.context? p.context).bind fun context => context.tasks.tasks.getLast? with
  | none => .reply (w.modifyContext p.context (·.endPass p.finished)) .proceed
  | some task => .proceed (w.modifyContext p.context (·.dropTask task.id)) [.finishPass p]

/-- Polls the next task of the queue; without one, the pass ends. A task that waits for an event
without an outcome keeps waiting. -/
def pollNext (w : World β) (p : Pass) : Progress β :=
  match w.context? p.context with
  | none => .reply w .missing
  | some context =>
    let (task?, set) := context.passTasks.dequeue
    let w := w.setContext p.context (context.modifyPass fun _ => set)
    match task? with
    | none => p.finish w
    | some task =>
      let frames := [Frame.pass { p with current := some task.id }]
      match task.awaits with
      | none =>
        let w := w.modifyContext p.context fun context =>
          context.modifyPass (·.modify task.id fun task => { task with started := true })
        let self := task.owner.map (·.target)
        .invoke w task.callback { role := .task p.context task.id, self } frames
      | some event =>
        match w.takeOutcome event with
        | (w, some outcome) =>
          let w := w.modifyContext p.context fun context =>
            context.modifyPass (·.modify task.id fun task => { task with awaits := none })
          { world := w, control := .continueTask p.context task.id outcome, frames }
        | (w, none) => { world := w, control := .deliver .suspended, frames }

/-- Begins a round. -/
def beginRound (w : World β) (p : Pass) : Progress β :=
  let w := w.modifyContext p.context fun context => context.modifyPass TaskSet.listen
  let limit := ((w.context? p.context).map fun context => context.passTasks.tasks.length).getD 0
  Pass.pollNext w { p with limit, waiting := 0, current := none }

/-- The task that is polled has finished. If it carried out a ready hook, a failure is reported. -/
def taskFinished (w : World β) (p : Pass) (outcome : Outcome β) : Progress β :=
  match p.current with
  | none => p.beginRound w
  | some id =>
    let task := (w.context? p.context).bind fun context => context.passTasks.find? id
    let owner := task.bind (·.owner)
    let report := owner.bind fun owner =>
      outcome.failure?.map fun text => { typeName := owner.typeName, text }
    let w := w.modifyContext p.context fun context => context.modifyPass (·.remove id)
    let p := { p with finished := p.finished + 1, current := none }
    { world := w, control := .deliver .proceed, frames := [.pass p], report }

/-- The task that is polled waits; it enters its set anew. -/
def taskWaits (w : World β) (p : Pass) : Progress β :=
  let w := match p.current with
    | none => w
    | some id => w.modifyContext p.context fun context => context.modifyPass (·.reenter id)
  let p := { p with waiting := p.waiting + 1, current := none }
  if p.waiting = p.limit then p.finish (w.modifyContext p.context MainContext.requestPass)
  else p.pollNext w

/-- Goes on with a pass. -/
def resume (w : World β) (p : Pass) (reply : Reply β) : Progress β :=
  match reply with
  | .returned outcome => p.taskFinished w outcome
  | .suspended => p.taskWaits w
  | _ => p.beginRound w

end Pass

end ObjectSystem
