import ObjectSystem.Machine.Frame

/-!
# Driving a context

Three operations repeat iterations: running until nothing is pending, advancing the clock, and
running a loop. A manual clock that is advanced steps to each deadline on its way, so that every
timeout runs at its deadline; the clock of the machine moves on by the whole time at once.
-/

namespace ObjectSystem.World

variable {β : Type}

/-- Iterates as long as something is pending; the reply is the number of iterations. -/
def drain (w : World β) (c : ContextId) (count : Nat) : Progress β :=
  match w.context? c with
  | none => .reply w .missing
  | some context =>
    if context.pending then .perform w (.iterate c) [.drain c count] else .reply w (.count count)

/-- An iteration has been made: one that did nothing ends the run. -/
def continueDrain (w : World β) (c : ContextId) (count : Nat) (reply : Reply β) : Progress β :=
  match reply with
  | .flag true => w.drain c (count + 1)
  | .flag false => .reply w (.count count)
  | _ => w.drain c count

/-- Sets the time of a clock. -/
def setTime (w : World β) (c : ContextId) (now : Nat) : World β :=
  w.modifyContext c fun context => { context with now }

/-- Begins to advance the clock. -/
def advance (w : World β) (c : ContextId) (duration : Nat) : Progress β :=
  match w.context? c with
  | none => .reply w .missing
  | some context =>
    let target := context.now + duration
    match context.config.clock with
    | .manual => .perform w (.runUntilIdle c) [.advance c target 0 .before]
    | .system => .perform (w.setTime c target) (.runUntilIdle c) []

/-- Puts the clock at its target and runs what is due there. -/
def reachTarget (w : World β) (c : ContextId) (target count : Nat) : Progress β :=
  .perform (w.setTime c target) (.runUntilIdle c) [.advance c target count .after]

/-- Steps to the next deadline up to the target; without one, the clock goes to its target. -/
def stepClock (w : World β) (c : ContextId) (target count : Nat) : Progress β :=
  match w.context? c with
  | none => .reply w .missing
  | some context =>
    match context.nextDeadline with
    | none => w.reachTarget c target count
    | some deadline =>
      if deadline > target then w.reachTarget c target count
      else
        .perform (w.setTime c (max context.now deadline)) (.runUntilIdle c)
          [.advance c target count .within]

/-- What was due has run, in so many iterations. A step of the clock at which nothing ran is the
last. -/
def continueAdvance (w : World β) (c : ContextId) (target count : Nat) (stage : AdvanceStage)
    (reply : Reply β) : Progress β :=
  let ran := match reply with
    | .count n => n
    | _ => 0
  match stage with
  | .before => w.stepClock c target (count + ran)
  | .within =>
    if ran = 0 then w.reachTarget c target count else w.stepClock c target (count + ran)
  | .after => .reply w (.count (count + ran))

/-- Begins to run a loop. -/
def runLoop (w : World β) (l : LoopId) : Progress β :=
  .proceed (w.setRunning l true) [.loop l]

/-- Ends the run of a loop. -/
def endLoop (w : World β) (l : LoopId) : Progress β :=
  .reply (w.setRunning l false) .done

/-- A loop makes an iteration unless it was told to quit. -/
def checkLoop (w : World β) (l : LoopId) : Progress β :=
  match w.loops.find? l with
  | none => .reply w .missing
  | some loop =>
    if loop.running then .perform w (.iterate loop.context) [.looped l] else w.endLoop l

/-- After an iteration that did nothing, a loop advances to the next deadline. Without one it goes
on only if something is pending. -/
def continueLoop (w : World β) (l : LoopId) (reply : Reply β) : Progress β :=
  match reply with
  | .flag true => w.checkLoop l
  | _ =>
    match w.loops.find? l with
    | none => .reply w .missing
    | some loop =>
      match w.context? loop.context with
      | none => .reply w .missing
      | some context =>
        match context.timeUntilNext with
        | some wait => .perform w (.advance loop.context wait) [.loop l]
        | none => if context.pending then w.checkLoop l else w.endLoop l

end ObjectSystem.World
