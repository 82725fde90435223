import ObjectSystem.Scenario.Perform

/-!
# Playing a scenario

`Scenario.client` makes a client of a scenario: each of its callbacks logs that it was called,
carries out the steps of its body, and ends the way its purpose asks for. `Scenario.play` runs a
scenario on the machine and collects the answers of its steps.
-/

namespace ObjectSystem.Scenario

namespace Script

/-! ### Access -/

/-- Changes the session. -/
def modifySession (f : Session → Session) : Script Unit :=
  .look fun _ s => .put (f s) (.pure ())

/-- Adds a line to the log. -/
def log (entry : Entry) : Script Unit :=
  modifySession (·.logged entry)

/-- The answer of a step, whether it ended early or not. -/
def report (x : Run Report) : Script Report := do
  match ← x.run with
  | .ok r => pure r
  | .error r => pure r

/-! ### Callbacks -/

/-- Carries out the steps of a body and logs what each of them answers. What a step held is let go
of before the next one begins. -/
def steps (env : Env) (tag : Option String) : List (Step Body) → Script Unit
  | [] => pure ()
  | step :: rest => do
    let r ← report (Run.perform { env with wrap := step.wrap } step.op)
    log (.answered tag r)
    .pause (steps env tag rest)

/-- One call of a body: it is logged and counted, and the steps are carried out unless the body has
reached its limit. The result is the number of this call, the first being 1. -/
def call (id : CallbackId) (c : Callback) (invocation : Invocation) (env : Env) : Script Nat := do
  let body := c.body.content
  let number := c.calls + 1
  .look fun w s =>
    let entry := Entry.called body.tag (invocation.self.map w.shown)
      (invocation.args.map (Report.value w))
    .put ((s.countCall id).logged entry) (.pure ())
  if body.limit.all (number ≤ ·) then steps env body.tag body.steps
  pure number

/-- The value that a body returns; a failing expression yields none. -/
def result (env : Env) (body : BodyOf Body) : Script (Option Value) := do
  match ← (Run.optional env [] body.result).run with
  | .ok v => pure v
  | .error _ => pure none

/-- How a ready hook ends. -/
def readyOutcome : ReadyEnd → Outcome CallbackId
  | .well => .value none
  | .failure text => .failure text
  | .panic payload _ => .panic payload

/-- Whether a callback is run as a task. -/
def isTask : Role → Bool
  | .task _ _ => true
  | _ => false

/-- One run of a callback, from its call to its outcome. -/
def callback (id : CallbackId) (c : Callback) (invocation : Invocation) :
    Script (Outcome CallbackId) := do
  let body := c.body.content
  let env : Env :=
    { self := invocation.self, action := invocation.action, args := invocation.args
      inTask := isTask invocation.role }
  match c.purpose with
  | .program => pure (.value none)
  | .plain returns => do
    let _ ← call id c invocation env
    if returns then .value <$> result env body else pure (.value none)
  | .source runs => do
    let number ← call id c invocation env
    pure (.flow (runs = 0 ∨ number < runs))
  | .ready => do
    let _ ← call id c invocation env
    pure (readyOutcome body.readyEnd)
  | .readyTask task =>
    match body.readyEnd with
    | .panic payload true => pure (.panic payload)
    | _ => pure (.task task)

/-! ### The scenario itself -/

/-- The steps of the scenario. -/
def program : List (Step Body) → Script Unit
  | [] => pure ()
  | step :: rest => do
    let r ← report (Run.perform { wrap := step.wrap } step.op)
    modifySession (·.answered r)
    .pause (program rest)

/-- A scenario begins with one context, whose clock only moves when it is told to. -/
def scenario (steps : List (Step Body)) : Script (Outcome CallbackId) := do
  let _ ← report (Run.newContext {} { clock := .manual } Run.mainLabel)
  program steps
  pure (.value none)

/-- The script of a callback. -/
def ofInvocation (s : Session) (id : CallbackId) (invocation : Invocation) :
    Script (Outcome CallbackId) :=
  match s.callbacks.find? id with
  | none => pure (.value none)
  | some c =>
    match c.purpose with
    | .program => scenario c.body.content.steps
    | _ => callback id c invocation

end Script

/-! ### The client -/

/-- The client whose callbacks are those of a scenario. -/
def client : Client Session CallbackId Script.Waiting where
  start _ s id invocation := (s, ⟨[], fun _ => Script.ofInvocation s id invocation⟩)
  resume w s rest reply := Script.advance w s (rest.rest reply)
  report s failure := s.logged (.readyFailed failure.typeName failure.text)
  keeps := Session.handles
  holds := (·.held)

/-- The state in which a scenario begins. -/
def start (steps : List (Step Body)) : Machine Session CallbackId Script.Waiting :=
  let (session, id) := Session.addCallback {} (.mk { steps }) .program
  .initial session id

/-- Plays a scenario for no more than the given number of moves; the answers of the steps that have
been carried out. -/
def play (fuel : Nat) (steps : List (Step Body)) : List Answer :=
  ((start steps).run client fuel).client.answers

end ObjectSystem.Scenario
