import ObjectSystem.Scenario.Session

/-!
# Scripts

A script is a piece of a callback: it may look at the world and the session, change the session,
have a command carried out, wait for an event, and pause. Scripts are sequenced as a monad, and
`Script.advance` runs one up to the next move that the machine has to make.
-/

namespace ObjectSystem.Scenario

/-- The world of a scenario. -/
abbrev ScenarioWorld := World CallbackId

/-- A piece of a callback that ends with something of type `α`. -/
inductive Script (α : Type) where
  | pure (a : α)
  /-- Looks at the world and the session. -/
  | look (rest : ScenarioWorld → Session → Script α)
  /-- Replaces the session. -/
  | put (session : Session) (rest : Script α)
  /-- Has a command carried out; the handles are kept meanwhile. -/
  | command (c : Command CallbackId) (held : List Handle)
      (rest : Reply CallbackId → Script α)
  | await (event : EventId) (rest : Reply CallbackId → Script α)
  | pause (rest : Script α)

namespace Script

variable {α β : Type}

/-- One script after another. -/
def bind (x : Script α) (f : α → Script β) : Script β :=
  match x with
  | .pure a => f a
  | .look rest => .look fun w s => (rest w s).bind f
  | .put session rest => .put session (rest.bind f)
  | .command c held rest => .command c held fun reply => (rest reply).bind f
  | .await event rest => .await event fun reply => (rest reply).bind f
  | .pause rest => .pause (rest.bind f)

instance : Monad Script where
  pure := .pure
  bind := .bind

/-- What is left of a waiting script, and the handles that it holds. -/
structure Waiting where
  held : List Handle
  rest : Reply CallbackId → Script (Outcome CallbackId)

/-- Runs a script up to its next move. -/
def advance (w : ScenarioWorld) (s : Session) :
    Script (Outcome CallbackId) → Session × Move CallbackId Waiting
  | .pure outcome => (s, .finish outcome)
  | .look rest => advance w s (rest w s)
  | .put session rest => advance w session rest
  | .command c held rest => (s, .command c ⟨held, rest⟩)
  | .await event rest => (s, .await event ⟨[], rest⟩)
  | .pause rest => (s, .pause ⟨[], fun _ => rest⟩)

end Script

end ObjectSystem.Scenario
