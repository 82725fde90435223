import ObjectSystem.Machine
import ObjectSystem.Scenario.Op
import ObjectSystem.Scenario.Report

/-!
# Sessions

A session is what the callbacks of a scenario share: which label stands for what, which callbacks
were made and how often each was called, and what was logged and answered so far.
-/

namespace ObjectSystem.Scenario

/-- Names a callback of a scenario. -/
structure CallbackId where
  number : Nat
  deriving Repr, DecidableEq

/-- What a callback of a scenario is for; this decides how its end is reported. -/
inductive Purpose where
  /-- The scenario itself. -/
  | program
  /-- A callback that is done when its steps are done; some may return a value. -/
  | plain (returns : Bool)
  /-- The callback of a source, with the run that is the last (0 for none). -/
  | source (runs : Nat)
  /-- A ready hook, or the task that one yields. -/
  | ready
  /-- A ready hook that yields a task. -/
  | readyTask (task : CallbackId)
  deriving Repr

/-- A callback of a scenario. -/
structure Callback where
  body : Body
  purpose : Purpose
  /-- How often it was called. -/
  calls : Nat := 0

/-- A line of the log. -/
inductive Entry where
  /-- A callback was called. -/
  | called (tag : Option String) (self : Option String) (args : List Report)
  /-- A callback has carried out a step. -/
  | answered (tag : Option String) (report : Report)
  /-- A ready hook went wrong. -/
  | readyFailed (typeName text : String)
  deriving Repr

/-- The answer of a step of the scenario and what was logged meanwhile. -/
structure Answer where
  report : Report
  log : List Entry
  deriving Repr

/-- What the callbacks of a scenario share. -/
structure Session where
  callbacks : Table CallbackId Callback := .empty
  contexts : NameTable ContextId := .empty
  loops : NameTable LoopId := .empty
  classes : NameTable (Class CallbackId) := .empty
  instances : NameTable InstanceId := .empty
  /-- Instances that are not kept alive, under every label that one was constructed with. -/
  weak : NameTable InstanceId := .empty
  handlers : NameTable HandlerId := .empty
  sources : NameTable SourceId := .empty
  futures : NameTable EventId := .empty
  actions : NameTable ActionId := .empty
  groups : NameTable GroupId := .empty
  log : List Entry := []
  answers : List Answer := []

namespace Session

/-- Makes a callback. -/
def addCallback (s : Session) (body : Body) (purpose : Purpose) : Session × CallbackId :=
  let id := CallbackId.mk s.callbacks.entries.length
  ({ s with callbacks := s.callbacks.add id { body, purpose } }, id)

/-- Counts a call of a callback. -/
def countCall (s : Session) (id : CallbackId) : Session :=
  { s with callbacks := s.callbacks.modify id fun c => { c with calls := c.calls + 1 } }

/-- Adds a line to the log. -/
def logged (s : Session) (entry : Entry) : Session :=
  { s with log := s.log ++ [entry] }

/-- Closes the log of a step with its answer. -/
def answered (s : Session) (report : Report) : Session :=
  { s with answers := s.answers ++ [{ report, log := s.log }], log := [] }

/-- The strong handles behind the labels. A label of a loop keeps the loop's context, and a class
keeps what the states of its declared actions refer to. -/
def handles (s : Session) : List Handle :=
  s.instances.values.map .object ++ s.contexts.values.map .context ++ s.loops.values.map .loop ++
    s.actions.values.map .action ++ s.groups.values.map .group ++ s.futures.values.map .event ++
    s.classes.values.flatMap Class.handles

end Session

end ObjectSystem.Scenario
