import ObjectSystem.Machine.Frame

/-!
# Emissions

An emission notes the handlers that match when it begins and gives each of them a turn, in order of
connection. A handler that was disconnected in the meantime is passed over. What the handlers return
is accumulated, and the accumulator may end the emission early. One step gives one handler its turn.
-/

namespace ObjectSystem

variable {β : Type}

namespace World

/-- The emission of a signal, from an admitted instance: the matching handlers are noted. -/
def emissionOf (w : World β) (i : InstanceId) (signal : String) (detail : Option String)
    (args : List Value) (accumulator : Accumulator) : Emission β :=
  let handlers := match w.instance? i with
    | some x => x.handlersOf signal detail
    | none => []
  { owner := i, args, accumulator, remaining := handlers }

/-- The emission that reports the change of a property under its canonical name. -/
def changeEmission (w : World β) (i : InstanceId) (canonical : String) : Emission β :=
  w.emissionOf i notifySignal (some canonical) [.string canonical] SignalSpec.notify.accumulator

/-- Emits a signal. The signal must exist, take the detail and carry arguments of these types. -/
def emit (w : World β) (i : InstanceId) (detailed : String) (args : List Value) : Progress β :=
  match w.instance? i with
  | none => .reply w .missing
  | some x =>
    let (signal, detail) := Name.splitDetail detailed
    match x.resolveSignal signal detail with
    | .error e => .reply w (.failed (.signal e))
    | .ok spec =>
      match checkArguments w.isA signal spec args with
      | .error e => .reply w (.failed (.signal e))
      | .ok _ =>
        let detail := Instance.detailKey signal detail
        .proceed w [.emission (w.emissionOf i signal detail args spec.accumulator)]

/-- Whether a handler of an instance is connected. -/
def isConnected (w : World β) (i : InstanceId) (h : HandlerId) : Bool :=
  match w.instance? i with
  | some x => x.isConnected h
  | none => false

end World

namespace Emission

/-- The name of the changed property that a change handler is told. -/
def changedName (args : List Value) : String :=
  (args.head?.bind Value.asString?).getD ""

/-- Gives the next handler its turn; without one, the emission ends with its result. -/
def next (w : World β) (e : Emission β) : Progress β :=
  match e.remaining with
  | [] => .reply w (.value e.result)
  | h :: rest =>
    let e := { e with remaining := rest }
    let role := Role.handler h.id
    if w.isConnected e.owner h.id then
      match h.target with
      | .callback callback =>
        .invoke w callback { role, self := some e.owner, args := e.args }
          [.emission { e with heeded := true }]
      | .change callback =>
        .invoke w callback { role, self := some e.owner, args := [.string (changedName e.args)] }
          [.emission { e with heeded := false }]
      | .resolves event => .proceed (w.settle event (.ok e.args)) [.emission e]
      | .rejects event signal =>
        .proceed (w.settle event (.error (.rejected signal e.args))) [.emission e]
    else .proceed w [.emission e]

/-- Takes the result of the handler that has run and goes on, unless the accumulator ends the
emission. -/
def resume (w : World β) (e : Emission β) (reply : Reply β) : Progress β :=
  match reply with
  | .returned outcome =>
    let result := if e.heeded then outcome.value? else none
    let (result, ended) := e.accumulator.accumulate e.result result
    if ended then .reply w (.value result) else Emission.next w { e with result }
  | _ => Emission.next w e

end Emission

namespace World

/-- Connects a handler to a signal, which may be named with a detail. -/
def connect (w : World β) (i : InstanceId) (signal : String) (target : HandlerTarget β) :
    Progress β :=
  match w.instance? i with
  | none => .reply w .missing
  | some x =>
    match x.connect signal target with
    | .error e => .reply w (.failed (.signal e))
    | .ok (x, h) => .reply (w.modifyInstance i fun _ => x) (.handler h)

/-- Connects a handler to the changes of one property, or of all. -/
def connectNotify (w : World β) (i : InstanceId) (property : Option String) (callback : β) :
    Progress β :=
  let signal := match property with
    | some property => notifySignal ++ "::" ++ property
    | none => notifySignal
  w.connect i signal (.change callback)

/-- Disconnects a handler. -/
def disconnect (w : World β) (i : InstanceId) (h : HandlerId) : Progress β :=
  if w.isConnected i h then .reply (w.modifyInstance i (·.disconnect h)) .done
  else .reply w (.failed (.signal (.invalidHandler h)))

/-- Connects the handlers that settle an event: one that resolves it and, if asked for, one that
rejects it. Both signals must be there before anything is connected for good. -/
def connectEvent (x : Instance β) (event : EventId) (resolve : String) (reject : Option String) :
    Except SignalError (Instance β × List HandlerId) := do
  let (x, resolver) ← x.connect resolve (.resolves event)
  match reject with
  | none => return (x, [resolver])
  | some reject =>
    let (x, rejecter) ← x.connect reject (.rejects event reject)
    return (x, [resolver, rejecter])

/-- Awaits the first emission of one of two signals. -/
def awaitEvent (w : World β) (i : InstanceId) (resolve : String) (reject : Option String) :
    Progress β :=
  match w.instance? i with
  | none => .reply w .missing
  | some x =>
    let (next, event) := w.addEvent { owner := i, handlers := [] }
    match connectEvent x event resolve reject with
    | .error e => .reply w (.failed (.signal e))
    | .ok (x, handlers) =>
      let w := next.modifyInstance i fun _ => x
      .reply { w with events := w.events.set event { owner := i, handlers } } (.event event)

end World

end ObjectSystem
