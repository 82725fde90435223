import ObjectSystem.Machine.Frame

/-!
# Calling methods

A method that is not debounced runs at once. A call of a debounced one runs it only if it is the
first of a burst and the trigger is a leading one; in any case it starts the interval anew
afterwards. When the interval has passed the timer ends the burst and runs the call that waits.
-/

namespace ObjectSystem.World

variable {β : Type}

/-- Calls a method of an instance that is not disposed. -/
def call (w : World β) (i : InstanceId) (name : String) (args : List Value) : Progress β :=
  match w.instance? i with
  | none => .reply w .missing
  | some x =>
    if x.disposed then .reply w (.failed (.method (.disposed (w.shown i) name)))
    else match x.ofClass.findMethod? name with
      | none => .reply w (.failed (.method (.unknownMethod x.typeName name)))
      | some ⟨callback, none⟩ =>
        .invoke w callback { role := .method name, self := some i, args } [.result i]
      | some ⟨callback, some debounce⟩ =>
        let burst := x.burst name
        let w := w.modifyInstance i (·.setBurst name (burst.record debounce.trigger args))
        if burst.runsAtOnce debounce.trigger then
          .invoke w callback { role := .method name, self := some i, args }
            [.startInterval i name debounce callback]
        else .reply (w.restartBurst i name debounce callback) (.value none)

/-- Ends a burst and runs the call that waits; without one, nothing is left to do. -/
def endBurst (w : World β) (i : InstanceId) (name : String) (trigger : Trigger) (callback : β)
    (frames : List (Frame β)) : Progress β :=
  match w.instance? i with
  | none => .proceed w frames
  | some x =>
    match x.bursts.find? name with
    | none => .proceed w frames
    | some burst =>
      let (burst, args?) := burst.finish trigger
      let w := w.modifyInstance i (·.setBurst name burst)
      match args? with
      | none => .proceed w frames
      | some args => .invoke w callback { role := .method name, self := some i, args } frames

end ObjectSystem.World
