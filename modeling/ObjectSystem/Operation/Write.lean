import ObjectSystem.Operation.Emission

/-!
# Reading and writing properties

A write is admitted or refused before anything happens (`Instance.admitWrite`). An admitted write to
a stored property stores the value, reports the change if the policy asks for it, and then runs the
effect with the written value; a write through a setter runs the setter and always reports.
-/

namespace ObjectSystem

variable {β : Type}

namespace World

/-- Reads a property: the stored value, what the getter finds, or else the default. -/
def readProperty (w : World β) (i : InstanceId) (name : String) : Progress β :=
  match w.instance? i with
  | none => .reply w .missing
  | some x =>
    match x.ofClass.findProperty? name with
    | none => .reply w (.failed (.property (x.unknownProperty name)))
    | some ⟨spec, .stored _ _ _⟩ =>
      .reply w (.value (some ((x.stored.find? spec.name).getD spec.defaultValue)))
    | some ⟨spec, .computed getter _⟩ =>
      .invoke w getter { role := .getter spec.name, self := some i }
        [.orDefault i spec.defaultValue]

/-- Stores a value. The comparison with the old value is made in the world in which the new one is
already stored. -/
def storeValue (w : World β) (i : InstanceId) (x : Instance β) (spec : PropertySpec)
    (notify : Option NotifyPolicy) (equality : Option ObjectEquality) (effect : Option β)
    (value : Value) : Progress β :=
  let config := w.configOf x
  let w := w.modifyInstance i (·.store spec.name value)
  let changed := match x.stored.find? spec.name with
    | none => true
    | some old => !w.valuesEqual (equality.getD config.objectEquality) old value
  if changed || notify.getD config.notifyPolicy = .always then
    .proceed w
      [.emission (w.changeEmission i spec.canonicalName), .runEffect i spec.name effect value]
  else .proceed w [.runEffect i spec.name effect value]

/-- Writes a property. -/
def writeProperty (w : World β) (i : InstanceId) (name : String) (value : Value) : Progress β :=
  match w.instance? i with
  | none => .reply w .missing
  | some x =>
    match x.admitWrite w.isA name value with
    | .error e => .reply w (.failed (.property e))
    | .ok (.setter callback) =>
      .invoke w callback { role := .setter name, self := some i, args := [value] }
        [.reportChange i (Name.canonical name)]
    | .ok (.computed spec callback) =>
      .invoke w callback { role := .setter spec.name, self := some i, args := [value] }
        [.reportChange i spec.canonicalName]
    | .ok (.stored spec notify equality effect) =>
      w.storeValue i x spec notify equality effect value

/-- After a setter: reports the change. -/
def reportChange (w : World β) (i : InstanceId) (canonical : String) : Progress β :=
  .proceed w [.emission (w.changeEmission i canonical), .finishWrite i]

/-- After the report: runs the effect with the written value. -/
def runEffect (w : World β) (i : InstanceId) (property : String) (effect : Option β)
    (value : Value) : Progress β :=
  match effect with
  | none => .reply w .done
  | some callback =>
    .invoke w callback { role := .effect property, self := some i, args := [value] }
      [.finishWrite i]

/-- Reports a change of a property or of a setter's name. -/
def notify (w : World β) (i : InstanceId) (name : String) : Progress β :=
  match w.instance? i with
  | none => .reply w .missing
  | some x =>
    if (x.ofClass.findProperty? name).isNone && (x.ofClass.findSetter? name).isNone then
      .reply w (.failed (.property (x.unknownProperty name)))
    else w.reportChange i (Name.canonical name)

/-- Writes a raw field; the reply is its previous value. -/
def writeField (w : World β) (i : InstanceId) (name : String) (value : Value) : Progress β :=
  match w.instance? i with
  | none => .reply w .missing
  | some x => .reply (w.modifyInstance i (·.setField name value)) (.value (x.field? name))

end World

end ObjectSystem
