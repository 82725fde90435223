import ObjectSystem.Operation.Perform
import ObjectSystem.Proofs.View

/-!
# Quiet operations

Most commands and most operations in progress have nothing to do with sources, tasks, bursts or
disposal. They are *quiet*: they change the world calmly, put only quiet frames on the stack, and
start no method and no source.

* `quiet_perform` — a quiet command begins quietly;
* `quiet_resume` — a quiet frame goes on quietly, whatever reply it gets.

The commands and frames that are left over are the subject of the modules that follow.
-/

namespace ObjectSystem

variable {β : Type}

/-- Whether a callback in this role is a method, or has its turn when a source does. -/
def Role.isDeferred : Role → Bool
  | .method _ | .ready _ | .readyTask _ | .source _ _ => true
  | _ => false

/-- Whether a command touches no source, no task, no burst and no life cycle. -/
def Command.isQuiet : Command β → Bool
  | .construct _ | .dispose _ | .call _ _ _ | .newContext _ | .addIdle .. | .addTimeout ..
  | .removeSource _ _ | .iterate _ | .runUntilIdle _ | .advance _ _ | .spawn _ _ | .runLoop _ => false
  | _ => true

/-- Whether an operation in progress touches none of these. -/
def Frame.isQuiet : Frame β → Bool
  | .startInterval .. | .constructing .. | .initializing .. | .readySpawn .. | .sourceEnd ..
  | .iteration .. | .collect .. | .pass _ | .finishPass _ | .drain .. | .advance .. | .loop _
  | .looped _ => false
  | _ => true

/-- Whether what happens next is a reply or a callback that is not deferred. -/
def Control.isQuiet : Control β → Bool
  | .deliver _ => true
  | .invoke _ inv => !inv.role.isDeferred
  | _ => false

/-- A step that touches no source, no task, no burst and no life cycle. -/
structure Progress.Quiet (w : World β) (p : Progress β) : Prop where
  calm : World.Calm w p.world
  frames : ∀ f ∈ p.frames, f.isQuiet = true
  control : p.control.isQuiet = true

namespace Progress.Quiet

/-- A reply in a calmly changed world. -/
theorem reply {w v : World β} (h : World.Calm w v) (r : Reply β) : Quiet w (.reply v r) :=
  ⟨h, fun _ hf => (by cases hf), rfl⟩

theorem proceed {w v : World β} (h : World.Calm w v) {frames : List (Frame β)}
    (hf : ∀ f ∈ frames, f.isQuiet = true) : Quiet w (.proceed v frames) :=
  ⟨h, hf, rfl⟩

theorem invoke {w v : World β} (h : World.Calm w v) {callback : β} {inv : Invocation}
    (hi : inv.role.isDeferred = false) {frames : List (Frame β)}
    (hf : ∀ f ∈ frames, f.isQuiet = true) : Quiet w (.invoke v callback inv frames) :=
  ⟨h, hf, by simp [Progress.invoke, Control.isQuiet, hi]⟩

end Progress.Quiet

open Progress (Quiet)

namespace World

variable (w : World β)

/-- Replacing an instance by one with the same duties. -/
theorem calm_replaceInstance {i : InstanceId} {x y : Instance β} (hx : w.instance? i = some x)
    (hd : y.duties = x.duties) : Calm w (w.modifyInstance i fun _ => y) where
  timetable _ := rfl
  duties j := by
    left
    unfold duties?
    rw [instance?_modifyInstance]
    split
    · next hj =>
        rw [hj, hx]
        exact congrArg some hd
    · rfl
  keys := rfl
  nextInstance := rfl
  roster _ := rfl
  ready _ h := h

/-! ## Actions -/

theorem calm_addAction (action : Action β) : Calm w (w.addAction action).1 :=
  .of_eq rfl rfl rfl

theorem calm_modifyAction (a : ActionId) (f : Action β → Action β) : Calm w (w.modifyAction a f) :=
  .of_eq rfl rfl rfl

theorem calm_addGroup : Calm w w.addGroup.1 :=
  .of_eq rfl rfl rfl

theorem calm_modifyGroup (g : GroupId) (f : ActionGroup → ActionGroup) :
    Calm w (w.modifyGroup g f) :=
  .of_eq rfl rfl rfl

theorem quiet_activateAction (a : ActionId) (parameter : Option Value) :
    Quiet w (w.activateAction a parameter) := by
  unfold activateAction
  split
  · exact .reply (.refl w) _
  · split
    · exact .reply (.refl w) _
    · split
      · exact .proceed (.refl w) (List.forall_mem_singleton.mpr rfl)
      · exact .reply (.refl w) _

theorem quiet_activateFound (name : String) (found : Option ActionId) (parameter : Option Value) :
    Quiet w (w.activateFound name found parameter) := by
  unfold activateFound
  split
  · exact quiet_activateAction w _ _
  · exact .reply (.refl w) _

theorem quiet_activate (i : InstanceId) (name : String) (parameter : Option Value) :
    Quiet w (w.activate i name parameter) := by
  unfold activate
  split
  · exact .reply (.refl w) _
  · exact quiet_activateFound w _ _ _

theorem quiet_nextActivation (a : Activation β) : Quiet w (a.next w) := by
  unfold Activation.next
  split
  · exact .reply (.refl w) _
  · dsimp only
    split
    · exact .invoke (.refl w) rfl (List.forall_mem_singleton.mpr rfl)
    · split
      · exact .invoke (.refl w) rfl (List.forall_mem_singleton.mpr rfl)
      · exact .proceed (.refl w) (List.forall_mem_singleton.mpr rfl)

theorem quiet_setActionState (a : ActionId) (state : Value) :
    Quiet w (w.setActionState a state) := by
  unfold setActionState
  split
  · exact .reply (.refl w) _
  · split
    · exact .reply (calm_modifyAction w a _) _
    · exact .reply (.refl w) _

theorem quiet_addToGroup (g : GroupId) (a : ActionId) : Quiet w (w.addToGroup g a) := by
  unfold addToGroup
  split
  · exact .reply (.refl w) _
  · exact .reply (calm_modifyGroup w g _) _

/-! ## Signals -/

theorem quiet_emit (i : InstanceId) (detailed : String) (args : List Value) :
    Quiet w (w.emit i detailed args) := by
  unfold emit
  split
  · exact .reply (.refl w) _
  · dsimp only
    split
    · exact .reply (.refl w) _
    · split
      · exact .reply (.refl w) _
      · exact .proceed (.refl w) (List.forall_mem_singleton.mpr rfl)

theorem quiet_nextHandler (e : Emission β) : Quiet w (e.next w) := by
  unfold Emission.next
  split
  · exact .reply (.refl w) _
  · dsimp only
    split
    · split
      · exact .invoke (.refl w) rfl (List.forall_mem_singleton.mpr rfl)
      · exact .invoke (.refl w) rfl (List.forall_mem_singleton.mpr rfl)
      · exact .proceed (calm_settle w _ _) (List.forall_mem_singleton.mpr rfl)
      · exact .proceed (calm_settle w _ _) (List.forall_mem_singleton.mpr rfl)
    · exact .proceed (.refl w) (List.forall_mem_singleton.mpr rfl)

theorem quiet_resumeEmission (e : Emission β) (reply : Reply β) : Quiet w (e.resume w reply) := by
  unfold Emission.resume
  split
  · extract_lets result
    split
    split
    · exact .reply (.refl w) _
    · exact quiet_nextHandler w _
  · exact quiet_nextHandler w e

/-- Connecting a handler is no change of duties. -/
theorem duties_of_connect {x y : Instance β} {signal : String} {target : HandlerTarget β}
    {h : HandlerId} (hc : x.connect signal target = .ok (y, h)) : y.duties = x.duties := by
  unfold Instance.connect at hc
  split at hc
  split at hc
  · cases hc
  · cases hc
    rfl

theorem quiet_connect (i : InstanceId) (signal : String) (target : HandlerTarget β) :
    Quiet w (w.connect i signal target) := by
  unfold connect
  split
  · exact .reply (.refl w) _
  · next x hx =>
      split
      · exact .reply (.refl w) _
      · next y h hc => exact .reply (calm_replaceInstance w hx (duties_of_connect hc)) _

theorem quiet_disconnect (i : InstanceId) (h : HandlerId) : Quiet w (w.disconnect i h) := by
  have hdisconnect : Calm w (w.modifyInstance i (·.disconnect h)) :=
    calm_modifyInstance w i fun _ => rfl
  unfold disconnect
  split
  · exact .reply hdisconnect _
  · exact .reply (.refl w) _

theorem duties_of_connectEvent {x y : Instance β} {event : EventId} {resolve : String}
    {reject : Option String} {hs : List HandlerId}
    (hc : connectEvent x event resolve reject = .ok (y, hs)) : y.duties = x.duties := by
  unfold connectEvent at hc
  cases hfirst : x.connect resolve (.resolves event) with
  | error e =>
      rw [hfirst] at hc
      cases hc
  | ok first =>
      obtain ⟨z, h⟩ := first
      rw [hfirst] at hc
      have hz := duties_of_connect hfirst
      cases reject with
      | none =>
          cases hc
          exact hz
      | some reject =>
          cases hsecond : z.connect reject (.rejects event reject) with
          | error e =>
              simp only [bind, Except.bind, hsecond] at hc
              cases hc
          | ok second =>
              simp only [bind, Except.bind, hsecond] at hc
              cases hc
              exact (duties_of_connect hsecond).trans hz

theorem quiet_awaitEvent (i : InstanceId) (resolve : String) (reject : Option String) :
    Quiet w (w.awaitEvent i resolve reject) := by
  unfold awaitEvent
  split
  · exact .reply (.refl w) _
  · next x hx =>
      dsimp only
      split
      · exact .reply (.refl w) _
      · next y hs hc =>
          have hreplace := calm_replaceInstance w hx (duties_of_connectEvent hc)
          refine .reply (hreplace.trans ?_) _
          exact .of_eq rfl rfl rfl

/-! ## Properties and fields -/

theorem quiet_readProperty (i : InstanceId) (name : String) : Quiet w (w.readProperty i name) := by
  unfold readProperty
  split
  · exact .reply (.refl w) _
  · split
    · exact .reply (.refl w) _
    · exact .reply (.refl w) _
    · exact .invoke (.refl w) rfl (List.forall_mem_singleton.mpr rfl)

/-- The value is stored, a change that is to be reported is reported, and the effect is run. -/
@[elab_as_elim]
theorem storeValue_cases {P : Progress β → Prop} (w : World β) (i : InstanceId) (x : Instance β)
    (spec : PropertySpec) (notify : Option NotifyPolicy) (equality : Option ObjectEquality)
    (effect : Option β) (value : Value)
    (reports : P (.proceed (w.modifyInstance i (·.store spec.name value))
      [.emission ((w.modifyInstance i (·.store spec.name value)).changeEmission i
        spec.canonicalName), .runEffect i spec.name effect value]))
    (omits : P (.proceed (w.modifyInstance i (·.store spec.name value))
      [.runEffect i spec.name effect value])) :
    P (w.storeValue i x spec notify equality effect value) := by
  unfold storeValue
  extract_lets config v changed
  split
  · exact reports
  · exact omits

/-- A write is refused, or the setter runs, or the value is stored. -/
@[elab_as_elim]
theorem writeProperty_cases {P : Progress β → Prop} (w : World β) (i : InstanceId) (name : String)
    (value : Value) (missing : w.instance? i = none → P (.reply w .missing))
    (refused : ∀ x e, w.instance? i = some x → x.admitWrite w.isA name value = .error e →
      P (.reply w (.failed (.property e))))
    (setter : ∀ x callback, w.instance? i = some x →
      x.admitWrite w.isA name value = .ok (.setter callback) →
      P (.invoke w callback { role := .setter name, self := some i, args := [value] }
        [.reportChange i (Name.canonical name)]))
    (computed : ∀ x spec callback, w.instance? i = some x →
      x.admitWrite w.isA name value = .ok (.computed spec callback) →
      P (.invoke w callback { role := .setter spec.name, self := some i, args := [value] }
        [.reportChange i spec.canonicalName]))
    (stored : ∀ x spec notify equality effect, w.instance? i = some x →
      x.admitWrite w.isA name value = .ok (.stored spec notify equality effect) →
      P (w.storeValue i x spec notify equality effect value)) :
    P (w.writeProperty i name value) := by
  unfold writeProperty
  split
  · next hx => exact missing hx
  · next x hx =>
    split
    · next e hwrite => exact refused x e hx hwrite
    · next callback hwrite => exact setter x callback hx hwrite
    · next spec callback hwrite => exact computed x spec callback hx hwrite
    · next spec notify equality effect hwrite =>
      exact stored x spec notify equality effect hx hwrite

theorem quiet_storeValue (i : InstanceId) (x : Instance β) (spec : PropertySpec)
    (notify : Option NotifyPolicy) (equality : Option ObjectEquality) (effect : Option β)
    (value : Value) : Quiet w (w.storeValue i x spec notify equality effect value) := by
  have hstore : Calm w (w.modifyInstance i (·.store spec.name value)) :=
    calm_modifyInstance w i fun _ => rfl
  refine storeValue_cases w i x spec notify equality effect value ?_ ?_
  · exact .proceed hstore (List.forall_mem_cons.mpr ⟨rfl, List.forall_mem_singleton.mpr rfl⟩)
  · exact .proceed hstore (List.forall_mem_singleton.mpr rfl)

theorem quiet_writeProperty (i : InstanceId) (name : String) (value : Value) :
    Quiet w (w.writeProperty i name value) := by
  refine writeProperty_cases w i name value ?_ ?_ ?_ ?_ ?_
  · exact fun _ => .reply (.refl w) _
  · exact fun x e _ _ => .reply (.refl w) _
  · exact fun x callback _ _ => .invoke (.refl w) rfl (List.forall_mem_singleton.mpr rfl)
  · exact fun x spec callback _ _ => .invoke (.refl w) rfl (List.forall_mem_singleton.mpr rfl)
  · exact fun x spec notify equality effect _ _ => quiet_storeValue w i x _ _ _ _ value

theorem quiet_reportChange (i : InstanceId) (name : String) : Quiet w (w.reportChange i name) :=
  .proceed (.refl w) (List.forall_mem_cons.mpr ⟨rfl, List.forall_mem_singleton.mpr rfl⟩)

theorem quiet_runEffect (i : InstanceId) (property : String) (effect : Option β) (value : Value) :
    Quiet w (w.runEffect i property effect value) := by
  unfold runEffect
  split
  · exact .reply (.refl w) _
  · exact .invoke (.refl w) rfl (List.forall_mem_singleton.mpr rfl)

theorem quiet_notify (i : InstanceId) (name : String) : Quiet w (w.notify i name) := by
  unfold notify
  split
  · exact .reply (.refl w) _
  · split
    · exact .reply (.refl w) _
    · exact quiet_reportChange w _ _

theorem quiet_writeField (i : InstanceId) (name : String) (value : Value) :
    Quiet w (w.writeField i name value) := by
  have hset : Calm w (w.modifyInstance i (·.setField name value)) :=
    calm_modifyInstance w i fun _ => rfl
  unfold writeField
  split
  · exact .reply (.refl w) _
  · exact .reply hset _

/-! ## Declarations -/

theorem calm_register (registry : Registry) : Calm w { w with registry } :=
  .of_eq rfl rfl rfl

theorem quiet_registered (result : Except RegistrationError (Registry × TypeHandle)) :
    Quiet w (w.registered result) := by
  unfold registered
  split
  · exact .reply (calm_register w _) _
  · exact .reply (.refl w) _

theorem quiet_finalize (builder : ClassBuilder β) : Quiet w (w.finalize builder) := by
  unfold finalize
  split
  · exact .reply (calm_register w _) _
  · exact .reply (.refl w) _

theorem calm_addLoop (c : ContextId) : Calm w (w.addLoop c).1 :=
  .of_eq rfl rfl rfl

theorem calm_setRunning (l : LoopId) (running : Bool) : Calm w (w.setRunning l running) :=
  .of_eq rfl rfl rfl

/-! ## All quiet commands and frames -/

/-- A quiet command begins quietly. -/
theorem quiet_perform {command : Command β} (h : command.isQuiet = true) :
    Quiet w (w.perform command) := by
  cases command with
  | registerEnum name members => exact quiet_registered w _
  | registerInterface name => exact quiet_registered w _
  | registerClass registration => exact quiet_registered w _
  | finalize builder => exact quiet_finalize w _
  | property i name => exact quiet_readProperty w _ _
  | setProperty i name value => exact quiet_writeProperty w _ _ _
  | notify i name => exact quiet_notify w _ _
  | setField i name value => exact quiet_writeField w _ _ _
  | connect i signal callback => exact quiet_connect w _ _ _
  | connectNotify i property callback => exact quiet_connect w _ _ _
  | disconnect i handler => exact quiet_disconnect w _ _
  | emit i signal args => exact quiet_emit w _ _ _
  | newAction name options => exact .reply (calm_addAction w _) _
  | enableAction a enabled => exact .reply (calm_modifyAction w a _) _
  | setActionState a state => exact quiet_setActionState w _ _
  | connectAction a callback => exact .reply (calm_modifyAction w a _) _
  | activateAction a parameter => exact quiet_activateAction w _ _
  | activate i name parameter => exact quiet_activate w _ _ _
  | attachAction i a => exact .reply (calm_attachAction w i a) _
  | setAccels i name accels => exact .reply (calm_setAccels w i name accels) _
  | newGroup => exact .reply (calm_addGroup w) _
  | ownGroup i =>
      unfold perform
      dsimp only
      split
      · exact .reply (.refl w) _
      · exact .reply (calm_ownGroup w i _) _
  | insertGroup i qualifier g => exact .reply (calm_insertGroup w i qualifier g) _
  | addToGroup g a => exact quiet_addToGroup w _ _
  | removeFromGroup g name => exact .reply (calm_modifyGroup w g _) _
  | activateInGroup g name parameter => exact quiet_activateFound w _ _ _
  | newLoop c => exact .reply (calm_addLoop w c) _
  | quitLoop l => exact .reply (calm_setRunning w l false) _
  | awaitEvent i resolve reject => exact quiet_awaitEvent w _ _ _
  | pollEvent e => exact .reply (calm_takeOutcome w e) _
  | construct | dispose | call | newContext | addIdle | addTimeout | removeSource | iterate
  | runUntilIdle | advance | spawn | runLoop => cases h

/-- A quiet frame goes on quietly. -/
theorem quiet_resume {frame : Frame β} (h : frame.isQuiet = true) (reply : Reply β) :
    Quiet w (frame.resume w reply) := by
  cases frame with
  | reportChange i name => exact quiet_reportChange w _ _
  | runEffect i property effect value => exact quiet_runEffect w _ _ _ _
  | finishWrite i => exact .reply (.refl w) _
  | orDefault i default => exact .reply (.refl w) _
  | emission e => exact quiet_resumeEmission w _ _
  | result i => exact .reply (.refl w) _
  | activation a => exact quiet_nextActivation w _
  | letGo held => exact .reply (.refl w) _
  | readyEnd typeName => exact ⟨.refl w, fun _ hf => (by cases hf), rfl⟩
  | startInterval | constructing | initializing | readySpawn | sourceEnd | iteration | collect
  | pass | finishPass | drain | advance | loop | looped => cases h

end World

end ObjectSystem
