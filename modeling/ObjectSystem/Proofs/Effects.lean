import ObjectSystem.Proofs.ConstructOnly
import ObjectSystem.Proofs.Written

/-!
# Where effects and init hooks come from

The effect of a stored property waits on the stack while the change is reported, and starts when the
report is over. Nothing but an admitted write puts it there (`Machine.countP_isDue_step`), and
nothing but its own frame starts it (`Machine.of_starts_effect`), as nothing but the construction of
an instance starts init hooks (`Machine.of_starts_initHook`): every other command and every other
operation in progress is *inert*.
-/

namespace ObjectSystem

variable {σ β κ : Type}

/-! ## Inert operations -/

/-- Whether a callback in this role is started by operations of one kind only: the effect of a
property, or an init hook. -/
def Role.isFramed : Role → Bool
  | .effect _ | .initHook _ => true
  | _ => false

/-- Whether an operation in progress is to run an effect. -/
def Frame.isEffect : Frame β → Bool
  | .runEffect .. => true
  | _ => false

/-- Whether an operation in progress runs neither an effect nor init hooks. -/
def Frame.isInert : Frame β → Bool
  | .runEffect .. | .initializing .. => false
  | _ => true

/-- Whether an effect or an init hook is about to start. -/
def Control.isFramed : Control β → Bool
  | .invoke _ inv => inv.role.isFramed
  | _ => false

/-- Whether a step of an operation puts no effect on the stack, and starts neither an effect nor an
init hook. -/
def Progress.isInert (p : Progress β) : Bool :=
  p.frames.all (!·.isEffect) && !p.control.isFramed

/-- Whether a command is no write. -/
def Command.isInert : Command β → Bool
  | .setProperty .. => false
  | _ => true

namespace World

variable (w : World β)

theorem inert_registered (result : Except RegistrationError (Registry × TypeHandle)) :
    (w.registered result).isInert = true := by
  unfold registered
  split <;> rfl

theorem inert_finalize (builder : ClassBuilder β) : (w.finalize builder).isInert = true := by
  unfold finalize
  split <;> rfl

theorem inert_construct (con : Construction β) : (w.construct con).isInert = true := by
  unfold construct
  split
  · rfl
  · dsimp only
    split <;> rfl

theorem inert_continueConstructing (i : InstanceId) (properties : List (String × Value))
    (reply : Reply β) : (w.continueConstructing i properties reply).isInert = true := by
  unfold continueConstructing
  split
  · rfl
  · split
    · rfl
    · split <;> rfl

theorem inert_readProperty (i : InstanceId) (name : String) :
    (w.readProperty i name).isInert = true := by
  unfold readProperty
  split
  · rfl
  · split <;> rfl

theorem inert_notify (i : InstanceId) (name : String) : (w.notify i name).isInert = true := by
  unfold notify
  split
  · rfl
  · split <;> rfl

theorem inert_writeField (i : InstanceId) (name : String) (value : Value) :
    (w.writeField i name value).isInert = true := by
  unfold writeField
  split <;> rfl

theorem inert_connect (i : InstanceId) (signal : String) (target : HandlerTarget β) :
    (w.connect i signal target).isInert = true := by
  unfold connect
  split
  · rfl
  · split <;> rfl

theorem inert_disconnect (i : InstanceId) (h : HandlerId) :
    (w.disconnect i h).isInert = true := by
  unfold disconnect
  split <;> rfl

theorem inert_emit (i : InstanceId) (detailed : String) (args : List Value) :
    (w.emit i detailed args).isInert = true := by
  unfold emit
  split
  · rfl
  · dsimp only
    split
    · rfl
    · split <;> rfl

theorem inert_nextHandler (e : Emission β) : (e.next w).isInert = true := by
  have hturn := e.turn_next w
  generalize e.next w = p at hturn
  cases hturn <;> rfl

theorem inert_resumeEmission (e : Emission β) (reply : Reply β) :
    (e.resume w reply).isInert = true := by
  rw [e.resume_eq]
  split
  · rfl
  · exact inert_nextHandler w _

theorem inert_call (i : InstanceId) (name : String) (args : List Value) :
    (w.call i name args).isInert = true := by
  unfold call
  split
  · rfl
  · split
    · rfl
    · split
      · rfl
      · rfl
      · dsimp only
        split <;> rfl

theorem inert_setActionState (a : ActionId) (state : Value) :
    (w.setActionState a state).isInert = true := by
  unfold setActionState
  split
  · rfl
  · split <;> rfl

theorem inert_activateAction (a : ActionId) (parameter : Option Value) :
    (w.activateAction a parameter).isInert = true := by
  unfold activateAction
  split
  · rfl
  · split
    · rfl
    · split <;> rfl

theorem inert_activateFound (name : String) (found : Option ActionId) (parameter : Option Value) :
    (w.activateFound name found parameter).isInert = true := by
  unfold activateFound
  split
  · exact inert_activateAction w _ _
  · rfl

theorem inert_activate (i : InstanceId) (name : String) (parameter : Option Value) :
    (w.activate i name parameter).isInert = true := by
  unfold activate
  split
  · rfl
  · exact inert_activateFound w _ _ _

theorem inert_nextActivation (a : Activation β) : (a.next w).isInert = true := by
  unfold Activation.next
  split
  · rfl
  · dsimp only
    split
    · rfl
    · split <;> rfl

theorem inert_addToGroup (g : GroupId) (a : ActionId) : (w.addToGroup g a).isInert = true := by
  unfold addToGroup
  split <;> rfl

theorem inert_awaitEvent (i : InstanceId) (resolve : String) (reject : Option String) :
    (w.awaitEvent i resolve reject).isInert = true := by
  unfold awaitEvent
  split
  · rfl
  · dsimp only
    split <;> rfl

theorem inert_addSource (c : ContextId) (attach : MainContext β → MainContext β × SourceId) :
    (w.addSource c attach).isInert = true := by
  unfold addSource
  split <;> rfl

theorem inert_removeSource (c : ContextId) (id : SourceId) :
    (w.removeSource c id).isInert = true := by
  unfold removeSource
  split
  · rfl
  · split <;> rfl

theorem inert_iterate (c : ContextId) : (w.iterate c).isInert = true := by
  unfold iterate
  split
  · rfl
  · split <;> rfl

theorem inert_collect (c : ContextId) (polled : Bool) : (w.collect c polled).isInert = true := by
  unfold collect
  split <;> rfl

theorem inert_startWork (c : ContextId) (id : SourceId) (work : SourceWork β) (mayStay : Bool)
    (ready : List SourceId) (worked : Bool) :
    (w.startWork c id work [.sourceEnd c id mayStay, .iteration c ready worked]).isInert =
      true := by
  refine startWork_cases (P := fun _ p => p.isInert = true) w c id work _
    ?_ ?_ ?_ ?_ ?_ ?_ ?_ ?_
  all_goals
    intros
    rfl

theorem inert_continueIteration (c : ContextId) (ready : List SourceId) (worked : Bool) :
    (w.continueIteration c ready worked).isInert = true := by
  unfold continueIteration
  split
  · rfl
  · dsimp only
    split
    · rfl
    · exact inert_startWork _ c _ _ _ _ _

theorem inert_spawnReady (c : ContextId) (owner : ReadyOwner) (reply : Reply β) :
    (w.spawnReady c owner reply).isInert = true := by
  unfold spawnReady
  split <;> rfl

theorem inert_drain (c : ContextId) (count : Nat) : (w.drain c count).isInert = true := by
  unfold drain
  split
  · rfl
  · split <;> rfl

theorem inert_continueDrain (c : ContextId) (count : Nat) (reply : Reply β) :
    (w.continueDrain c count reply).isInert = true := by
  unfold continueDrain
  split
  · exact inert_drain w _ _
  · rfl
  · exact inert_drain w _ _

theorem inert_advance (c : ContextId) (duration : Nat) :
    (w.advance c duration).isInert = true := by
  unfold advance
  split
  · rfl
  · dsimp only
    split <;> rfl

theorem inert_stepClock (c : ContextId) (target count : Nat) :
    (w.stepClock c target count).isInert = true := by
  unfold stepClock
  split
  · rfl
  · split
    · rfl
    · split <;> rfl

theorem inert_continueAdvance (c : ContextId) (target count : Nat) (stage : AdvanceStage)
    (reply : Reply β) : (w.continueAdvance c target count stage reply).isInert = true := by
  unfold continueAdvance
  extract_lets ran
  cases stage with
  | before => exact inert_stepClock w _ _ _
  | within =>
      dsimp only
      split
      · rfl
      · exact inert_stepClock w _ _ _
  | after => rfl

theorem inert_checkLoop (l : LoopId) : (w.checkLoop l).isInert = true := by
  unfold checkLoop
  split
  · rfl
  · split <;> rfl

theorem inert_continueLoop (l : LoopId) (reply : Reply β) :
    (w.continueLoop l reply).isInert = true := by
  unfold continueLoop
  split
  · exact inert_checkLoop w l
  · split
    · rfl
    · split
      · rfl
      · split
        · rfl
        · split
          · exact inert_checkLoop w l
          · rfl

theorem inert_finish (p : Pass) : (p.finish w).isInert = true := by
  unfold Pass.finish
  split <;> rfl

theorem inert_pollNext (p : Pass) : (p.pollNext w).isInert = true := by
  unfold Pass.pollNext
  split
  · rfl
  · next x hx =>
      generalize x.passTasks.dequeue = dequeued
      obtain ⟨task?, set⟩ := dequeued
      dsimp only
      split
      · exact inert_finish _ p
      · split
        · rfl
        · split <;> rfl

theorem inert_resumePass (p : Pass) (reply : Reply β) : (p.resume w reply).isInert = true := by
  unfold Pass.resume
  split
  · unfold Pass.taskFinished
    split
    · exact inert_pollNext _ _
    · rfl
  · unfold Pass.taskWaits
    extract_lets v q
    split
    · exact inert_finish _ q
    · exact inert_pollNext _ q
  · exact inert_pollNext _ _

/-- Every command but a write is inert. -/
theorem inert_perform {command : Command β} (h : command.isInert = true) :
    (w.perform command).isInert = true := by
  cases command with
  | setProperty i name value => cases h
  | registerEnum name members => exact inert_registered w _
  | registerInterface name => exact inert_registered w _
  | registerClass registration => exact inert_registered w _
  | finalize builder => exact inert_finalize w _
  | construct con => exact inert_construct w _
  | property i name => exact inert_readProperty w _ _
  | notify i name => exact inert_notify w _ _
  | setField i name value => exact inert_writeField w _ _ _
  | connect i signal callback => exact inert_connect w _ _ _
  | connectNotify i property callback => exact inert_connect w _ _ _
  | disconnect i handler => exact inert_disconnect w _ _
  | emit i signal args => exact inert_emit w _ _ _
  | call i method args => exact inert_call w _ _ _
  | setActionState a state => exact inert_setActionState w _ _
  | activateAction a parameter => exact inert_activateAction w _ _
  | activate i name parameter => exact inert_activate w _ _ _
  | ownGroup i =>
      unfold perform
      dsimp only
      split <;> rfl
  | addToGroup g a => exact inert_addToGroup w _ _
  | activateInGroup g name parameter => exact inert_activateFound w _ _ _
  | addIdle c priority once callback => exact inert_addSource w c _
  | addTimeout c priority interval once callback => exact inert_addSource w c _
  | removeSource c id => exact inert_removeSource w _ _
  | iterate c => exact inert_iterate w _
  | runUntilIdle c => exact inert_drain w _ _
  | advance c duration => exact inert_advance w _ _
  | awaitEvent i resolve reject => exact inert_awaitEvent w _ _ _
  | dispose | newAction | enableAction | connectAction | attachAction | setAccels | newGroup
  | insertGroup | removeFromGroup | newContext | spawn | newLoop | runLoop | quitLoop
  | pollEvent => rfl

/-- Every operation in progress is inert but one that is to run an effect or init hooks. -/
theorem inert_resume {frame : Frame β} (h : frame.isInert = true) (reply : Reply β) :
    (frame.resume w reply).isInert = true := by
  cases frame with
  | runEffect i property effect value => cases h
  | initializing i hooks => cases h
  | emission e => exact inert_resumeEmission w _ _
  | activation a => exact inert_nextActivation w _
  | constructing i properties => exact inert_continueConstructing w _ _ _
  | readySpawn c owner => exact inert_spawnReady w _ _ _
  | iteration c ready worked => exact inert_continueIteration w _ _ _
  | collect c polled => exact inert_collect w _ _
  | pass p => exact inert_resumePass w _ _
  | finishPass p => exact inert_finish w _
  | drain c count => exact inert_continueDrain w _ _ _
  | advance c target count stage => exact inert_continueAdvance w _ _ _ _ _
  | loop l => exact inert_checkLoop w _
  | looped l => exact inert_continueLoop w _ _
  | reportChange | finishWrite | orDefault | result | startInterval | letGo | readyEnd
  | sourceEnd => rfl

/-- No operation in progress puts an effect on the stack. -/
theorem effectless_resume (frame : Frame β) (reply : Reply β) :
    (frame.resume w reply).frames.all (!·.isEffect) = true := by
  cases hframe : frame.isInert with
  | true => exact (Bool.and_eq_true_iff.mp (w.inert_resume hframe reply)).1
  | false =>
    cases frame with
    | runEffect i property effect value => cases effect <;> rfl
    | initializing i hooks =>
      show (w.continueInitializing i hooks).frames.all _ = true
      unfold continueInitializing
      split
      · rfl
      · split <;> rfl
    | _ => cases hframe

/-- What starts when the initialization of an instance goes on is the next init hook. -/
theorem continueInitializing_eq_of_invoke {i : InstanceId} {hooks : List (String × β)} {callback : β}
    {inv : Invocation} (h : (w.continueInitializing i hooks).control = .invoke callback inv) :
    ∃ typeName rest, hooks = (typeName, callback) :: rest ∧
      inv = { role := .initHook typeName, self := some i } ∧
      w.continueInitializing i hooks = .invoke w callback inv [.initializing i rest] := by
  cases hooks with
  | cons hook rest =>
      obtain ⟨typeName, hook⟩ := hook
      cases h
      exact ⟨typeName, rest, rfl, rfl, rfl⟩
  | nil =>
      unfold continueInitializing at h
      dsimp only at h
      split at h <;> cases h

/-- A write starts neither an effect nor an init hook at once. -/
theorem isFramed_writeProperty (i : InstanceId) (name : String) (value : Value) :
    (w.writeProperty i name value).control.isFramed = false := by
  refine writeProperty_cases (P := fun p => p.control.isFramed = false) w i name value ?_ ?_ ?_ ?_ ?_
  · exact fun _ => rfl
  · exact fun _ _ _ _ => rfl
  · exact fun _ _ _ _ => rfl
  · exact fun _ _ _ _ _ => rfl
  · intro x spec notify equality effect _ _
    rw [control_storeValue]
    rfl

end World

/-! ## Effects that are due -/

/-- Whether a place on the stack is that of the effect of a property. -/
def Layer.isDue (i : InstanceId) (property : String) : Layer β κ → Bool
  | .operation (.runEffect j name _ _) => j = i ∧ name = property
  | _ => false

theorem Layer.isDue_runEffect (i : InstanceId) (property : String) (effect : Option β)
    (value : Value) :
    (Layer.operation (.runEffect i property effect value) : Layer β κ).isDue i property = true := by
  simp [isDue]

theorem Layer.not_isDue_of_inert {f : Frame β} (h : f.isEffect = false) (i : InstanceId)
    (property : String) : (Layer.operation f : Layer β κ).isDue i property = false := by
  cases f <;> first | rfl | cases h

theorem Progress.countP_isDue {p : Progress β} (hframes : p.frames.all (!·.isEffect) = true)
    (i : InstanceId) (property : String) :
    (p.frames.map (Layer.operation (κ := κ))).countP (·.isDue i property) = 0 := by
  refine List.countP_eq_zero.mpr fun layer hlayer => ?_
  obtain ⟨f, hf, rfl⟩ := List.mem_map.mp hlayer
  have hinert := List.all_eq_true.mp hframes f hf
  rw [Layer.not_isDue_of_inert (by simpa using hinert)]
  exact Bool.false_ne_true

namespace Machine

section
variable {client : Client σ β κ} {m : Machine σ β κ} {i : InstanceId} {property : String}

variable (client) in
/-- An admitted write to a stored property stores its value. -/
theorem follows_store {name : String} {value : Value}
    (hm : m.control = .perform (.setProperty i name value)) {x : Instance β}
    (hx : m.world.instance? i = some x) {spec : PropertySpec} {notify : Option NotifyPolicy}
    {equality : Option ObjectEquality} {effect : Option β}
    (hadmitted : x.admitWrite m.world.isA name value = .ok (.stored spec notify equality effect)) :
    (m.step client).Follows (m.world.storeValue i x spec notify equality effect value) m.stack := by
  have hf : (m.step client).Follows (m.world.writeProperty i name value) m.stack :=
    follows_perform client hm
  unfold World.writeProperty at hf
  rw [hx] at hf
  dsimp only at hf
  rwa [hadmitted] at hf

/-- What a write does that stores nothing under a name of an instance: it does not put that effect
on the stack. -/
theorem countP_isDue_writeProperty {j : InstanceId} {name : String} {value : Value}
    (hm : m.control = .perform (.setProperty j name value)) (h : m.written? i property = none) :
    (((m.world.writeProperty j name value).frames.map (Layer.operation (κ := κ))).countP
      (·.isDue i property)) = 0 := by
  refine World.writeProperty_cases (P := fun p =>
    (p.frames.map (Layer.operation (κ := κ))).countP (·.isDue i property) = 0) m.world j name value
    ?_ ?_ ?_ ?_ ?_
  · exact fun _ => rfl
  · exact fun _ _ _ _ => rfl
  · exact fun _ _ _ _ => rfl
  · exact fun _ _ _ _ _ => rfl
  · intro x spec notify equality effect hx hadmitted
    have hother : ¬(j = i ∧ spec.name = property) := by
      rintro ⟨rfl, hname⟩
      have hsome : m.written? j property = some value :=
        written?_eq_some.mpr ⟨name, x, spec, notify, equality, effect, hm, hx, hadmitted, hname⟩
      cases h.symm.trans hsome
    refine World.storeValue_cases (P := fun p =>
      (p.frames.map (Layer.operation (κ := κ))).countP (·.isDue i property) = 0) m.world j x spec
      notify equality effect value ?_ ?_ <;> simp [Progress.proceed, Layer.isDue, hother]

variable (client) in
/-- **Effects come from writes.** A step that stores nothing under a name of an instance puts no
effect of that property on the stack. -/
theorem countP_isDue_step (h : m.written? i property = none) :
    (m.step client).stack.countP (·.isDue i property) ≤ m.stack.countP (·.isDue i property) := by
  have hfollows {m' : Machine σ β κ} {p : Progress β} {stack : List (Layer β κ)}
      (hf : m'.Follows p stack)
      (hframes : (p.frames.map (Layer.operation (κ := κ))).countP (·.isDue i property) = 0) :
      m'.stack.countP (·.isDue i property) = stack.countP (·.isDue i property) := by
    rw [hf.stack, List.countP_append, hframes, Nat.zero_add]
  -- nothing but a write puts an effect on the stack
  cases moved_step client m with
  | performs command hm hf =>
      refine Nat.le_of_eq (hfollows hf ?_)
      cases hinert : command.isInert with
      | true =>
          obtain ⟨hframes, -⟩ := Bool.and_eq_true_iff.mp (World.inert_perform m.world hinert)
          exact Progress.countP_isDue hframes i property
      | false =>
          cases command with
          | setProperty j name value => exact countP_isDue_writeProperty hm h
          | _ => cases hinert
  | resumes frame reply below hm hs hf =>
      rw [hs, List.countP_cons]
      refine Nat.le_trans (Nat.le_of_eq (hfollows hf ?_)) (Nat.le_add_right _ _)
      exact Progress.countP_isDue (m.world.effectless_resume frame reply) i property
  | enters rest inv reply hm hw hs hc =>
      rw [hs]
      exact Nat.le_of_eq (List.countP_cons_of_neg Bool.false_ne_true)
  | asks command k k' inv below hw hs hs' hc =>
      rw [hs, hs', List.countP_cons, List.countP_cons]
      exact Nat.le_refl _
  | goesOn reply k k' inv below hw hs hs' hc =>
      rw [hs, hs', List.countP_cons, List.countP_cons]
      exact Nat.le_refl _
  | leaves reply k inv below hw hs hs' hc hr =>
      rw [hs, hs', List.countP_cons]
      exact Nat.le_add_right _ _
  | rests reply hw hs hm hc => exact Nat.le_of_eq (congrArg _ hs)

/-- Effects and init hooks are started by operations in progress that are not inert. -/
theorem of_starts_framed {callback : β} {inv : Invocation}
    (h : (m.step client).control = .invoke callback inv) (hrole : inv.role.isFramed = true) :
    ∃ frame reply below, m.control = .deliver reply ∧ m.stack = .operation frame :: below ∧
      frame.isInert = false ∧ (m.step client).Follows (frame.resume m.world reply) below := by
  have hstarts {p : Progress β} {stack : List (Layer β κ)} (hf : (m.step client).Follows p stack) :
      p.control.isFramed = true := by
    rw [← hf.control, h]
    exact hrole
  have hinert {p : Progress β} {stack : List (Layer β κ)} (hf : (m.step client).Follows p stack) :
      p.isInert = false := by
    unfold Progress.isInert
    rw [hstarts hf]
    exact Bool.and_false _
  -- what is inert starts neither, and a write that is not inert only puts an effect on the stack
  cases moved_step client m with
  | performs command hm hf =>
      cases hcommand : command.isInert with
      | true => cases (hinert hf).symm.trans (World.inert_perform _ hcommand)
      | false =>
          cases command with
          | setProperty j name value =>
              cases (hstarts hf).symm.trans (m.world.isFramed_writeProperty j name value)
          | _ => cases hcommand
  | resumes frame reply below hm hs hf =>
      cases hframe : frame.isInert with
      | true => cases (hinert hf).symm.trans (World.inert_resume _ hframe reply)
      | false => exact ⟨frame, reply, below, hm, hs, hframe, hf⟩
  | enters rest inv' reply hm hw hs hc => cases hc.symm.trans h
  | asks command k k' inv' below hw hs hs' hc => cases hc.symm.trans h
  | goesOn reply k k' inv' below hw hs hs' hc => cases hc.symm.trans h
  | leaves reply k inv' below hw hs hs' hc hr => cases hc.symm.trans h
  | rests reply hw hs hm hc => cases hc.symm.trans h

/-- What starts an effect or an init hook is the frame of the effect, or the construction of the
instance. -/
theorem starts_cases {callback : β} {inv : Invocation}
    (h : (m.step client).control = .invoke callback inv) (hrole : inv.role.isFramed = true) :
    (∃ j name value reply below, m.control = .deliver reply ∧
      m.stack = .operation (.runEffect j name (some callback) value) :: below ∧
      inv = { role := .effect name, self := some j, args := [value] }) ∨
    ∃ j typeName rest below, (m.step client).stack = .operation (.initializing j rest) :: below ∧
      inv = { role := .initHook typeName, self := some j } := by
  obtain ⟨frame, reply, below, hm, hs, hframe, hf⟩ := of_starts_framed h hrole
  have hcontrol : (frame.resume m.world reply).control = .invoke callback inv :=
    hf.control.symm.trans h
  cases frame with
  | runEffect j name effect value =>
      cases effect with
      | none => cases hcontrol
      | some f =>
          cases hcontrol
          exact .inl ⟨j, name, value, reply, below, hm, hs, rfl⟩
  | initializing j hooks =>
      obtain ⟨typeName, rest, -, rfl, hnext⟩ := World.continueInitializing_eq_of_invoke _ hcontrol
      have hstack : (m.step client).stack =
          (m.world.continueInitializing j hooks).frames.map .operation ++ below := hf.stack
      rw [hnext] at hstack
      exact .inr ⟨j, typeName, rest, below, hstack, rfl⟩
  | _ => cases hframe

/-- **Effects are started by their own frames**, and are passed the value that was written. -/
theorem of_starts_effect {callback : β} {inv : Invocation}
    (h : (m.step client).control = .invoke callback inv) (hrole : inv.role = .effect property) :
    ∃ j value reply below, m.control = .deliver reply ∧
      m.stack = .operation (.runEffect j property (some callback) value) :: below ∧
      inv = { role := .effect property, self := some j, args := [value] } := by
  rcases starts_cases h (by rw [hrole]; rfl) with
    ⟨j, name, value, reply, below, hm, hs, rfl⟩ | ⟨_, _, _, _, _, rfl⟩
  · cases hrole
    exact ⟨j, value, reply, below, hm, hs, rfl⟩
  · cases hrole

/-- **Init hooks are started by the construction of their instance.** -/
theorem of_starts_initHook {callback : β} {inv : Invocation} {typeName : String}
    (h : (m.step client).control = .invoke callback inv) (hrole : inv.role = .initHook typeName) :
    ∃ j hooks below, (m.step client).stack = .operation (.initializing j hooks) :: below ∧
      inv.self = some j := by
  rcases starts_cases h (by rw [hrole]; rfl) with
    ⟨_, _, _, _, _, _, _, rfl⟩ | ⟨j, _, rest, below, hs, rfl⟩
  · cases hrole
  · exact ⟨j, rest, below, hs, rfl⟩

end

end Machine

end ObjectSystem
