import ObjectSystem.Proofs.Deal
import ObjectSystem.Proofs.LifeCycle
import ObjectSystem.Proofs.Owners

/-!
# Operations and the callbacks that they run

A callback stands on the stack directly above the operation that runs it, and that operation hears
how it ends. Which one this is can be told from the role of the callback (`Frame.Hosts`): a ready hook
is run by the frame that reports its failure under the name of its type, a task by the pass that
polls it, and every other callback by a frame that reports nothing. The outermost program alone
stands on no operation.

* `Frame.apt_resume`, `World.apt_perform` — what one step of an operation starts, it hosts; it
  leaves the owners of tasks alone, and reports only what a hosted ready hook has done wrong.
* `Machine.Reachable.hosting` — along a run, every callback is hosted.
-/

namespace ObjectSystem

variable {σ β κ : Type}

/-! ## Frames and their callbacks -/

/-- Whether a callback in this role is neither the program nor part of a ready hook nor a task. -/
def Role.isPlain : Role → Bool
  | .program | .ready _ | .readyTask _ | .task .. => false
  | _ => true

namespace Frame

/-- Whether an operation in progress takes no notice of failures, and hands on no reply. -/
def isDeaf : Frame β → Bool
  | .readyEnd _ | .readySpawn .. | .pass _ | .letGo _ => false
  | _ => true

/-- The frame is that of a pass that polls this task. -/
def IsPolling (frame : Frame β) (c : ContextId) (id : TaskId) : Prop :=
  ∃ p : Pass, frame = .pass p ∧ p.context = c ∧ p.current = some id

/-- The operation runs the callback of this invocation. One that is to spawn a task has a context to
do so. -/
def Hosts (w : World β) (frame : Frame β) (inv : Invocation) : Prop :=
  match inv.role with
  | .program => False
  | .ready typeName => frame = .readyEnd typeName
  | .readyTask typeName => ∃ c owner, frame = .readySpawn c owner ∧ owner.typeName = typeName ∧
      inv.self = some owner.target ∧ ∃ x, w.context? c = some x
  | .task c id => frame.IsPolling c id
  | _ => frame.isDeaf = true

/-- The type under whose name the operation reports a failure of the callback that it runs. -/
def declarer? (w : World β) : Frame β → Option String
  | .readyEnd typeName => some typeName
  | .readySpawn _ owner => some owner.typeName
  | .pass p =>
    p.current.bind fun id =>
      ((w.context? p.context).bind fun x => x.passTasks.find? id).bind fun task =>
        task.owner.map (·.typeName)
  | _ => none

/-- What the operation reports when it gets a reply. -/
def reports? (w : World β) (frame : Frame β) : Reply β → Option ReadyFailure
  | .returned outcome =>
    (frame.declarer? w).bind fun typeName => outcome.failure?.map fun text => { typeName, text }
  | _ => none

theorem reports?_of_declarer {w : World β} {frame : Frame β} (h : frame.declarer? w = none)
    (reply : Reply β) : frame.reports? w reply = none := by
  unfold reports?
  split
  · rw [h]
    rfl
  · rfl

theorem hosts_of_isDeaf (w : World β) {frame : Frame β} (h : frame.isDeaf = true)
    {inv : Invocation} (hrole : inv.role.isPlain = true) : frame.Hosts w inv := by
  unfold Hosts
  split
  all_goals first | exact h | simp_all [Role.isPlain]

theorem IsPolling.hosts (w : World β) {frame : Frame β} {c : ContextId} {id : TaskId}
    (h : frame.IsPolling c id) {inv : Invocation} (hrole : inv.role = .task c id) :
    frame.Hosts w inv := by
  unfold Hosts
  rw [hrole]
  exact h

theorem Hosts.mono {v w : World β} (hw : World.Entrusts w v) {frame : Frame β} {inv : Invocation}
    (h : frame.Hosts w inv) : frame.Hosts v inv := by
  unfold Hosts at h ⊢
  split at h
  · exact h
  · exact h
  · obtain ⟨c, owner, hframe, htype, hself, x, hx⟩ := h
    obtain ⟨y, hy, -⟩ := hw c x hx
    exact ⟨c, owner, hframe, htype, hself, y, hy⟩
  · exact h
  · exact h

theorem hosts_ne_letGo {w : World β} {frame : Frame β} {inv : Invocation} (h : frame.Hosts w inv)
    (held : List Handle) : frame ≠ .letGo held := by
  rintro rfl
  unfold Hosts at h
  split at h
  · exact h
  · cases h
  · obtain ⟨c, owner, h, -⟩ := h
    cases h
  · obtain ⟨p, h, -⟩ := h
    cases h
  · cases h

end Frame

/-! ## Apt steps -/

/-- Whether a reply tells how a callback ended. -/
def Reply.isReturned : Reply β → Bool
  | .returned _ => true
  | _ => false

/-- What happens next is the turn of the first of the given frames, if it is that of a callback. -/
def Control.RunBy (w : World β) (frames : List (Frame β)) : Control β → Prop
  | .invoke _ inv => ∃ frame ∈ frames.head?, frame.Hosts w inv
  | .continueTask c id _ => ∃ frame ∈ frames.head?, frame.IsPolling c id
  | .deliver reply => reply.isReturned = false
  | .perform _ => True

/-- A step of an operation that leaves the owners of tasks alone, hosts the callback that it starts,
and reports what is given. -/
structure Progress.Apt (w : World β) (report? : Option ReadyFailure) (p : Progress β) : Prop where
  entrusts : World.Entrusts w p.world
  hosts : p.control.RunBy p.world p.frames
  report : p.report = report?

namespace Progress.Apt

variable {w v : World β} {report? : Option ReadyFailure}

theorem reply (h : World.Entrusts w v) {r : Reply β} (hr : r.isReturned = false) :
    Apt w none (.reply v r) :=
  ⟨h, hr, rfl⟩

theorem proceed (h : World.Entrusts w v) {frames : List (Frame β)} :
    Apt w none (.proceed v frames) :=
  ⟨h, rfl, rfl⟩

theorem host (h : World.Entrusts w v) {callback : β} {inv : Invocation} {frame : Frame β}
    {frames : List (Frame β)} (hf : frame.Hosts v inv) :
    Apt w none (.invoke v callback inv (frame :: frames)) :=
  ⟨h, ⟨frame, rfl, hf⟩, rfl⟩

theorem invoke (h : World.Entrusts w v) {callback : β} {inv : Invocation} {frame : Frame β}
    {frames : List (Frame β)} (hf : frame.isDeaf = true) (hrole : inv.role.isPlain = true) :
    Apt w none (.invoke v callback inv (frame :: frames)) :=
  host h (frame.hosts_of_isDeaf v hf hrole)

theorem perform (h : World.Entrusts w v) {command : Command β} {frames : List (Frame β)} :
    Apt w none (.perform v command frames) :=
  ⟨h, trivial, rfl⟩

/-- A change that leaves owners alone may come before. -/
theorem after {p : Progress β} (h : World.Entrusts w v) (hp : Apt v report? p) :
    Apt w report? p :=
  ⟨h.trans hp.entrusts, hp.hosts, hp.report⟩

end Progress.Apt

open Progress (Apt)

namespace World

variable (w : World β)

/-! ### Emissions and connections -/

theorem apt_emit (i : InstanceId) (detailed : String) (args : List Value) :
    Apt w none (w.emit i detailed args) := by
  unfold emit
  split
  · exact .reply (.refl w) rfl
  · dsimp only
    split
    · exact .reply (.refl w) rfl
    · split
      · exact .reply (.refl w) rfl
      · exact .proceed (.refl w)

theorem apt_nextHandler (e : Emission β) : Apt w none (e.next w) := by
  unfold Emission.next
  split
  · exact .reply (.refl w) rfl
  · dsimp only
    split
    · split
      · exact .invoke (.refl w) rfl rfl
      · exact .invoke (.refl w) rfl rfl
      · exact .proceed (entrusts_settle w _ _)
      · exact .proceed (entrusts_settle w _ _)
    · exact .proceed (.refl w)

theorem apt_resumeEmission (e : Emission β) (reply : Reply β) : Apt w none (e.resume w reply) := by
  rw [e.resume_eq]
  split
  · exact .reply (.refl w) rfl
  · exact apt_nextHandler w _

theorem apt_connect (i : InstanceId) (signal : String) (target : HandlerTarget β) :
    Apt w none (w.connect i signal target) := by
  unfold connect
  split
  · exact .reply (.refl w) rfl
  · split
    · exact .reply (.refl w) rfl
    · exact .reply (entrusts_modifyInstance w i _) rfl

theorem apt_disconnect (i : InstanceId) (h : HandlerId) : Apt w none (w.disconnect i h) := by
  unfold disconnect
  split
  · exact .reply (entrusts_modifyInstance w i _) rfl
  · exact .reply (.refl w) rfl

theorem apt_awaitEvent (i : InstanceId) (resolve : String) (reject : Option String) :
    Apt w none (w.awaitEvent i resolve reject) := by
  unfold awaitEvent
  split
  · exact .reply (.refl w) rfl
  · dsimp only
    split
    · exact .reply (.refl w) rfl
    · refine .reply ?_ rfl
      exact .of_eq rfl

/-! ### Actions -/

theorem apt_activateAction (a : ActionId) (parameter : Option Value) :
    Apt w none (w.activateAction a parameter) := by
  unfold activateAction
  split
  · exact .reply (.refl w) rfl
  · split
    · exact .reply (.refl w) rfl
    · split
      · exact .proceed (.refl w)
      · exact .reply (.refl w) rfl

theorem apt_activateFound (name : String) (found : Option ActionId) (parameter : Option Value) :
    Apt w none (w.activateFound name found parameter) := by
  unfold activateFound
  split
  · exact apt_activateAction w _ _
  · exact .reply (.refl w) rfl

theorem apt_activate (i : InstanceId) (name : String) (parameter : Option Value) :
    Apt w none (w.activate i name parameter) := by
  unfold activate
  split
  · exact .reply (.refl w) rfl
  · exact apt_activateFound w _ _ _

theorem apt_nextActivation (a : Activation β) : Apt w none (a.next w) := by
  unfold Activation.next
  split
  · exact .reply (.refl w) rfl
  · dsimp only
    split
    · exact .invoke (.refl w) rfl rfl
    · split
      · exact .invoke (.refl w) rfl rfl
      · exact .proceed (.refl w)

theorem apt_setActionState (a : ActionId) (state : Value) : Apt w none (w.setActionState a state) := by
  unfold setActionState
  split
  · exact .reply (.refl w) rfl
  · split
    · exact .reply (entrusts_modifyAction w a _) rfl
    · exact .reply (.refl w) rfl

theorem apt_addToGroup (g : GroupId) (a : ActionId) : Apt w none (w.addToGroup g a) := by
  unfold addToGroup
  split
  · exact .reply (.refl w) rfl
  · exact .reply (entrusts_modifyGroup w g _) rfl

/-! ### Properties, fields and methods -/

theorem apt_readProperty (i : InstanceId) (name : String) : Apt w none (w.readProperty i name) := by
  unfold readProperty
  split
  · exact .reply (.refl w) rfl
  · split
    · exact .reply (.refl w) rfl
    · exact .reply (.refl w) rfl
    · exact .invoke (.refl w) rfl rfl

theorem apt_storeValue (i : InstanceId) (x : Instance β) (spec : PropertySpec)
    (notify : Option NotifyPolicy) (equality : Option ObjectEquality) (effect : Option β)
    (value : Value) : Apt w none (w.storeValue i x spec notify equality effect value) :=
  storeValue_cases (P := Apt w none) w i x spec notify equality effect value
    (.proceed (entrusts_modifyInstance w i _)) (.proceed (entrusts_modifyInstance w i _))

theorem apt_writeProperty (i : InstanceId) (name : String) (value : Value) :
    Apt w none (w.writeProperty i name value) := by
  refine writeProperty_cases w i name value ?_ ?_ ?_ ?_ ?_
  · exact fun _ => .reply (.refl w) rfl
  · exact fun _ _ _ _ => .reply (.refl w) rfl
  · exact fun _ _ _ _ => .invoke (.refl w) rfl rfl
  · exact fun _ _ _ _ _ => .invoke (.refl w) rfl rfl
  · exact fun x _ _ _ _ _ _ => apt_storeValue w i x _ _ _ _ value

theorem apt_notify (i : InstanceId) (name : String) : Apt w none (w.notify i name) := by
  unfold notify
  split
  · exact .reply (.refl w) rfl
  · split
    · exact .reply (.refl w) rfl
    · exact .proceed (.refl w)

theorem apt_runEffect (i : InstanceId) (property : String) (effect : Option β) (value : Value) :
    Apt w none (w.runEffect i property effect value) := by
  unfold runEffect
  split
  · exact .reply (.refl w) rfl
  · exact .invoke (.refl w) rfl rfl

theorem apt_writeField (i : InstanceId) (name : String) (value : Value) :
    Apt w none (w.writeField i name value) := by
  unfold writeField
  split
  · exact .reply (.refl w) rfl
  · exact .reply (entrusts_modifyInstance w i _) rfl

theorem apt_call (i : InstanceId) (name : String) (args : List Value) :
    Apt w none (w.call i name args) := by
  unfold call
  split
  · exact .reply (.refl w) rfl
  · split
    · exact .reply (.refl w) rfl
    · split
      · exact .reply (.refl w) rfl
      · exact .invoke (.refl w) rfl rfl
      · dsimp only
        split
        · exact .invoke (entrusts_modifyInstance w i _) rfl rfl
        · refine .reply (.trans ?_ (entrusts_restartBurst _ i name _ _)) rfl
          exact entrusts_modifyInstance w i _

/-! ### Construction -/

theorem apt_construct (con : Construction β) : Apt w none (w.construct con) := by
  unfold construct
  split
  · exact .reply (.refl w) rfl
  · have hfields := (entrusts_addInstance w con.ofClass con.context).trans
      (entrusts_presetFields _ ⟨w.nextInstance⟩ con.fields)
    dsimp only
    split
    · refine .proceed (hfields.trans (.trans ?_ (entrusts_initializeLevels _ _ _)))
      exact entrusts_presetFields _ _ _
    · exact ⟨hfields.trans (entrusts_presetFields _ _ _), rfl, rfl⟩

theorem apt_continueConstructing (i : InstanceId) (properties : List (String × Value))
    (reply : Reply β) : Apt w none (w.continueConstructing i properties reply) := by
  unfold continueConstructing
  split
  · exact .reply (.refl w) rfl
  · split
    · exact .perform (.refl w)
    · split
      · exact .reply (.refl w) rfl
      · exact .proceed (entrusts_modifyInstance w i _)

theorem apt_continueInitializing (i : InstanceId) (hooks : List (String × β)) :
    Apt w none (w.continueInitializing i hooks) := by
  unfold continueInitializing
  split
  · exact .invoke (.refl w) rfl rfl
  · split
    · exact .reply (.refl w) rfl
    · exact .reply (entrusts_scheduleHooks w i _) rfl

/-! ### Declarations -/

theorem apt_registered (result : Except RegistrationError (Registry × TypeHandle)) :
    Apt w none (w.registered result) := by
  unfold registered
  split
  · refine .reply ?_ rfl
    exact .of_eq rfl
  · exact .reply (.refl w) rfl

theorem apt_finalize (builder : ClassBuilder β) : Apt w none (w.finalize builder) := by
  unfold finalize
  split
  · refine .reply ?_ rfl
    exact .of_eq rfl
  · exact .reply (.refl w) rfl

/-! ### Sources and iterations -/

theorem apt_addSource (c : ContextId) {attach : MainContext β → MainContext β × SourceId}
    (h : ∀ x : MainContext β, x.Entrusts (attach x).1) : Apt w none (w.addSource c attach) := by
  unfold addSource
  split
  · exact .reply (.refl w) rfl
  · next x hx => exact .reply (entrusts_setContext w hx (h x)) rfl

theorem apt_removeSource (c : ContextId) (id : SourceId) : Apt w none (w.removeSource c id) := by
  unfold removeSource
  split
  · exact .reply (.refl w) rfl
  · next x hx =>
    split
    · refine .reply (entrusts_setContext w hx ?_) rfl
      exact MainContext.entrusts_of_eq rfl rfl
    · exact .reply (.refl w) rfl

theorem apt_iterate (c : ContextId) : Apt w none (w.iterate c) := by
  unfold iterate
  split
  · exact .reply (.refl w) rfl
  · next x hx =>
    split
    · next y hy => exact .proceed (entrusts_setContext w hx (x.entrusts_beginPass hy))
    · exact .proceed (.refl w)

theorem apt_collect (c : ContextId) (polled : Bool) : Apt w none (w.collect c polled) := by
  unfold collect
  split
  · exact .reply (.refl w) rfl
  · next x hx =>
    refine .proceed (entrusts_setContext w hx ?_)
    exact MainContext.entrusts_of_eq rfl rfl

theorem apt_startWork {c : ContextId} {x : MainContext β} (hx : w.context? c = some x)
    (id : SourceId) (work : SourceWork β) {frame : Frame β} (hframe : frame.isDeaf = true)
    (frames : List (Frame β)) : Apt w none (w.startWork c id work (frame :: frames)) := by
  refine startWork_cases (P := fun _ p => Apt w none p) w c id work (frame :: frames)
    ?_ ?_ ?_ ?_ ?_ ?_ ?_ ?_
  · exact fun _ => .invoke (.refl w) hframe rfl
  · exact fun _ => .invoke (.refl w) hframe rfl
  · exact fun _ _ _ _ => .proceed (.refl w)
  · exact fun i _ _ _ => .host (entrusts_modifyInstance w i _) rfl
  · exact fun i typeName _ _ => .host (entrusts_modifyInstance w i _)
      ⟨c, ⟨i, typeName⟩, rfl, rfl, rfl, x, hx⟩
  · exact fun _ _ _ _ _ => .proceed (.refl w)
  · exact fun i _ _ _ _ _ _ _ _ => .proceed (entrusts_modifyInstance w i _)
  · exact fun i _ _ _ _ _ _ _ _ _ => .invoke (entrusts_modifyInstance w i _) hframe rfl

theorem apt_continueIteration (c : ContextId) (ready : List SourceId) (worked : Bool) :
    Apt w none (w.continueIteration c ready worked) := by
  unfold continueIteration
  split
  · exact .reply (.refl w) rfl
  · dsimp only
    split
    · exact .proceed (.refl w)
    · next id rest _ y work hbegin =>
      obtain ⟨x, hx, hrun⟩ := Option.bind_eq_some_iff.mp hbegin
      have hset : Entrusts w (w.setContext c y) := entrusts_setContext w hx (x.entrusts_beginRun hrun)
      refine .after hset (apt_startWork _ (x := y) ?_ id work rfl _)
      rw [context?_setContext w hx, if_pos rfl]

theorem apt_endSource (c : ContextId) (id : SourceId) (mayStay : Bool) (reply : Reply β) :
    Apt w none (w.endSource c id mayStay reply) :=
  .proceed (entrusts_modifyContext w c fun x => x.entrusts_endRun id _)

theorem apt_endReady (typeName : String) (reply : Reply β) :
    Apt w ((Frame.readyEnd typeName).reports? w reply) (w.endReady typeName reply) := by
  refine ⟨.refl w, rfl, ?_⟩
  cases reply <;> rfl

theorem apt_spawnReady (c : ContextId) (owner : ReadyOwner) (reply : Reply β) :
    Apt w ((Frame.readySpawn c owner).reports? w reply) (w.spawnReady c owner reply) := by
  unfold spawnReady
  split
  · exact .proceed (entrusts_modifyContext w c fun x => x.entrusts_spawn _ _)
  · exact apt_endReady w owner.typeName reply

/-! ### Passes over tasks -/

theorem apt_finish (p : Pass) : Apt w none (p.finish w) := by
  unfold Pass.finish
  split
  · exact .reply (entrusts_modifyContext w _ fun x => x.entrusts_endPass _) rfl
  · exact .proceed (entrusts_modifyContext w _ fun x => x.entrusts_dropTask _)

theorem apt_pollNext (p : Pass) : Apt w none (p.pollNext w) := by
  unfold Pass.pollNext
  split
  · exact .reply (.refl w) rfl
  · next x hx =>
    have hset := entrusts_setContext w hx x.entrusts_dequeue
    generalize x.passTasks.dequeue = dequeued at hset ⊢
    obtain ⟨task?, set⟩ := dequeued
    dsimp only at hset ⊢
    split
    · exact .after hset (apt_finish _ p)
    · next task =>
      have hpolls : Frame.IsPolling (.pass { p with current := some task.id } : Frame β) p.context
          task.id := ⟨_, rfl, rfl, rfl⟩
      split
      · refine .host (hset.trans (entrusts_modifyPass _ _ fun set => ?_)) (hpolls.hosts _ rfl)
        exact set.within_modify _ fun _ => ⟨rfl, rfl⟩
      · next event _ =>
        have htake := hset.trans (entrusts_takeOutcome _ event)
        split
        · next v outcome htaken =>
          rw [htaken] at htake
          refine ⟨htake.trans (entrusts_modifyPass _ _ fun set => ?_), ⟨_, rfl, hpolls⟩, rfl⟩
          exact set.within_modify _ fun _ => ⟨rfl, rfl⟩
        · next v htaken =>
          rw [htaken] at htake
          exact ⟨htake, rfl, rfl⟩

theorem apt_beginRound (p : Pass) : Apt w none (p.beginRound w) :=
  .after (entrusts_modifyPass w p.context TaskSet.within_listen) (apt_pollNext _ _)

theorem apt_taskFinished (p : Pass) (outcome : Outcome β) :
    Apt w ((Frame.pass p).reports? w (.returned outcome)) (p.taskFinished w outcome) := by
  cases hcurrent : p.current with
  | none =>
    unfold Pass.taskFinished Frame.reports? Frame.declarer?
    dsimp only
    rw [hcurrent]
    exact apt_beginRound w p
  | some id =>
    unfold Pass.taskFinished
    rw [hcurrent]
    refine ⟨entrusts_modifyPass w _ (TaskSet.within_remove · id), rfl, ?_⟩
    unfold Frame.reports? Frame.declarer?
    dsimp only
    rw [hcurrent, Option.bind_some]
    generalize ((w.context? p.context).bind fun x => x.passTasks.find? id) = task?
    cases task? with
    | none => rfl
    | some task => cases hown : task.owner <;> simp [hown]

theorem apt_taskWaits (p : Pass) : Apt w none (p.taskWaits w) := by
  unfold Pass.taskWaits
  extract_lets v q
  have hv : Entrusts w v := by
    unfold v
    split
    · exact .refl w
    · exact entrusts_modifyPass w _ fun set => set.within_reenter _
  split
  · refine .after (hv.trans (entrusts_modifyContext v _ fun x => ?_)) (apt_finish _ q)
    exact MainContext.entrusts_of_eq rfl rfl
  · exact .after hv (apt_pollNext v q)

theorem apt_resumePass (p : Pass) (reply : Reply β) :
    Apt w ((Frame.pass p).reports? w reply) (p.resume w reply) := by
  cases reply with
  | returned outcome => exact apt_taskFinished w p outcome
  | suspended => exact apt_taskWaits w p
  | _ => exact apt_beginRound w p

/-! ### Driving a context -/

theorem apt_drain (c : ContextId) (count : Nat) : Apt w none (w.drain c count) := by
  unfold drain
  split
  · exact .reply (.refl w) rfl
  · split
    · exact .perform (.refl w)
    · exact .reply (.refl w) rfl

theorem apt_continueDrain (c : ContextId) (count : Nat) (reply : Reply β) :
    Apt w none (w.continueDrain c count reply) := by
  unfold continueDrain
  split
  · exact apt_drain w c _
  · exact .reply (.refl w) rfl
  · exact apt_drain w c _

theorem apt_advance (c : ContextId) (duration : Nat) : Apt w none (w.advance c duration) := by
  unfold advance
  split
  · exact .reply (.refl w) rfl
  · dsimp only
    split
    · exact .perform (.refl w)
    · exact .perform (entrusts_setTime w c _)

theorem apt_stepClock (c : ContextId) (target count : Nat) :
    Apt w none (w.stepClock c target count) := by
  unfold stepClock
  split
  · exact .reply (.refl w) rfl
  · split
    · exact .perform (entrusts_setTime w c _)
    · split
      · exact .perform (entrusts_setTime w c _)
      · exact .perform (entrusts_setTime w c _)

theorem apt_continueAdvance (c : ContextId) (target count : Nat) (stage : AdvanceStage)
    (reply : Reply β) : Apt w none (w.continueAdvance c target count stage reply) := by
  unfold continueAdvance
  extract_lets ran
  clear_value ran
  cases stage with
  | before => exact apt_stepClock w c _ _
  | within =>
    dsimp only
    split
    · exact .perform (entrusts_setTime w c _)
    · exact apt_stepClock w c _ _
  | after => exact .reply (.refl w) rfl

theorem apt_endLoop (l : LoopId) : Apt w none (w.endLoop l) :=
  .reply (entrusts_setRunning w l false) rfl

theorem apt_checkLoop (l : LoopId) : Apt w none (w.checkLoop l) := by
  unfold checkLoop
  split
  · exact .reply (.refl w) rfl
  · split
    · exact .perform (.refl w)
    · exact apt_endLoop w l

theorem apt_continueLoop (l : LoopId) (reply : Reply β) : Apt w none (w.continueLoop l reply) := by
  unfold continueLoop
  split
  · exact apt_checkLoop w l
  · split
    · exact .reply (.refl w) rfl
    · split
      · exact .reply (.refl w) rfl
      · split
        · exact .perform (.refl w)
        · split
          · exact apt_checkLoop w l
          · exact apt_endLoop w l

/-! ### All commands and frames -/

/-- Every command begins aptly, and without a report. -/
theorem apt_perform (command : Command β) : Apt w none (w.perform command) := by
  cases command with
  | registerEnum name members => exact apt_registered w _
  | registerInterface name => exact apt_registered w _
  | registerClass registration => exact apt_registered w _
  | finalize builder => exact apt_finalize w _
  | construct con => exact apt_construct w con
  | property i name => exact apt_readProperty w _ _
  | setProperty i name value => exact apt_writeProperty w _ _ _
  | notify i name => exact apt_notify w _ _
  | setField i name value => exact apt_writeField w _ _ _
  | dispose i => exact .reply (entrusts_dispose w i) rfl
  | connect i signal callback => exact apt_connect w _ _ _
  | connectNotify i property callback => exact apt_connect w _ _ _
  | disconnect i handler => exact apt_disconnect w _ _
  | emit i signal args => exact apt_emit w _ _ _
  | call i name args => exact apt_call w _ _ _
  | newAction name options => exact .reply (entrusts_addAction w _) rfl
  | enableAction a enabled => exact .reply (entrusts_modifyAction w a _) rfl
  | setActionState a state => exact apt_setActionState w _ _
  | connectAction a callback => exact .reply (entrusts_modifyAction w a _) rfl
  | activateAction a parameter => exact apt_activateAction w _ _
  | activate i name parameter => exact apt_activate w _ _ _
  | attachAction i a => exact .reply (entrusts_attachAction w i a) rfl
  | setAccels i name accels => exact .reply (entrusts_modifyInstance w i _) rfl
  | newGroup => exact .reply (entrusts_addGroup w) rfl
  | ownGroup i =>
    unfold perform
    dsimp only
    split
    · exact .reply (.refl w) rfl
    · exact .reply (entrusts_ownGroup w i _) rfl
  | insertGroup i qualifier g => exact .reply (entrusts_modifyInstance w i _) rfl
  | addToGroup g a => exact apt_addToGroup w _ _
  | removeFromGroup g name => exact .reply (entrusts_modifyGroup w g _) rfl
  | activateInGroup g name parameter => exact apt_activateFound w _ _ _
  | newContext config => exact .reply (entrusts_addContext w config) rfl
  | addIdle c priority once callback =>
    exact apt_addSource w c fun x => x.entrusts_attach _ _ _ _
  | addTimeout c priority interval once callback =>
    exact apt_addSource w c fun x => x.entrusts_attach _ _ _ _
  | removeSource c id => exact apt_removeSource w _ _
  | iterate c => exact apt_iterate w _
  | runUntilIdle c => exact apt_drain w _ _
  | advance c duration => exact apt_advance w _ _
  | spawn c callback =>
    exact .reply (entrusts_modifyContext w c fun x => x.entrusts_spawn callback none) rfl
  | newLoop c => exact .reply (entrusts_addLoop w c) rfl
  | runLoop l => exact .proceed (entrusts_setRunning w l true)
  | quitLoop l => exact .reply (entrusts_setRunning w l false) rfl
  | awaitEvent i resolve reject => exact apt_awaitEvent w _ _ _
  | pollEvent e => exact .reply (entrusts_takeOutcome w e) rfl

end World

/-- Every operation goes on aptly. What only hands a reply on is never told how a callback ended. -/
theorem Frame.apt_resume (w : World β) (frame : Frame β) (reply : Reply β)
    (h : ∀ held, frame = .letGo held → reply.isReturned = false) :
    Apt w (frame.reports? w reply) (frame.resume w reply) := by
  have hdeaf (hnone : frame.declarer? w = none) (hapt : Apt w none (frame.resume w reply)) :
      Apt w (frame.reports? w reply) (frame.resume w reply) :=
    frame.reports?_of_declarer hnone reply ▸ hapt
  cases frame with
  | reportChange i name => exact hdeaf rfl (.proceed (.refl w))
  | runEffect i property effect value => exact hdeaf rfl (w.apt_runEffect _ _ _ _)
  | finishWrite i => exact hdeaf rfl (.reply (.refl w) rfl)
  | orDefault i default => exact hdeaf rfl (.reply (.refl w) rfl)
  | emission e => exact hdeaf rfl (w.apt_resumeEmission e reply)
  | result i => exact hdeaf rfl (.reply (.refl w) rfl)
  | startInterval i name debounce callback =>
    exact hdeaf rfl (.reply (w.entrusts_restartBurst i name debounce callback) rfl)
  | activation a => exact hdeaf rfl (w.apt_nextActivation a)
  | letGo held => exact hdeaf rfl (.reply (.refl w) (h held rfl))
  | constructing i properties => exact hdeaf rfl (w.apt_continueConstructing _ _ _)
  | initializing i hooks => exact hdeaf rfl (w.apt_continueInitializing _ _)
  | readyEnd typeName => exact w.apt_endReady typeName reply
  | readySpawn c owner => exact w.apt_spawnReady c owner reply
  | sourceEnd c id mayStay => exact hdeaf rfl (w.apt_endSource _ _ _ _)
  | iteration c ready worked => exact hdeaf rfl (w.apt_continueIteration _ _ _)
  | collect c polled => exact hdeaf rfl (w.apt_collect _ _)
  | pass p => exact w.apt_resumePass p reply
  | finishPass p => exact hdeaf rfl (w.apt_finish p)
  | drain c count => exact hdeaf rfl (w.apt_continueDrain _ _ _)
  | advance c target count stage => exact hdeaf rfl (w.apt_continueAdvance _ _ _ _ _)
  | loop l => exact hdeaf rfl (w.apt_checkLoop l)
  | looped l => exact hdeaf rfl (w.apt_continueLoop l reply)

/-! ## Callbacks on the stack -/

/-- The callback of the invocation has its place on top of a stack: it stands on the operation that
runs it, or is the program and stands on nothing. -/
def Invocation.SitsOn (w : World β) (inv : Invocation) : List (Layer β κ) → Prop
  | [] => inv.role = .program
  | .operation frame :: _ => frame.Hosts w inv
  | .callback .. :: _ => False

theorem Invocation.SitsOn.mono {v w : World β} (hw : World.Entrusts w v) {inv : Invocation}
    {stack : List (Layer β κ)} (h : inv.SitsOn w stack) : inv.SitsOn v stack := by
  match stack with
  | [] => exact h
  | .operation frame :: _ => exact Frame.Hosts.mono hw h
  | .callback .. :: _ => exact h

namespace Machine

/-- Every callback of a stack has its place there. -/
def Settled (w : World β) : List (Layer β κ) → Prop
  | [] => True
  | .operation _ :: stack => Settled w stack
  | .callback _ inv :: stack => inv.SitsOn w stack ∧ Settled w stack

/-- Every callback is hosted: those on the stack, one that is about to start or to go on, and one
that has just ended. What is suspended is a task. -/
structure Hosting (m : Machine σ β κ) : Prop where
  stack : Settled m.world m.stack
  suspended : ∀ s ∈ m.suspended, s.invocation.role = .task s.context s.task
  invokes : ∀ callback inv, m.control = .invoke callback inv → inv.SitsOn m.world m.stack
  continues : ∀ c id outcome, m.control = .continueTask c id outcome →
    ∃ frame stack, m.stack = .operation frame :: stack ∧ frame.IsPolling c id
  returns : ∀ outcome, m.control = .deliver (.returned outcome) →
    ∃ inv : Invocation, inv.SitsOn m.world m.stack

section
variable {v w : World β} {stack : List (Layer β κ)}

theorem Settled.append (frames : List (Frame β)) (h : Settled w stack) :
    Settled w (frames.map .operation ++ stack) := by
  induction frames with
  | nil => exact h
  | cons f frames ih => exact ih

theorem Settled.mono (hw : World.Entrusts w v) (h : Settled w stack) : Settled v stack := by
  induction stack with
  | nil => trivial
  | cons layer stack ih =>
    cases layer with
    | operation frame => exact ih h
    | callback rest inv => exact ⟨h.1.mono hw, ih h.2⟩

end

section
variable {client : Client σ β κ} {m : Machine σ β κ}

theorem entrusts_reclaim (before : Machine σ β κ) :
    World.Entrusts m.world (reclaim client before m).world := by
  refine reclaim_induction client before m (P := World.Entrusts m.world) ?_ ?_ (.refl _)
  · exact fun v i h => h.trans (.of_eq rfl)
  · exact fun v e h => h.trans (v.entrusts_settle e _)

theorem entrusts_move {stack : List (Layer β κ)} {inv : Invocation} (next : Move β κ) :
    World.Entrusts m.world (m.move stack inv next).world := by
  cases next with
  | await event rest =>
    have htake := m.world.entrusts_takeOutcome event
    unfold move awaitEvent
    dsimp only
    split
    · split
      · next w outcome hw =>
        rw [hw] at htake
        exact htake
      · next w hw =>
        rw [hw] at htake
        have hmark (events : Table EventId Event) : World.Entrusts w { w with events } := .of_eq rfl
        refine (htake.trans (hmark _)).trans (World.entrusts_modifyPass _ _ fun set => ?_)
        exact set.within_modify _ fun _ => ⟨rfl, rfl⟩
    · exact .refl _
  | _ => exact .refl _

end

namespace Hosting

variable {m m' : Machine σ β κ} {client : Client σ β κ}

theorem mono (h : m.Hosting) (hw : World.Entrusts m.world m'.world) (hstack : m'.stack = m.stack)
    (hcontrol : m'.control = m.control) (hsuspended : m'.suspended = m.suspended) :
    m'.Hosting where
  stack := hstack ▸ h.stack.mono hw
  suspended := hsuspended ▸ h.suspended
  invokes callback inv hc := hstack ▸ (h.invokes callback inv (hcontrol ▸ hc)).mono hw
  continues := hcontrol ▸ hstack ▸ h.continues
  returns outcome hc := by
    obtain ⟨inv, hsits⟩ := h.returns outcome (hcontrol ▸ hc)
    exact ⟨inv, hstack ▸ hsits.mono hw⟩

/-- With a callback on top of the stack that has its place there, and anything but the end of a
callback told to it. -/
theorem of_callback {rest : κ} {inv : Invocation} {stack : List (Layer β κ)}
    (hstack : m.stack = .callback rest inv :: stack) (hsits : inv.SitsOn m.world stack)
    (hsettled : Settled m.world stack)
    (hsuspended : ∀ s ∈ m.suspended, s.invocation.role = .task s.context s.task)
    (hcontrol : (∃ command, m.control = .perform command) ∨
      ∃ reply, m.control = .deliver reply ∧ reply.isReturned = false) : m.Hosting := by
  refine ⟨hstack ▸ ⟨hsits, hsettled⟩, hsuspended, ?_, ?_, ?_⟩
  · intro callback inv' hc
    rcases hcontrol with ⟨command, h⟩ | ⟨reply, h, -⟩ <;> cases hc.symm.trans h
  · intro c id outcome hc
    rcases hcontrol with ⟨command, h⟩ | ⟨reply, h, -⟩ <;> cases hc.symm.trans h
  · intro outcome hc
    rcases hcontrol with ⟨command, h⟩ | ⟨reply, h, hreply⟩
    · cases hc.symm.trans h
    · cases hc.symm.trans h
      cases hreply

/-- An apt step of an operation hosts what it starts. -/
theorem follow {report? : Option ReadyFailure} {p : Progress β} (h : m.Hosting)
    (hp : Apt m.world report? p) {stack : List (Layer β κ)} (hstack : Settled m.world stack) :
    (m.follow client stack p).Hosting := by
  have hhead {frame : Frame β} (hframe : frame ∈ p.frames.head?) :
      ∃ rest, (m.follow client stack p).stack = .operation frame :: rest := by
    obtain ⟨frames, hframes⟩ := List.head?_eq_some_iff.mp hframe
    unfold Machine.follow
    dsimp only
    rw [hframes]
    exact ⟨_, rfl⟩
  refine ⟨(hstack.mono hp.entrusts).append _, h.suspended, ?_, ?_, ?_⟩
  · intro callback inv hc
    have hruns := hp.hosts
    rw [show p.control = .invoke callback inv from hc] at hruns
    obtain ⟨frame, hframe, hhosts⟩ := hruns
    obtain ⟨rest, hrest⟩ := hhead hframe
    rw [hrest]
    exact hhosts
  · intro c id outcome hc
    have hruns := hp.hosts
    rw [show p.control = .continueTask c id outcome from hc] at hruns
    obtain ⟨frame, hframe, hpolls⟩ := hruns
    obtain ⟨rest, hrest⟩ := hhead hframe
    exact ⟨frame, rest, hrest, hpolls⟩
  · intro outcome hc
    have hruns := hp.hosts
    rw [show p.control = .deliver (.returned outcome) from hc] at hruns
    cases hruns

/-- An operation that only hands a reply on hears of the end of no callback. -/
theorem letGo_hears (h : m.Hosting) {frame : Frame β} {reply : Reply β} {stack : List (Layer β κ)}
    (hm : m.control = .deliver reply) (hs : m.stack = .operation frame :: stack) :
    ∀ held, frame = .letGo held → reply.isReturned = false := by
  intro held hframe
  cases reply with
  | returned outcome =>
    obtain ⟨inv, hsits⟩ := h.returns outcome hm
    rw [hs] at hsits
    exact absurd hframe (Frame.hosts_ne_letGo hsits held)
  | _ => rfl

theorem apt_resume (h : m.Hosting) {frame : Frame β} {reply : Reply β} {stack : List (Layer β κ)}
    (hm : m.control = .deliver reply) (hs : m.stack = .operation frame :: stack) :
    Apt m.world (frame.reports? m.world reply) (frame.resume m.world reply) :=
  frame.apt_resume m.world reply (h.letGo_hears hm hs)

theorem move {inv : Invocation} {stack : List (Layer β κ)} (h : m.Hosting)
    (hsits : inv.SitsOn m.world stack) (hsettled : Settled m.world stack) (next : Move β κ) :
    (m.move stack inv next).Hosting := by
  have hmove : World.Entrusts m.world (m.move stack inv next).world := entrusts_move next
  cases next with
  | finish outcome => exact ⟨hsettled, h.suspended, nofun, nofun, fun _ _ => ⟨inv, hsits⟩⟩
  | command command rest =>
    exact .of_callback rfl hsits hsettled h.suspended (.inl ⟨command, rfl⟩)
  | pause rest => exact .of_callback rfl hsits hsettled h.suspended (.inr ⟨_, rfl, rfl⟩)
  | await event rest =>
    have hsits := hsits.mono hmove
    have hsettled := hsettled.mono hmove
    revert hsits hsettled
    unfold Machine.move awaitEvent
    dsimp only
    split
    · next c task hrole =>
      split
      · exact fun hsits hsettled =>
          .of_callback rfl hsits hsettled h.suspended (.inr ⟨_, rfl, rfl⟩)
      · refine fun hsits hsettled => ⟨hsettled, fun s hs => ?_, nofun, nofun, nofun⟩
        rcases List.mem_append.mp hs with hs | hs
        · exact h.suspended s hs
        · rw [List.mem_singleton.mp hs]
          exact hrole
    · exact fun hsits hsettled =>
        .of_callback rfl hsits hsettled h.suspended (.inr ⟨_, rfl, rfl⟩)

theorem continueTask (h : m.Hosting) {c : ContextId} {id : TaskId} {outcome : EventOutcome}
    (hm : m.control = .continueTask c id outcome) : (m.continueTask c id outcome).Hosting := by
  obtain ⟨frame, stack, hs, hpolls⟩ := h.continues c id outcome hm
  unfold Machine.continueTask
  extract_lets isTask
  split
  · exact ⟨h.stack, h.suspended, nofun, nofun, nofun⟩
  · next s hfind =>
    have htask : s.context = c ∧ s.task = id := by simpa [isTask] using List.find?_some hfind
    have hrole := h.suspended s (List.mem_of_find?_eq_some hfind)
    rw [htask.1, htask.2] at hrole
    refine .of_callback rfl ?_ h.stack (fun s hs => ?_) (.inr ⟨_, rfl, rfl⟩)
    · rw [hs]
      exact hpolls.hosts _ hrole
    · exact h.suspended s (List.mem_of_mem_filter hs)

theorem advance (h : m.Hosting) : (m.advance client).Hosting := by
  unfold Machine.advance
  split
  · next command hm => exact h.follow (m.world.apt_perform command) h.stack
  · next callback inv hm =>
    exact .of_callback rfl (h.invokes callback inv hm) h.stack h.suspended (.inr ⟨_, rfl, rfl⟩)
  · next c task outcome hm => exact h.continueTask hm
  · next reply hm =>
    have hsettled := h.stack
    split
    · exact h
    · next rest inv stack hs =>
      rw [hs] at hsettled
      let state := (client.resume m.world m.client rest reply).1
      have hheard : ({ m with client := state } : Machine σ β κ).Hosting :=
        h.mono (.refl _) rfl rfl rfl
      exact hheard.move hsettled.1 hsettled.2 _
    · next frame stack hs =>
      rw [hs] at hsettled
      exact h.follow (h.apt_resume hm hs) hsettled

theorem step (h : m.Hosting) : (m.step client).Hosting :=
  h.advance.mono (entrusts_reclaim m) (stack_step client m) (control_step client m)
    (suspended_reclaim client m _)

end Hosting

theorem Reachable.hosting {client : Client σ β κ} {m : Machine σ β κ} (h : Reachable client m) :
    m.Hosting := by
  induction h with
  | initial state callback =>
    refine ⟨trivial, nofun, fun _ inv hc => ?_, nofun, nofun⟩
    cases hc
    rfl
  | step _ ih => exact ih.step

/-! ## Owners along a run -/

section
variable {client : Client σ β κ} {m : Machine σ β κ}

/-- **Tasks keep their owners** in every step. -/
theorem Reachable.entrusts (hreach : Reachable client m) :
    World.Entrusts m.world (m.step client).world := by
  refine World.Entrusts.trans ?_ (entrusts_reclaim m)
  unfold advance
  split
  · next command _ => exact (m.world.apt_perform command).entrusts
  · exact .refl _
  · unfold Machine.continueTask
    dsimp only
    split <;> exact .refl _
  · next reply hm =>
    split
    · exact .refl _
    · next rest inv stack hs =>
      let state := (client.resume m.world m.client rest reply).1
      exact entrusts_move (m := { m with client := state }) _
    · next frame stack hs => exact (hreach.hosting.apt_resume hm hs).entrusts

theorem Reachable.entrusts_after (hreach : Reachable client m) (n : Nat) :
    World.Entrusts m.world (m.after client n).world := by
  induction n with
  | zero => exact .refl _
  | succ n ih => exact ih.trans (hreach.after n).entrusts

end

end Machine

end ObjectSystem
