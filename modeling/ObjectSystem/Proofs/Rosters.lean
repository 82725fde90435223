import ObjectSystem.Proofs.Timetable

/-!
# Operations that leave tasks alone

Only three kinds of steps have to do with the tasks of a context: a task is spawned, an iteration
begins a pass, and a pass goes on. All others are *taskless* (`taskless_perform`, `taskless_resume`):
they leave every roster as it is and begin no pass.
-/

namespace ObjectSystem

variable {β : Type}

/-- The pass that an operation in progress carries out. -/
def Frame.pass? : Frame β → Option Pass
  | .pass p | .finishPass p => some p
  | _ => none

theorem Frame.pass?_of_isQuiet {f : Frame β} (h : f.isQuiet = true) : f.pass? = none := by
  cases f <;> first | rfl | cases h

namespace World

/-- The roster of a context; a context that does not exist has no tasks. -/
def roster (w : World β) (c : ContextId) : Roster :=
  (w.roster? c).getD ⟨[], [], [], 0, 0⟩

section
variable {u v w : World β} {c : ContextId}

theorem roster_eq {x : MainContext β} (hx : w.context? c = some x) : w.roster c = x.roster := by
  unfold roster roster?
  rw [hx]
  rfl

theorem roster_of_eq (h : v.roster? c = w.roster? c) : v.roster c = w.roster c :=
  congrArg (Option.getD · _) h

theorem roster_setContext {d : ContextId} {x y : MainContext β} (hx : w.context? d = some x)
    (hy : y.roster = x.roster) (c : ContextId) : (w.setContext d y).roster c = w.roster c :=
  roster_of_eq (roster?_setContext_of_eq w hx hy c)

theorem roster_modifyContext (w : World β) (d : ContextId) {f : MainContext β → MainContext β}
    (hf : ∀ x, (f x).roster = x.roster) (c : ContextId) :
    (w.modifyContext d f).roster c = w.roster c :=
  roster_of_eq (roster?_modifyContext_of_eq w d hf c)

theorem Calm.roster_eq (h : Calm w v) (c : ContextId) : v.roster c = w.roster c :=
  roster_of_eq (h.roster c)

/-- A new context has no tasks, as if it did not exist. -/
theorem roster_addContext (w : World β) (config : Config) (c : ContextId) :
    (w.addContext config).1.roster c = w.roster c := by
  unfold roster roster?
  rw [context?_addContext]
  cases w.context? c with
  | some x => rfl
  | none =>
      rw [Option.none_or]
      split <;> rfl

theorem roster_setTime (w : World β) (d : ContextId) (now : Nat) (c : ContextId) :
    (w.setTime d now).roster c = w.roster c :=
  roster_modifyContext w d (f := ({ · with now })) (fun _ => rfl) c

theorem roster_detachSources (w : World β) (d : ContextId) (ids : List SourceId) (c : ContextId) :
    (w.detachSources d ids).roster c = w.roster c := by
  refine roster_modifyContext w d (fun x => ?_) c
  induction ids generalizing x with
  | nil => rfl
  | cons id rest ih => exact ih (x.detach id)

theorem roster_dispose (w : World β) (i : InstanceId) (c : ContextId) :
    (w.dispose i).roster c = w.roster c :=
  dispose_induction (P := fun v => v.roster c = w.roster c) w i rfl
    fun x _ _ => roster_detachSources w x.context _ c

theorem roster_attachNow {d : ContextId} {x : MainContext β} (hx : w.context? d = some x)
    (kind : SourceKind) (priority : Priority) (work : SourceWork β) (c : ContextId) :
    (w.setContext d (x.attachNow kind priority work).1).roster c = w.roster c :=
  roster_setContext hx (y := (x.attachNow kind priority work).1) rfl c

theorem roster_scheduleHooks (w : World β) (i : InstanceId) (x : Instance β) (c : ContextId) :
    (w.scheduleHooks i x).roster c = w.roster c := by
  refine scheduleHooks_induction (P := fun v => v.roster c = w.roster c) w i x rfl
    fun v typeName hook hv => ?_
  refine scheduleReady_induction (P := fun v => v.roster c = w.roster c) v i typeName hook hv
    fun z y _ hy => ?_
  exact (roster_attachNow hy .idle .standard _ c).trans hv

theorem roster_restartBurst (w : World β) (i : InstanceId) (name : String) (debounce : Debounce)
    (callback : β) (c : ContextId) : (w.restartBurst i name debounce callback).roster c =
      w.roster c := by
  refine restartBurst_induction (P := fun v => v.roster c = w.roster c) w i name debounce callback
    rfl fun x y _ hy => ?_
  have hdetach := roster_detachSources w x.context (x.burst name).pending.toList c
  exact (roster_attachNow hy (.timeout debounce.interval) .standard _ c).trans hdetach

theorem roster_endRun (w : World β) (d : ContextId) (id : SourceId) (stays : Bool)
    (c : ContextId) : (w.modifyContext d (·.endRun id stays)).roster c = w.roster c := by
  refine roster_modifyContext w d (fun x => ?_) c
  unfold MainContext.endRun
  split <;> rfl

end

end World

/-! ## Taskless steps -/

/-- A step that leaves every roster alone and begins no pass. -/
structure Progress.Taskless (w : World β) (p : Progress β) : Prop where
  roster : ∀ c, p.world.roster c = w.roster c
  frames : ∀ f ∈ p.frames, f.pass? = none

namespace Progress.Taskless

variable {v w : World β}

theorem of_quiet {p : Progress β} (h : p.Quiet w) : Taskless w p :=
  ⟨h.calm.roster_eq, fun f hf => Frame.pass?_of_isQuiet (h.frames f hf)⟩

theorem reply (h : ∀ c, v.roster c = w.roster c) (r : Reply β) : Taskless w (.reply v r) :=
  ⟨h, fun _ hf => (by cases hf)⟩

theorem proceed (h : ∀ c, v.roster c = w.roster c) {frames : List (Frame β)}
    (hf : ∀ f ∈ frames, f.pass? = none) : Taskless w (.proceed v frames) :=
  ⟨h, hf⟩

theorem invoke (h : ∀ c, v.roster c = w.roster c) (callback : β) (inv : Invocation)
    {frames : List (Frame β)} (hf : ∀ f ∈ frames, f.pass? = none) :
    Taskless w (.invoke v callback inv frames) :=
  ⟨h, hf⟩

theorem perform (h : ∀ c, v.roster c = w.roster c) (command : Command β) {frames : List (Frame β)}
    (hf : ∀ f ∈ frames, f.pass? = none) : Taskless w (.perform v command frames) :=
  ⟨h, hf⟩

end Progress.Taskless

open Progress (Taskless)

namespace World

variable (w : World β)

theorem taskless_construct (construction : Construction β) : Taskless w (w.construct construction) := by
  have hpreset (v : World β) (i : InstanceId) (fields : List (String × Value)) (c : ContextId) :
      (v.presetFields i fields).roster c = v.roster c := rfl
  have hlevels (v : World β) (i : InstanceId) (c : ContextId) :
      (v.initializeLevels i construction.ofClass).roster c = v.roster c :=
    (Calm.foldl (fun v level => calm_initializeLevel v i _ level) _ v).roster_eq c
  unfold construct
  split
  · exact .reply (fun _ => rfl) _
  · dsimp only
    split
    · refine .proceed ?_ (List.forall_mem_singleton.mpr rfl)
      exact hlevels _ _
    · exact ⟨fun _ => rfl, List.forall_mem_singleton.mpr rfl⟩

theorem taskless_call (i : InstanceId) (name : String) (args : List Value) :
    Taskless w (w.call i name args) := by
  unfold call
  split
  · exact .reply (fun _ => rfl) _
  · split
    · exact .reply (fun _ => rfl) _
    · split
      · exact .reply (fun _ => rfl) _
      · exact .invoke (fun _ => rfl) _ _ (List.forall_mem_singleton.mpr rfl)
      · dsimp only
        split
        · refine .invoke ?_ _ _ (List.forall_mem_singleton.mpr rfl)
          exact fun _ => rfl
        · refine .reply ?_ _
          exact roster_restartBurst (w.modifyInstance i _) i name _ _

theorem taskless_addSource (d : ContextId) (kind : SourceKind) (priority : Priority)
    (work : SourceWork β) : Taskless w (w.addSource d (·.attachNow kind priority work)) := by
  unfold addSource
  split
  · exact .reply (fun _ => rfl) _
  · next x hx => exact .reply (roster_attachNow hx kind priority work) _

theorem taskless_removeSource (d : ContextId) (id : SourceId) : Taskless w (w.removeSource d id) := by
  unfold removeSource
  split
  · exact .reply (fun _ => rfl) _
  · next x hx =>
      split
      · exact .reply (roster_setContext hx (y := x.detach id) rfl) _
      · exact .reply (fun _ => rfl) _

theorem taskless_drain (d : ContextId) (count : Nat) : Taskless w (w.drain d count) := by
  unfold drain
  split
  · exact .reply (fun _ => rfl) _
  · split
    · exact .perform (fun _ => rfl) _ (List.forall_mem_singleton.mpr rfl)
    · exact .reply (fun _ => rfl) _

theorem taskless_continueDrain (d : ContextId) (count : Nat) (reply : Reply β) :
    Taskless w (w.continueDrain d count reply) := by
  unfold continueDrain
  split
  · exact taskless_drain w d _
  · exact .reply (fun _ => rfl) _
  · exact taskless_drain w d _

theorem taskless_reachTarget (d : ContextId) (target count : Nat) :
    Taskless w (w.reachTarget d target count) :=
  .perform (roster_setTime w d target) _ (List.forall_mem_singleton.mpr rfl)

theorem taskless_advance (d : ContextId) (duration : Nat) : Taskless w (w.advance d duration) := by
  unfold advance
  split
  · exact .reply (fun _ => rfl) _
  · dsimp only
    split
    · exact .perform (fun _ => rfl) _ (List.forall_mem_singleton.mpr rfl)
    · exact .perform (roster_setTime w d _) _ (fun _ hf => (by cases hf))

theorem taskless_stepClock (d : ContextId) (target count : Nat) :
    Taskless w (w.stepClock d target count) := by
  unfold stepClock
  split
  · exact .reply (fun _ => rfl) _
  · split
    · exact taskless_reachTarget w d target count
    · split
      · exact taskless_reachTarget w d target count
      · exact .perform (roster_setTime w d _) _ (List.forall_mem_singleton.mpr rfl)

theorem taskless_continueAdvance (d : ContextId) (target count : Nat) (stage : AdvanceStage)
    (reply : Reply β) : Taskless w (w.continueAdvance d target count stage reply) := by
  unfold continueAdvance
  extract_lets ran
  clear_value ran
  cases stage with
  | before => exact taskless_stepClock w d target _
  | within =>
      dsimp only
      split
      · exact taskless_reachTarget w d target count
      · exact taskless_stepClock w d target _
  | after => exact .reply (fun _ => rfl) _

theorem taskless_checkLoop (l : LoopId) : Taskless w (w.checkLoop l) := by
  unfold checkLoop
  split
  · exact .reply (fun _ => rfl) _
  · split
    · exact .perform (fun _ => rfl) _ (List.forall_mem_singleton.mpr rfl)
    · exact .reply (calm_setRunning w l false).roster_eq _

theorem taskless_continueLoop (l : LoopId) (reply : Reply β) :
    Taskless w (w.continueLoop l reply) := by
  unfold continueLoop
  split
  · exact taskless_checkLoop w l
  · split
    · exact .reply (fun _ => rfl) _
    · split
      · exact .reply (fun _ => rfl) _
      · split
        · exact .perform (fun _ => rfl) _ (List.forall_mem_singleton.mpr rfl)
        · split
          · exact taskless_checkLoop w l
          · exact .reply (calm_setRunning w l false).roster_eq _

theorem taskless_continueConstructing (i : InstanceId) (properties : List (String × Value))
    (reply : Reply β) : Taskless w (w.continueConstructing i properties reply) := by
  unfold continueConstructing
  split
  · exact .reply (fun _ => rfl) _
  · split
    · exact .perform (fun _ => rfl) _ (List.forall_mem_singleton.mpr rfl)
    · split
      · exact .reply (fun _ => rfl) _
      · refine .proceed ?_ (List.forall_mem_singleton.mpr rfl)
        exact fun _ => rfl

theorem taskless_continueInitializing (i : InstanceId) (hooks : List (String × β)) :
    Taskless w (w.continueInitializing i hooks) := by
  unfold continueInitializing
  split
  · exact .invoke (fun _ => rfl) _ _ (List.forall_mem_singleton.mpr rfl)
  · split
    · exact .reply (fun _ => rfl) _
    · exact .reply (roster_scheduleHooks w i _) _

theorem taskless_startWork {v : World β} (hv : ∀ c, v.roster c = w.roster c) (d : ContextId)
    (id : SourceId) (work : SourceWork β) {frames : List (Frame β)}
    (hf : ∀ f ∈ frames, f.pass? = none) : Taskless w (v.startWork d id work frames) := by
  have above {g : Frame β} (hg : g.pass? = none) : ∀ f ∈ g :: frames, f.pass? = none :=
    List.forall_mem_cons.mpr ⟨hg, hf⟩
  refine startWork_cases (P := fun _ p => Taskless w p) v d id work frames ?_ ?_ ?_ ?_ ?_ ?_ ?_ ?_
  · exact fun _ => .invoke hv _ _ hf
  · exact fun _ => .invoke hv _ _ hf
  · exact fun _ _ _ _ => .proceed hv hf
  · exact fun _ _ _ _ => ⟨hv, above rfl⟩
  · exact fun _ _ _ _ => ⟨hv, above rfl⟩
  · exact fun _ _ _ _ _ => .proceed hv hf
  · exact fun _ _ _ _ _ _ _ _ _ => ⟨hv, hf⟩
  · exact fun _ _ _ _ _ _ _ _ _ _ => ⟨hv, hf⟩

theorem taskless_continueIteration (d : ContextId) (ready : List SourceId) (worked : Bool) :
    Taskless w (w.continueIteration d ready worked) := by
  unfold continueIteration
  split
  · exact .reply (fun _ => rfl) _
  · dsimp only
    split
    · exact .proceed (fun _ => rfl) (List.forall_mem_singleton.mpr rfl)
    · next y work hb =>
        obtain ⟨x, hx, hb⟩ := Option.bind_eq_some_iff.mp hb
        refine taskless_startWork w (fun c => ?_) d _ work
          (List.forall_mem_cons.mpr ⟨rfl, List.forall_mem_singleton.mpr rfl⟩)
        refine roster_setContext hx ?_ c
        unfold MainContext.beginRun at hb
        repeat' split at hb
        all_goals cases hb
        rfl

theorem taskless_collect (d : ContextId) (polled : Bool) : Taskless w (w.collect d polled) := by
  unfold collect
  split
  · exact .reply (fun _ => rfl) _
  · next x hx =>
      exact .proceed (roster_setContext hx (y := x.collectReady.1) rfl) (List.forall_mem_singleton.mpr rfl)

/-- Every command that neither spawns a task nor iterates is taskless. -/
theorem taskless_perform {command : Command β} (hspawn : ∀ d callback, command ≠ .spawn d callback)
    (hiterate : ∀ d, command ≠ .iterate d) : Taskless w (w.perform command) := by
  cases hq : command.isQuiet with
  | true => exact .of_quiet (quiet_perform w hq)
  | false =>
      cases command with
      | construct construction => exact taskless_construct w _
      | dispose i => exact .reply (roster_dispose w i) _
      | call i name args => exact taskless_call w _ _ _
      | newContext config => exact .reply (roster_addContext w config) _
      | addIdle d priority once callback => exact taskless_addSource w d .idle priority _
      | addTimeout d priority interval once callback =>
          exact taskless_addSource w d (.timeout interval) priority _
      | removeSource d id => exact taskless_removeSource w _ _
      | iterate d => exact absurd rfl (hiterate d)
      | runUntilIdle d => exact taskless_drain w d 0
      | advance d duration => exact taskless_advance w d _
      | spawn d callback => exact absurd rfl (hspawn d callback)
      | runLoop l => exact .proceed (calm_setRunning w l true).roster_eq (List.forall_mem_singleton.mpr rfl)
      | _ => cases hq

/-- Every operation other than a pass goes on without tasks, unless it spawns a task. -/
theorem taskless_resume {frame : Frame β} (hpass : frame.pass? = none)
    (hspawn : ∀ d owner, frame ≠ .readySpawn d owner) (reply : Reply β) :
    Taskless w (frame.resume w reply) := by
  cases hq : frame.isQuiet with
  | true => exact .of_quiet (quiet_resume w hq reply)
  | false =>
      cases frame with
      | startInterval i name debounce callback =>
          exact .reply (roster_restartBurst w i name debounce callback) _
      | constructing i properties => exact taskless_continueConstructing w _ _ _
      | initializing i hooks => exact taskless_continueInitializing w _ _
      | readySpawn d owner => exact absurd rfl (hspawn d owner)
      | sourceEnd d id mayStay => exact .proceed (roster_endRun w d id _) (fun _ hf => (by cases hf))
      | iteration d ready worked => exact taskless_continueIteration w _ _ _
      | collect d polled => exact taskless_collect w _ _
      | pass p => cases hpass
      | finishPass p => cases hpass
      | drain d count => exact taskless_continueDrain w _ _ _
      | advance d target count stage => exact taskless_continueAdvance w _ _ _ _ _
      | loop l => exact taskless_checkLoop w l
      | looped l => exact taskless_continueLoop w l _
      | _ => cases hq

end World

end ObjectSystem
