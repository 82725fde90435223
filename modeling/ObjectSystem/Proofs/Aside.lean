import ObjectSystem.Proofs.Clock

/-!
# Steps aside of a clock

Most steps stand *aside* of the clock of a context: they put no operation on the stack that moves it
or minds what is above it, and ask for no command that moves it. The others are those of the
context's own iterations, runs until idle and advances, and of loops.
-/

namespace ObjectSystem

variable {β : Type}

/-- Whether a command drives a context. -/
def Command.drives (c : ContextId) : Command β → Bool
  | .advance d _ | .runUntilIdle d | .iterate d => d = c
  | .runLoop _ => true
  | _ => false

/-- A step that puts only bystanders on the stack and moves no clock. -/
structure Progress.Aside (c : ContextId) (p : Progress β) : Prop where
  frames : ∀ f ∈ p.frames, f.isBystander c = true
  control : ∀ command, p.control = .perform command → command.movesClock c = false

namespace Progress.Aside

variable {c : ContextId}

theorem of_quiet {w : World β} {p : Progress β} (h : p.Quiet w) : p.Aside c where
  frames f hf := Frame.isBystander_of_isQuiet (h.frames f hf) c
  control command hc := by
    have hquiet := h.control
    rw [hc] at hquiet
    cases hquiet

theorem reply (w : World β) (r : Reply β) : (Progress.reply w r).Aside c :=
  ⟨fun _ hf => (by cases hf), fun _ hc => (by cases hc)⟩

theorem proceed (w : World β) {frames : List (Frame β)}
    (hf : ∀ f ∈ frames, f.isBystander c = true) : (Progress.proceed w frames).Aside c :=
  ⟨hf, fun _ hc => (by cases hc)⟩

theorem invoke (w : World β) (callback : β) (inv : Invocation) {frames : List (Frame β)}
    (hf : ∀ f ∈ frames, f.isBystander c = true) :
    (Progress.invoke w callback inv frames).Aside c :=
  ⟨hf, fun _ hc => (by cases hc)⟩

theorem perform (w : World β) {command : Command β} (hm : command.movesClock c = false)
    {frames : List (Frame β)} (hf : ∀ f ∈ frames, f.isBystander c = true) :
    (Progress.perform w command frames).Aside c :=
  ⟨hf, fun _ hc => by cases hc; exact hm⟩

end Progress.Aside

open Progress (Aside)

theorem Frame.isBystander_drain {c d : ContextId} (hd : d ≠ c) (count : Nat) :
    (Frame.drain d count : Frame β).isBystander c = true := by
  simp [Frame.isBystander, Frame.isDriver, Frame.movesClock, hd]

theorem Frame.isBystander_advance {c d : ContextId} (hd : d ≠ c) (target count : Nat)
    (stage : AdvanceStage) :
    (Frame.advance d target count stage : Frame β).isBystander c = true := by
  simp [Frame.isBystander, Frame.isDriver, Frame.movesClock, hd]

theorem Frame.isBystander_collect {c d : ContextId} (hd : d ≠ c) (polled : Bool) :
    (Frame.collect d polled : Frame β).isBystander c = true := by
  simp [Frame.isBystander, Frame.isDriver, Frame.movesClock, hd]

namespace World

variable (w : World β) {c : ContextId}

theorem aside_construct (construction : Construction β) : Aside c (w.construct construction) := by
  unfold construct
  split
  · exact .reply w _
  · dsimp only
    split
    · exact .proceed _ (List.forall_mem_singleton.mpr rfl)
    · exact ⟨List.forall_mem_singleton.mpr rfl, fun _ hc => (by cases hc)⟩

theorem aside_call (i : InstanceId) (name : String) (args : List Value) :
    Aside c (w.call i name args) := by
  unfold call
  split
  · exact .reply w _
  · split
    · exact .reply w _
    · split
      · exact .reply w _
      · exact .invoke w _ _ (List.forall_mem_singleton.mpr rfl)
      · dsimp only
        split
        · exact .invoke _ _ _ (List.forall_mem_singleton.mpr rfl)
        · exact .reply _ _

theorem aside_addSource (d : ContextId) (attach : MainContext β → MainContext β × SourceId) :
    Aside c (w.addSource d attach) := by
  unfold addSource
  split <;> exact .reply _ _

theorem aside_removeSource (d : ContextId) (id : SourceId) : Aside c (w.removeSource d id) := by
  unfold removeSource
  split
  · exact .reply w _
  · split <;> exact .reply _ _

theorem aside_iterate {d : ContextId} (hd : d ≠ c) : Aside c (w.iterate d) := by
  unfold iterate
  split
  · exact .reply w _
  · split
    · exact .proceed _ (List.forall_mem_cons.mpr
        ⟨rfl, List.forall_mem_singleton.mpr (Frame.isBystander_collect hd true)⟩)
    · exact .proceed _ (List.forall_mem_singleton.mpr (Frame.isBystander_collect hd false))

theorem aside_drain {d : ContextId} (hd : d ≠ c) (count : Nat) : Aside c (w.drain d count) := by
  unfold drain
  split
  · exact .reply w _
  · split
    · exact .perform w rfl (List.forall_mem_singleton.mpr (Frame.isBystander_drain hd _))
    · exact .reply w _

theorem aside_continueDrain {d : ContextId} (hd : d ≠ c) (count : Nat) (reply : Reply β) :
    Aside c (w.continueDrain d count reply) := by
  unfold continueDrain
  split
  · exact aside_drain w hd _
  · exact .reply w _
  · exact aside_drain w hd _

theorem aside_setTime {d : ContextId} (hd : d ≠ c) (now target count : Nat)
    (stage : AdvanceStage) :
    Aside c (.perform (w.setTime d now) (.runUntilIdle d) [.advance d target count stage]) :=
  .perform _ rfl (List.forall_mem_singleton.mpr (Frame.isBystander_advance hd _ _ _))

theorem aside_advance {d : ContextId} (hd : d ≠ c) (duration : Nat) :
    Aside c (w.advance d duration) := by
  unfold advance
  split
  · exact .reply w _
  · dsimp only
    split
    · exact .perform w rfl (List.forall_mem_singleton.mpr (Frame.isBystander_advance hd _ _ _))
    · exact .perform _ rfl (fun _ hf => (by cases hf))

theorem aside_stepClock {d : ContextId} (hd : d ≠ c) (target count : Nat) :
    Aside c (w.stepClock d target count) := by
  unfold stepClock
  split
  · exact .reply w _
  · split
    · exact aside_setTime w hd _ _ _ _
    · split <;> exact aside_setTime w hd _ _ _ _

theorem aside_continueAdvance {d : ContextId} (hd : d ≠ c) (target count : Nat)
    (stage : AdvanceStage) (reply : Reply β) :
    Aside c (w.continueAdvance d target count stage reply) := by
  unfold continueAdvance
  extract_lets ran
  clear_value ran
  cases stage with
  | before => exact aside_stepClock w hd _ _
  | within =>
      dsimp only
      split
      · exact aside_setTime w hd _ _ _ _
      · exact aside_stepClock w hd _ _
  | after => exact .reply w _

theorem aside_continueConstructing (i : InstanceId) (properties : List (String × Value))
    (reply : Reply β) : Aside c (w.continueConstructing i properties reply) := by
  unfold continueConstructing
  split
  · exact .reply w _
  · split
    · exact .perform w rfl (List.forall_mem_singleton.mpr rfl)
    · split
      · exact .reply w _
      · exact .proceed _ (List.forall_mem_singleton.mpr rfl)

theorem aside_continueInitializing (i : InstanceId) (hooks : List (String × β)) :
    Aside c (w.continueInitializing i hooks) := by
  unfold continueInitializing
  split
  · exact .invoke w _ _ (List.forall_mem_singleton.mpr rfl)
  · split <;> exact .reply _ _

theorem aside_spawnReady (d : ContextId) (owner : ReadyOwner) (reply : Reply β) :
    Aside c (w.spawnReady d owner reply) := by
  unfold spawnReady
  split
  · exact .proceed _ (fun _ hf => (by cases hf))
  · exact ⟨fun _ hf => (by cases hf), fun _ hc => (by cases hc)⟩

theorem aside_startWork (d : ContextId) (id : SourceId) (work : SourceWork β)
    (frames : List (Frame β)) (hf : ∀ f ∈ frames, f.isBystander c = true) :
    Aside c (w.startWork d id work frames) := by
  have above {f : Frame β} (h : f.isBystander c = true) :
      ∀ g ∈ f :: frames, g.isBystander c = true :=
    List.forall_mem_cons.mpr ⟨h, hf⟩
  refine startWork_cases (P := fun _ p => Aside c p) w d id work frames ?_ ?_ ?_ ?_ ?_ ?_ ?_ ?_
  · exact fun _ => .invoke w _ _ hf
  · exact fun _ => .invoke w _ _ hf
  · exact fun _ _ _ _ => .proceed w hf
  · exact fun _ _ _ _ => .invoke _ _ _ (above rfl)
  · exact fun _ _ _ _ => .invoke _ _ _ (above rfl)
  · exact fun _ _ _ _ _ => .proceed w hf
  · exact fun _ _ _ _ _ _ _ _ _ => .proceed _ hf
  · exact fun _ _ _ _ _ _ _ _ _ _ => .invoke _ _ _ hf

theorem aside_continueIteration (d : ContextId) (ready : List SourceId) (worked : Bool) :
    Aside c (w.continueIteration d ready worked) := by
  unfold continueIteration
  split
  · exact .reply w _
  · dsimp only
    split
    · exact .proceed w (List.forall_mem_singleton.mpr rfl)
    · exact aside_startWork _ d _ _ _
        (List.forall_mem_cons.mpr ⟨rfl, List.forall_mem_singleton.mpr rfl⟩)

theorem aside_collect (d : ContextId) (polled : Bool) : Aside c (w.collect d polled) := by
  unfold collect
  split
  · exact .reply w _
  · exact .proceed _ (List.forall_mem_singleton.mpr rfl)

theorem aside_finish (p : Pass) : Aside c (p.finish w) := by
  unfold Pass.finish
  split
  · exact .reply _ _
  · exact .proceed _ (List.forall_mem_singleton.mpr rfl)

theorem aside_pollNext (p : Pass) : Aside c (p.pollNext w) := by
  unfold Pass.pollNext
  split
  · exact .reply w _
  · next x hx =>
      generalize x.passTasks.dequeue = dequeued
      obtain ⟨task?, set⟩ := dequeued
      dsimp only
      split
      · exact aside_finish _ p
      · split
        · exact .invoke _ _ _ (List.forall_mem_singleton.mpr rfl)
        · split
          · exact ⟨List.forall_mem_singleton.mpr rfl, fun _ hc => (by cases hc)⟩
          · exact ⟨List.forall_mem_singleton.mpr rfl, fun _ hc => (by cases hc)⟩

theorem aside_resumePass (p : Pass) (reply : Reply β) : Aside c (p.resume w reply) := by
  unfold Pass.resume
  split
  · unfold Pass.taskFinished
    split
    · exact aside_pollNext _ _
    · exact ⟨List.forall_mem_singleton.mpr rfl, fun _ hc => (by cases hc)⟩
  · unfold Pass.taskWaits
    extract_lets v q
    split
    · exact aside_finish _ q
    · exact aside_pollNext _ q
  · exact aside_pollNext _ _

/-- A command that does not drive the context begins aside of its clock. -/
theorem aside_perform {command : Command β} (h : command.drives c = false) :
    Aside c (w.perform command) := by
  cases hq : command.isQuiet with
  | true => exact .of_quiet (quiet_perform w hq)
  | false =>
      cases command with
      | construct construction => exact aside_construct w _
      | dispose i => exact .reply _ _
      | call i name args => exact aside_call w _ _ _
      | newContext config => exact .reply _ _
      | addIdle d priority once callback =>
          exact aside_addSource w d fun x => x.addIdle priority (callbackWork once callback)
      | addTimeout d priority interval once callback =>
          exact aside_addSource w d fun x =>
            x.addTimeout priority interval (callbackWork once callback)
      | removeSource d id => exact aside_removeSource w _ _
      | iterate d => exact aside_iterate w (by simpa [Command.drives] using h)
      | runUntilIdle d => exact aside_drain w (by simpa [Command.drives] using h) 0
      | advance d duration => exact aside_advance w (by simpa [Command.drives] using h) _
      | spawn d callback => exact .reply _ _
      | runLoop l => cases h
      | _ => cases hq

/-- A bystander goes on aside of the clock. -/
theorem aside_resume {frame : Frame β} (h : frame.isBystander c = true) (reply : Reply β) :
    Aside c (frame.resume w reply) := by
  cases hq : frame.isQuiet with
  | true => exact .of_quiet (quiet_resume w hq reply)
  | false =>
      simp only [Frame.isBystander, Bool.and_eq_true, Bool.not_eq_true'] at h
      cases frame with
      | startInterval i name debounce callback => exact .reply _ _
      | constructing i properties => exact aside_continueConstructing w _ _ _
      | initializing i hooks => exact aside_continueInitializing w _ _
      | readySpawn d owner => exact aside_spawnReady w _ _ _
      | sourceEnd d id mayStay => exact .proceed _ (fun _ hf => (by cases hf))
      | iteration d ready worked => exact aside_continueIteration w _ _ _
      | collect d polled => exact aside_collect w _ _
      | pass p => exact aside_resumePass w _ _
      | finishPass p => exact aside_finish w _
      | drain d count =>
          exact aside_continueDrain w (by simpa [Frame.isDriver] using h.1) _ _
      | advance d target count stage =>
          exact aside_continueAdvance w (by simpa [Frame.isDriver] using h.1) _ _ _ _
      | loop l => cases h.2
      | looped l => cases h.2
      | _ => cases hq

end World

end ObjectSystem
