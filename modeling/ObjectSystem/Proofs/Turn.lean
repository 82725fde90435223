import ObjectSystem.Proofs.Deferral
import ObjectSystem.Proofs.Move
import ObjectSystem.Proofs.Quiet

/-!
# What one move does

A move of the machine changes the world in one of a few ways, as far as sources and deferred work
are concerned. `Turn` lists them, and `turn_step` says that a move is always one of them. Whatever
holds of every turn holds of every move of every client.

A turn speaks of the world up to steady changes, and of the stack through its *marks*: the frames of
operations that have sources to run, a source to settle, an instance to construct or an interval to
start. All other layers come and go unmentioned.
-/

namespace ObjectSystem

variable {σ β κ : Type}

/-! ## Marks -/

/-- Whether a frame has to do with sources or with what is deferred. -/
def Frame.isMark : Frame β → Bool
  | .startInterval .. | .constructing .. | .initializing .. | .sourceEnd .. | .iteration .. => true
  | _ => false

theorem Frame.not_isMark {f : Frame β} (h : f.isQuiet = true) : f.isMark = false := by
  cases f <;> first | rfl | cases h

namespace Machine

/-- The frames of a stack that a turn mentions, the innermost first. -/
def marks : List (Layer β κ) → List (Frame β)
  | [] => []
  | .callback _ _ :: stack => marks stack
  | .operation frame :: stack => if frame.isMark then frame :: marks stack else marks stack

@[simp] theorem marks_nil : marks ([] : List (Layer β κ)) = [] := rfl

@[simp] theorem marks_callback (rest : κ) (inv : Invocation) (stack : List (Layer β κ)) :
    marks (.callback rest inv :: stack) = marks stack := rfl

@[simp] theorem marks_operation (frame : Frame β) (stack : List (Layer β κ)) :
    marks (.operation frame :: stack) =
      if frame.isMark then frame :: marks stack else marks stack := rfl

/-- Frames that are no marks do not show. -/
theorem marks_map {frames : List (Frame β)} (h : ∀ f ∈ frames, f.isMark = false)
    (stack : List (Layer β κ)) : marks (frames.map .operation ++ stack) = marks stack := by
  induction frames with
  | nil => rfl
  | cons f rest ih =>
      rw [List.map_cons, List.cons_append, marks_operation, h f (by simp)]
      exact ih fun g hg => h g (List.mem_cons_of_mem _ hg)

theorem marks_append (above stack : List (Layer β κ)) :
    marks (above ++ stack) = marks above ++ marks stack := by
  induction above with
  | nil => rfl
  | cons layer rest ih =>
      cases layer with
      | callback k inv => exact ih
      | operation f =>
          rw [List.cons_append, marks_operation, marks_operation, ih]
          split <;> rfl

end Machine

/-! ## Turns -/

/-- Whether what happens next is anything but a method or the work of a source that starts. -/
def Control.isPlain : Control β → Bool
  | .invoke _ inv => !inv.role.isDeferred
  | _ => true

theorem Control.isPlain_of_isQuiet {c : Control β} (h : c.isQuiet = true) : c.isPlain = true := by
  cases c with
  | invoke callback inv => exact h
  | _ => rfl

/-- Whether the work of a source is a callback of the program's own. -/
def SourceWork.isPlain : SourceWork β → Bool
  | .repeating _ | .single _ => true
  | _ => false

/-- Whether a frame is that of the construction of an instance. -/
def Frame.IsConstruction (i : InstanceId) : Frame β → Prop
  | .constructing j _ | .initializing j _ => j = i
  | _ => False

open World (Steady)
open Machine (marks)

/-- Whether an operation that sets the clock of a context is about to do so: an advance in progress,
or one of a machine's own clock that begins. -/
def Machine.Ticking (m : Machine σ β κ) (c : ContextId) : Prop :=
  (∃ target count stage stack,
    m.stack = .operation (.advance c target count stage) :: stack ∧ ∃ r, m.control = .deliver r) ∨
  ∃ duration x, m.control = .perform (.advance c duration) ∧
    m.world.context? c = some x ∧ x.config.clock = .system

/-- What a move does, by what it does to sources, bursts, the life of instances and marks. -/
inductive Turn (m m' : Machine σ β κ) : Prop
  /-- Nothing of that kind. -/
  | still (hw : Steady m.world m'.world) (hs : marks m'.stack = marks m.stack)
      (hc : m'.control.isPlain = true)
  /-- A context is created. -/
  | opens (config : Config) (hw : Steady (m.world.addContext config).1 m'.world)
      (hs : marks m'.stack = marks m.stack) (hc : m'.control.isPlain = true)
  /-- A clock is set. -/
  | ticks (c : ContextId) (now : Nat) (hm : m.Ticking c)
      (hw : Steady (m.world.setTime c now) m'.world)
      (hs : marks m'.stack = marks m.stack) (hc : m'.control.isPlain = true)
  /-- A source of the program's own is attached. -/
  | attaches (c : ContextId) (x : MainContext β) (kind : SourceKind) (priority : Priority)
      (work : SourceWork β) (hx : m.world.context? c = some x) (hp : work.isPlain = true)
      (hw : Steady (m.world.setContext c (x.attachNow kind priority work).1) m'.world)
      (hs : marks m'.stack = marks m.stack) (hc : m'.control.isPlain = true)
  /-- A source is removed. -/
  | detaches (c : ContextId) (x : MainContext β) (id : SourceId)
      (hm : m.control = .perform (.removeSource c id)) (hx : m.world.context? c = some x)
      (hw : Steady (m.world.setContext c (x.detach id)) m'.world)
      (hs : marks m'.stack = marks m.stack) (hc : m'.control.isPlain = true)
  /-- An instance is created. -/
  | creates (ofClass : Class β) (c : ContextId)
      (hw : Steady (m.world.addInstance ofClass c).1 m'.world)
      (hs : marks m'.stack = marks m.stack ∨ ∃ g : Frame β,
        g.IsConstruction ⟨m.world.nextInstance⟩ ∧ marks m'.stack = g :: marks m.stack)
      (hc : m'.control.isPlain = true)
  /-- An instance is disposed. -/
  | disposes (i : InstanceId) (hm : m.control = .perform (.dispose i))
      (hw : Steady (m.world.dispose i) m'.world) (hs : marks m'.stack = marks m.stack)
      (hc : m'.control.isPlain = true)
  /-- A method that is not debounced is called. -/
  | calls (i : InstanceId) (name : String) (args : List Value) (x : Instance β) (callback : β)
      (hm : m.control = .perform (.call i name args)) (hx : m.world.instance? i = some x)
      (hd : x.disposed = false) (hf : x.ofClass.findMethod? name = some ⟨callback, none⟩)
      (hw : Steady m.world m'.world) (hs : marks m'.stack = marks m.stack)
      (hc : m'.control = .invoke callback { role := .method name, self := some i, args })
  /-- A debounced method is called and runs at once. -/
  | callsAtOnce (i : InstanceId) (name : String) (args : List Value) (x : Instance β)
      (callback : β) (debounce : Debounce) (hm : m.control = .perform (.call i name args))
      (hx : m.world.instance? i = some x) (hd : x.disposed = false)
      (hf : x.ofClass.findMethod? name = some ⟨callback, some debounce⟩)
      (hr : (x.burst name).runsAtOnce debounce.trigger = true)
      (hw : Steady (m.world.modifyInstance i
        (·.setBurst name ((x.burst name).record debounce.trigger args))) m'.world)
      (hs : marks m'.stack = .startInterval i name debounce callback :: marks m.stack)
      (hc : m'.control = .invoke callback { role := .method name, self := some i, args })
  /-- A debounced method is called and does not run at once. -/
  | callsLater (i : InstanceId) (name : String) (args : List Value) (x : Instance β)
      (callback : β) (debounce : Debounce) (hm : m.control = .perform (.call i name args))
      (hx : m.world.instance? i = some x) (hd : x.disposed = false)
      (hf : x.ofClass.findMethod? name = some ⟨callback, some debounce⟩)
      (hr : (x.burst name).runsAtOnce debounce.trigger = false)
      (hw : Steady ((m.world.modifyInstance i
        (·.setBurst name ((x.burst name).record debounce.trigger args))).restartBurst
          i name debounce callback) m'.world)
      (hs : marks m'.stack = marks m.stack) (hc : m'.control.isPlain = true)
  /-- After a run at once, an interval starts. -/
  | startsInterval (i : InstanceId) (name : String) (debounce : Debounce) (callback : β)
      (hw : Steady (m.world.restartBurst i name debounce callback) m'.world)
      (hs : marks m.stack = .startInterval i name debounce callback :: marks m'.stack)
      (hc : m'.control.isPlain = true)
  /-- A construction goes on, up to the last init hook. -/
  | constructs (f : Frame β) (rest : List (Frame β)) (i : InstanceId)
      (hf : f.IsConstruction i) (hw : Steady m.world m'.world) (hs : marks m.stack = f :: rest)
      (hs' : marks m'.stack = rest ∨
        ∃ g : Frame β, g.IsConstruction i ∧ marks m'.stack = g :: rest)
      (hc : m'.control.isPlain = true)
  /-- After the last init hook, ready hooks are attached. -/
  | schedules (i : InstanceId) (x : Instance β) (hx : m.world.instance? i = some x)
      (hw : Steady (m.world.scheduleHooks i x) m'.world)
      (hs : marks m.stack = .initializing i [] :: marks m'.stack) (hc : m'.control.isPlain = true)
  /-- An iteration collects its sources. -/
  | collects (c : ContextId) (x : MainContext β) (worked : Bool)
      (hx : m.world.context? c = some x)
      (hw : Steady (m.world.setContext c x.collectReady.1) m'.world)
      (hs : marks m'.stack = .iteration c x.collectReady.2 worked :: marks m.stack)
      (hc : m'.control.isPlain = true)
  /-- A collected source is passed over. -/
  | skips (c : ContextId) (id : SourceId) (ready : List SourceId) (worked : Bool)
      (rest : List (Frame β))
      (hx : (m.world.context? c).bind (·.beginRun id) = none) (hw : Steady m.world m'.world)
      (hs : marks m.stack = .iteration c (id :: ready) worked :: rest)
      (hs' : marks m'.stack = .iteration c ready worked :: rest) (hc : m'.control.isPlain = true)
  /-- A collected source starts. -/
  | begins (c : ContextId) (id : SourceId) (ready : List SourceId) (worked : Bool)
      (rest : List (Frame β)) (x y : MainContext β) (work : SourceWork β)
      (hx : m.world.context? c = some x) (hb : x.beginRun id = some (y, work))
      (hw : Steady ((m.world.setContext c y).startWork c id work []).world m'.world)
      (hs : marks m.stack = .iteration c (id :: ready) worked :: rest)
      (hs' : marks m'.stack =
        .sourceEnd c id work.mayStay :: .iteration c ready worked :: rest)
      (hc : m'.control = ((m.world.setContext c y).startWork c id work []).control)
  /-- A source has run. -/
  | ends (c : ContextId) (id : SourceId) (mayStay stays : Bool)
      (hstay : stays = true → mayStay = true)
      (hw : Steady (m.world.modifyContext c (·.endRun id stays)) m'.world)
      (hs : marks m.stack = .sourceEnd c id mayStay :: marks m'.stack)
      (hc : m'.control.isPlain = true)
  /-- All collected sources have had their turn. -/
  | closes (c : ContextId) (worked : Bool) (hw : Steady m.world m'.world)
      (hs : marks m.stack = .iteration c [] worked :: marks m'.stack)
      (hc : m'.control.isPlain = true)

/-! ## Steps that are still -/

/-- A step that no turn but `still` mentions. -/
structure Progress.Still (w : World β) (p : Progress β) : Prop where
  steady : Steady w p.world
  frames : ∀ f ∈ p.frames, f.isMark = false
  control : p.control.isPlain = true

namespace Progress.Still

theorem of_quiet {w : World β} {p : Progress β} (h : p.Quiet w) : Still w p :=
  ⟨h.calm.toSteady, fun f hf => Frame.not_isMark (h.frames f hf),
    Control.isPlain_of_isQuiet h.control⟩

theorem reply {w v : World β} (h : Steady w v) (r : Reply β) : Still w (.reply v r) :=
  ⟨h, fun _ hf => (by cases hf), rfl⟩

theorem proceed {w v : World β} (h : Steady w v) {frames : List (Frame β)}
    (hf : ∀ f ∈ frames, f.isMark = false) : Still w (.proceed v frames) :=
  ⟨h, hf, rfl⟩

theorem perform {w v : World β} (h : Steady w v) (command : Command β) {frames : List (Frame β)}
    (hf : ∀ f ∈ frames, f.isMark = false) : Still w (.perform v command frames) :=
  ⟨h, hf, rfl⟩

theorem after {w v : World β} {p : Progress β} (h : Steady w v) (hp : Still v p) : Still w p :=
  ⟨h.trans hp.steady, hp.frames, hp.control⟩

end Progress.Still

open Progress (Still)

namespace World

variable (w : World β)

/-! ### Passes over tasks -/

theorem steady_modifyPass (c : ContextId) (f : TaskSet β → TaskSet β) :
    Steady w (w.modifyContext c (·.modifyPass f)) := by
  refine steady_modifyContext w c fun x => ?_
  unfold MainContext.modifyPass
  split <;> rfl

theorem still_finish (p : Pass) : Still w (p.finish w) := by
  unfold Pass.finish
  split
  · refine .reply (steady_modifyContext w _ ?_) _
    exact fun _ => rfl
  · refine .proceed (steady_modifyContext w _ ?_) (List.forall_mem_singleton.mpr rfl)
    exact fun _ => rfl

theorem still_pollNext (p : Pass) : Still w (p.pollNext w) := by
  unfold Pass.pollNext
  split
  · exact .reply (.refl w) _
  · next x hx =>
      generalize x.passTasks.dequeue = dequeued
      obtain ⟨task?, set⟩ := dequeued
      have hset : Steady w (w.setContext p.context (x.modifyPass fun _ => set)) := by
        refine steady_setContext w hx ?_
        unfold MainContext.modifyPass
        split <;> rfl
      dsimp only
      generalize w.setContext p.context (x.modifyPass fun _ => set) = v at hset ⊢
      split
      · exact (still_finish v p).after hset
      · split
        · exact ⟨hset.trans (steady_modifyPass _ _ _), by simp [Progress.invoke, Frame.isMark], rfl⟩
        · next event _ =>
            have htake := (calm_takeOutcome v event).toSteady
            split
            · next u outcome hu =>
                rw [hu] at htake
                exact ⟨(hset.trans htake).trans (steady_modifyPass _ _ _),
                  List.forall_mem_singleton.mpr rfl, rfl⟩
            · next u hu =>
                rw [hu] at htake
                exact ⟨hset.trans htake, List.forall_mem_singleton.mpr rfl, rfl⟩

theorem still_beginRound (p : Pass) : Still w (p.beginRound w) :=
  (still_pollNext _ _).after (steady_modifyPass w _ _)

theorem still_resumePass (p : Pass) (reply : Reply β) : Still w (p.resume w reply) := by
  unfold Pass.resume
  split
  · unfold Pass.taskFinished
    split
    · exact still_beginRound w p
    · exact ⟨steady_modifyPass w _ _, List.forall_mem_singleton.mpr rfl, rfl⟩
  · unfold Pass.taskWaits
    extract_lets v q
    have hreenter : Steady w v := by
      unfold v
      split
      · exact .refl w
      · exact steady_modifyPass w _ _
    split
    · refine ((still_finish _ _).after ?_).after hreenter
      exact steady_modifyContext _ _ fun _ => rfl
    · exact (still_pollNext _ _).after hreenter
  · exact still_beginRound w p

/-! ### Driving a context -/

theorem still_iterate (c : ContextId) : Still w (w.iterate c) := by
  unfold iterate
  split
  · exact .reply (.refl w) _
  · next x hx =>
      split
      · next y hy =>
          refine .proceed (steady_setContext w hx ?_)
            (List.forall_mem_cons.mpr ⟨rfl, List.forall_mem_singleton.mpr rfl⟩)
          unfold MainContext.beginPass at hy
          split at hy <;> cases hy
          rfl
      · exact .proceed (.refl w) (List.forall_mem_singleton.mpr rfl)

theorem still_drain (c : ContextId) (count : Nat) : Still w (w.drain c count) := by
  unfold drain
  split
  · exact .reply (.refl w) _
  · split
    · exact .perform (.refl w) _ (List.forall_mem_singleton.mpr rfl)
    · exact .reply (.refl w) _

theorem still_continueDrain (c : ContextId) (count : Nat) (reply : Reply β) :
    Still w (w.continueDrain c count reply) := by
  unfold continueDrain
  split
  · exact still_drain w c _
  · exact .reply (.refl w) _
  · exact still_drain w c _

theorem still_checkLoop (l : LoopId) : Still w (w.checkLoop l) := by
  unfold checkLoop
  split
  · exact .reply (.refl w) _
  · split
    · exact .perform (.refl w) _ (List.forall_mem_singleton.mpr rfl)
    · exact .reply (calm_setRunning w l false).toSteady _

theorem still_continueLoop (l : LoopId) (reply : Reply β) : Still w (w.continueLoop l reply) := by
  unfold continueLoop
  split
  · exact still_checkLoop w l
  · split
    · exact .reply (.refl w) _
    · split
      · exact .reply (.refl w) _
      · split
        · exact .perform (.refl w) _ (List.forall_mem_singleton.mpr rfl)
        · split
          · exact still_checkLoop w l
          · exact .reply (calm_setRunning w l false).toSteady _

end World

/-! ## Every move is a turn -/

namespace Turn

variable {m m' : Machine σ β κ} {stack : List (Layer β κ)}

/-- A still step of an operation whose frame is no mark. -/
theorem of_still {p : Progress β} (h : m'.Follows p stack) (hp : Still m.world p)
    (hs : marks stack = marks m.stack) : Turn m m' := by
  refine .still (hp.steady.trans h.world.toSteady) ?_ ?_
  · rw [h.stack, Machine.marks_map hp.frames, hs]
  · rw [h.control]
    exact hp.control

/-- What is left of a step that ends with a reply. -/
theorem follows_reply {w : World β} {r : Reply β} (h : m'.Follows (.reply w r) stack) :
    Steady w m'.world ∧ marks m'.stack = marks stack ∧ m'.control.isPlain = true := by
  refine ⟨h.world.toSteady, ?_, ?_⟩
  · rw [h.stack]
    rfl
  · rw [h.control]
    rfl

theorem of_reply {w : World β} {r : Reply β} (h : m'.Follows (.reply w r) m.stack)
    (hw : Steady m.world w) : Turn m m' :=
  of_still h (.reply hw r) rfl

theorem of_construct {c : Construction β} (h : m'.Follows (m.world.construct c) m.stack) :
    Turn m m' := by
  unfold World.construct at h
  split at h
  · exact of_reply h (.refl _)
  · dsimp only at h
    generalize hadded : m.world.addInstance c.ofClass c.context = added at h
    obtain ⟨w, i⟩ := added
    have hi : i = ⟨m.world.nextInstance⟩ := by
      cases hadded
      rfl
    have hpreset (v : World β) (fields : List (String × Value)) :
        Steady v (v.presetFields i fields) :=
      (World.calm_modifyInstance v i
        (World.duties_foldl (fun x _ => World.duties_setField x _ _) fields)).toSteady
    have hlevels (v : World β) : Steady v (v.initializeLevels i c.ofClass) :=
      (World.Calm.foldl (fun v level => World.calm_initializeLevel v i _ level) _ v).toSteady
    have hbound (children : List (String × InstanceId)) :
        Steady w ((w.presetFields i c.fields).bindChildren i children) :=
      (hpreset w c.fields).trans (hpreset _ _)
    split at h
    · refine .creates c.ofClass c.context ?_ (.inr ⟨.constructing i c.properties, hi, ?_⟩) ?_
      · rw [hadded]
        exact ((hbound _).trans (hlevels _)).trans h.world.toSteady
      · rw [h.stack]
        rfl
      · rw [h.control]
        rfl
    · refine .creates c.ofClass c.context ?_ (.inl ?_) ?_
      · rw [hadded]
        exact (hbound _).trans h.world.toSteady
      · rw [h.stack]
        rfl
      · rw [h.control]
        rfl

theorem of_call {i : InstanceId} {name : String} {args : List Value}
    (hm : m.control = .perform (.call i name args))
    (h : m'.Follows (m.world.call i name args) m.stack) : Turn m m' := by
  unfold World.call at h
  split at h
  · exact of_reply h (.refl _)
  · next x hx =>
      split at h
      · exact of_reply h (.refl _)
      · next hd =>
          rw [Bool.not_eq_true] at hd
          split at h
          · exact of_reply h (.refl _)
          · next callback hf =>
              refine .calls i name args x callback hm hx hd hf h.world.toSteady ?_ h.control
              rw [h.stack]
              rfl
          · next callback debounce hf =>
              dsimp only at h
              split at h
              · next hr =>
                  refine .callsAtOnce i name args x callback debounce hm hx hd hf hr
                    h.world.toSteady ?_ h.control
                  rw [h.stack]
                  rfl
              · next hr =>
                  rw [Bool.not_eq_true] at hr
                  obtain ⟨hw, hs, hc⟩ := follows_reply h
                  exact .callsLater i name args x callback debounce hm hx hd hf hr hw hs hc

theorem of_addSource {c : ContextId} {kind : SourceKind} {priority : Priority}
    (work : SourceWork β) (hp : work.isPlain = true)
    (h : m'.Follows (m.world.addSource c (·.attachNow kind priority work)) m.stack) :
    Turn m m' := by
  unfold World.addSource at h
  split at h
  · exact of_reply h (.refl _)
  · next x hx =>
      obtain ⟨hw, hs, hc⟩ := follows_reply h
      exact .attaches c x kind priority work hx hp hw hs hc

theorem of_removeSource {c : ContextId} {id : SourceId}
    (hm : m.control = .perform (.removeSource c id))
    (h : m'.Follows (m.world.removeSource c id) m.stack) : Turn m m' := by
  unfold World.removeSource at h
  split at h
  · exact of_reply h (.refl _)
  · next x hx =>
      split at h
      · obtain ⟨hw, hs, hc⟩ := follows_reply h
        exact .detaches c x id hm hx hw hs hc
      · exact of_reply h (.refl _)

/-- A clock is set and an operation begins under frames that are no marks. -/
theorem of_setTime {c : ContextId} {now : Nat} {command : Command β} {frames : List (Frame β)}
    (hm : m.Ticking c) (h : m'.Follows (.perform (m.world.setTime c now) command frames) stack)
    (hf : ∀ f ∈ frames, f.isMark = false) (hs : marks stack = marks m.stack) : Turn m m' := by
  refine .ticks c now hm h.world.toSteady ?_ ?_
  · rw [h.stack, ← hs]
    exact Machine.marks_map hf stack
  · rw [h.control]
    rfl

theorem of_advance {c : ContextId} {duration : Nat}
    (hm : m.control = .perform (.advance c duration))
    (h : m'.Follows (m.world.advance c duration) m.stack) : Turn m m' := by
  unfold World.advance at h
  split at h
  · exact of_reply h (.refl _)
  · next x hx =>
      dsimp only at h
      split at h
      · exact of_still h (.perform (.refl _) _ (List.forall_mem_singleton.mpr rfl)) rfl
      · next hclock =>
          exact of_setTime (.inr ⟨duration, x, hm, hx, hclock⟩) h (fun _ hf => (by cases hf)) rfl

theorem of_stepClock {c : ContextId} {target count : Nat} (hm : m.Ticking c)
    (h : m'.Follows (m.world.stepClock c target count) stack) (hs : marks stack = marks m.stack) :
    Turn m m' := by
  unfold World.stepClock at h
  split at h
  · exact of_still h (.reply (.refl _) _) hs
  · split at h
    · exact of_setTime hm h (List.forall_mem_singleton.mpr rfl) hs
    · split at h
      · exact of_setTime hm h (List.forall_mem_singleton.mpr rfl) hs
      · exact of_setTime hm h (List.forall_mem_singleton.mpr rfl) hs

theorem of_continueAdvance {c : ContextId} {target count : Nat} {stage : AdvanceStage}
    {reply : Reply β} (hm : m.Ticking c) (h : m'.Follows (m.world.continueAdvance c target count stage reply) stack)
    (hs : marks stack = marks m.stack) : Turn m m' := by
  unfold World.continueAdvance at h
  extract_lets ran at h
  clear_value ran
  cases stage with
  | before => exact of_stepClock hm h hs
  | within =>
      dsimp only at h
      split at h
      · exact of_setTime hm h (List.forall_mem_singleton.mpr rfl) hs
      · exact of_stepClock hm h hs
  | after => exact of_still h (.reply (.refl _) _) hs

theorem of_perform {command : Command β} (hm : m.control = .perform command)
    (h : m'.Follows (m.world.perform command) m.stack) : Turn m m' := by
  cases hq : command.isQuiet with
  | true => exact of_still h (.of_quiet (World.quiet_perform m.world hq)) rfl
  | false =>
      cases command with
      | construct c => exact of_construct h
      | dispose i =>
          obtain ⟨hw, hs, hc⟩ := follows_reply h
          exact .disposes i hm hw hs hc
      | call i name args => exact of_call hm h
      | newContext config =>
          obtain ⟨hw, hs, hc⟩ := follows_reply h
          exact .opens config hw hs hc
      | addIdle c priority once callback =>
          refine of_addSource (World.callbackWork once callback) ?_ h
          cases once <;> rfl
      | addTimeout c priority interval once callback =>
          refine of_addSource (World.callbackWork once callback) ?_ h
          cases once <;> rfl
      | removeSource c id => exact of_removeSource hm h
      | iterate c => exact of_still h (World.still_iterate _ c) rfl
      | runUntilIdle c => exact of_still h (World.still_drain _ c 0) rfl
      | advance c duration => exact of_advance hm h
      | spawn c callback =>
          refine of_still h (.reply (World.steady_modifyContext _ c ?_) _) rfl
          exact fun _ => rfl
      | runLoop l =>
          refine of_still h (.proceed (World.calm_setRunning _ l true).toSteady ?_) rfl
          exact List.forall_mem_singleton.mpr rfl
      | _ => cases hq

/-- How the work of a source starts does not depend on the frames that wait for it; it puts no mark
above them. -/
theorem startWork_frames (w : World β) (c : ContextId) (id : SourceId) (work : SourceWork β)
    (frames : List (Frame β)) :
    (w.startWork c id work frames).world = (w.startWork c id work []).world ∧
      (w.startWork c id work frames).control = (w.startWork c id work []).control ∧
      ∃ above, (∀ f ∈ above, f.isMark = false) ∧
        (w.startWork c id work frames).frames = above ++ frames := by
  obtain ⟨hworld, hcontrol, hframes⟩ := w.startWork_append c id work frames
  refine ⟨hworld, hcontrol, _, ?_, hframes⟩
  refine World.startWork_cases (P := fun _ p => ∀ f ∈ p.frames, f.isMark = false) w c id work []
    ?_ ?_ ?_ ?_ ?_ ?_ ?_ ?_
  · exact fun _ => List.forall_mem_nil _
  · exact fun _ => List.forall_mem_nil _
  · exact fun _ _ _ _ => List.forall_mem_nil _
  · exact fun _ _ _ _ => List.forall_mem_singleton.mpr rfl
  · exact fun _ _ _ _ => List.forall_mem_singleton.mpr rfl
  · exact fun _ _ _ _ _ => List.forall_mem_nil _
  · exact fun _ _ _ _ _ _ _ _ _ => List.forall_mem_nil _
  · exact fun _ _ _ _ _ _ _ _ _ _ => List.forall_mem_nil _

theorem of_continueIteration {c : ContextId} {ready : List SourceId} {worked : Bool}
    (h : m'.Follows (m.world.continueIteration c ready worked) stack)
    (hs : marks m.stack = .iteration c ready worked :: marks stack) : Turn m m' := by
  unfold World.continueIteration at h
  cases ready with
  | nil =>
      obtain ⟨hw, hs', hc⟩ := follows_reply h
      exact .closes c worked hw (by rw [hs, hs']) hc
  | cons id ready =>
      dsimp only at h
      split at h
      · next hx =>
          refine .skips c id ready worked (marks stack) hx h.world.toSteady hs ?_ ?_
          · rw [h.stack]
            rfl
          · rw [h.control]
            rfl
      · next y work hx =>
          obtain ⟨x, hx, hb⟩ := Option.bind_eq_some_iff.mp hx
          obtain ⟨hworld, hcontrol, above, hplain, hframes⟩ := startWork_frames
            (m.world.setContext c y) c id work
            [.sourceEnd c id work.mayStay, .iteration c ready worked]
          refine .begins c id ready worked (marks stack) x y work hx hb ?_ hs ?_ ?_
          · rw [← hworld]
            exact h.world.toSteady
          · rw [h.stack, hframes, List.map_append, List.append_assoc, Machine.marks_map hplain]
            rfl
          · rw [h.control, hcontrol]

theorem of_continueConstructing {i : InstanceId} {properties : List (String × Value)}
    {reply : Reply β}
    (h : m'.Follows (m.world.continueConstructing i properties reply) stack)
    (hs : marks m.stack = .constructing i properties :: marks stack) : Turn m m' := by
  unfold World.continueConstructing at h
  split at h
  · obtain ⟨hw, hs', hc⟩ := follows_reply h
    exact .constructs (.constructing i _) _ i rfl hw hs (.inl hs') hc
  · split at h
    · next name value rest =>
        refine .constructs (.constructing i _) _ i rfl h.world.toSteady hs (.inr ⟨.constructing i rest, rfl, ?_⟩) ?_
        · rw [h.stack]
          rfl
        · rw [h.control]
          rfl
    · split at h
      · obtain ⟨hw, hs', hc⟩ := follows_reply h
        exact .constructs (.constructing i _) _ i rfl hw hs (.inl hs') hc
      · next x hx =>
          have hclose : World.Calm m.world
              (m.world.modifyInstance i fun x => { x with constructing := false }) :=
            World.calm_modifyInstance _ i fun _ => rfl
          refine .constructs (.constructing i _) _ i rfl (hclose.toSteady.trans h.world.toSteady) hs
            (.inr ⟨.initializing i (World.initHooks x), rfl, ?_⟩) ?_
          · rw [h.stack]
            rfl
          · rw [h.control]
            rfl

theorem of_continueInitializing {i : InstanceId} {hooks : List (String × β)}
    (h : m'.Follows (m.world.continueInitializing i hooks) stack)
    (hs : marks m.stack = .initializing i hooks :: marks stack) : Turn m m' := by
  unfold World.continueInitializing at h
  split at h
  · next typeName hook rest =>
      refine .constructs (.initializing i _) _ i rfl h.world.toSteady hs (.inr ⟨.initializing i rest, rfl, ?_⟩) ?_
      · rw [h.stack]
        rfl
      · rw [h.control]
        rfl
  · split at h
    · obtain ⟨hw, hs', hc⟩ := follows_reply h
      exact .constructs (.initializing i _) _ i rfl hw hs (.inl hs') hc
    · next x hx =>
        obtain ⟨hw, hs', hc⟩ := follows_reply h
        exact .schedules i x hx hw (by rw [hs, hs']) hc

theorem of_collect {c : ContextId} {polled : Bool}
    (h : m'.Follows (m.world.collect c polled) stack) (hs : marks stack = marks m.stack) :
    Turn m m' := by
  unfold World.collect at h
  split at h
  · exact of_still h (.reply (.refl _) _) hs
  · next x hx =>
      refine .collects c x (polled || !x.collectReady.2.isEmpty) hx h.world.toSteady ?_ ?_
      · rw [h.stack, ← hs]
        rfl
      · rw [h.control]
        rfl

theorem of_endSource {c : ContextId} {id : SourceId} {mayStay : Bool} {reply : Reply β}
    (h : m'.Follows (m.world.endSource c id mayStay reply) stack)
    (hs : marks m.stack = .sourceEnd c id mayStay :: marks stack) : Turn m m' := by
  unfold World.endSource at h
  extract_lets stays at h
  have hstay : stays = true → mayStay = true := by
    intro hstays
    simp only [stays] at hstays
    split at hstays
    · rw [Bool.and_eq_true] at hstays
      exact hstays.1
    · cases hstays
  refine .ends c id mayStay stays hstay h.world.toSteady ?_ ?_
  · rw [hs, h.stack]
    rfl
  · rw [h.control]
    rfl

theorem still_spawnReady (w : World β) (c : ContextId) (owner : ReadyOwner) (reply : Reply β) :
    Still w (w.spawnReady c owner reply) := by
  unfold World.spawnReady
  split
  · refine .proceed (World.steady_modifyContext w c ?_) (by simp)
    exact fun _ => rfl
  · exact ⟨.refl w, fun _ hf => (by cases hf), rfl⟩

theorem of_resume {frame : Frame β} {reply : Reply β} (hm : m.control = .deliver reply)
    (hs : m.stack = .operation frame :: stack)
    (h : m'.Follows (frame.resume m.world reply) stack) : Turn m m' := by
  cases hq : frame.isQuiet with
  | true =>
      refine of_still h (.of_quiet (World.quiet_resume m.world hq reply)) ?_
      rw [hs, Machine.marks_operation, Frame.not_isMark hq]
      rfl
  | false =>
      have hmarks : marks m.stack = if frame.isMark then frame :: marks stack else marks stack := by
        rw [hs, Machine.marks_operation]
      cases frame with
      | startInterval i name debounce callback =>
          obtain ⟨hw, hs', hc⟩ := follows_reply h
          exact .startsInterval i name debounce callback hw (by rw [hmarks, hs']; rfl) hc
      | constructing i properties => exact of_continueConstructing h hmarks
      | initializing i hooks => exact of_continueInitializing h hmarks
      | readySpawn c owner => exact of_still h (still_spawnReady _ c owner reply) hmarks.symm
      | sourceEnd c id mayStay => exact of_endSource h hmarks
      | iteration c ready worked => exact of_continueIteration h hmarks
      | collect c polled => exact of_collect h hmarks.symm
      | pass p => exact of_still h (World.still_resumePass _ p reply) hmarks.symm
      | finishPass p => exact of_still h (World.still_finish _ p) hmarks.symm
      | drain c count => exact of_still h (World.still_continueDrain _ c count reply) hmarks.symm
      | advance c target count stage =>
          exact of_continueAdvance (.inl ⟨target, count, stage, stack, hs, reply, hm⟩) h hmarks.symm
      | loop l => exact of_still h (World.still_checkLoop _ l) hmarks.symm
      | looped l => exact of_still h (World.still_continueLoop _ l reply) hmarks.symm
      | _ => cases hq

/-- **A move is a turn.** -/
theorem of_moved (h : m.Moved m') : Turn m m' := by
  cases h with
  | performs command hm h => exact of_perform hm h
  | resumes frame reply stack hm hs h => exact of_resume hm hs h
  | enters rest inv reply hm hw hs hc =>
      exact .still hw.toSteady (by rw [hs, Machine.marks_callback]) (by rw [hc]; rfl)
  | asks command rest rest' inv stack hw hs hs' hc =>
      exact .still hw.toSteady (by rw [hs, hs']; rfl) (by rw [hc]; rfl)
  | goesOn reply rest rest' inv stack hw hs hs' hc =>
      exact .still hw.toSteady (by rw [hs, hs']; rfl) (by rw [hc]; rfl)
  | leaves reply rest inv stack hw hs hs' hc =>
      exact .still hw.toSteady (by rw [hs, hs']; rfl) (by rw [hc]; rfl)
  | rests reply hw hs hm hc => exact .still hw.toSteady (by rw [hs]) (by rw [hc]; rfl)

end Turn

/-- Every step of every client is a turn. -/
theorem turn_step (client : Client σ β κ) (m : Machine σ β κ) : Turn m (m.step client) :=
  .of_moved (Machine.moved_step client m)

end ObjectSystem
