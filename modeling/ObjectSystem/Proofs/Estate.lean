import ObjectSystem.Proofs.Deferral
import ObjectSystem.Proofs.Quiet

/-!
# Estates

Besides its duties, an instance has an *estate*: its class, the values that it stores and the
handlers that are connected to it. Estates, and the events that handlers settle, change with a few
operations only. A change that *spares* them leaves every estate alone and takes at most the outcome
out of an event (`World.Spares`). A step of an operation is *modest* if it spares estates, puts no
emission on the stack and calls no handler; most steps are (`modest_perform`, `modest_resume`).
-/

namespace ObjectSystem

variable {β : Type}

/-! ## Estates and events -/

/-- What an instance has to do with property values and handlers. -/
structure Estate (β : Type) where
  ofClass : Class β
  stored : NameTable Value
  handlers : List (Handler β)
  nextHandler : Nat

def Instance.estate (x : Instance β) : Estate β :=
  ⟨x.ofClass, x.stored, x.handlers, x.nextHandler⟩

/-- The same event, but its outcome may have been taken, and another task may wait for it. -/
structure Event.Aged (e e' : Event) : Prop where
  owner : e'.owner = e.owner
  handlers : e'.handlers = e.handlers
  isOpen : e'.isOpen = e.isOpen
  outcome : e'.outcome = e.outcome ∨ e'.outcome = none

namespace Event.Aged

theorem refl (e : Event) : Aged e e :=
  ⟨rfl, rfl, rfl, .inl rfl⟩

theorem trans {d e f : Event} (h : Aged d e) (g : Aged e f) : Aged d f where
  owner := g.owner.trans h.owner
  handlers := g.handlers.trans h.handlers
  isOpen := g.isOpen.trans h.isOpen
  outcome := by
    rcases g.outcome with hg | hg
    · rw [hg]
      exact h.outcome
    · exact .inr hg

end Event.Aged

namespace World

def estate? (w : World β) (i : InstanceId) : Option (Estate β) :=
  (w.instance? i).map Instance.estate

theorem estate?_eq {w : World β} {i : InstanceId} {x : Instance β} (hx : w.instance? i = some x) :
    w.estate? i = some x.estate := by
  rw [estate?, hx]
  rfl

theorem estate?_modifyInstance (w : World β) (i j : InstanceId) {f : Instance β → Instance β}
    {g : Estate β → Estate β} (hf : ∀ x, (f x).estate = g x.estate) :
    (w.modifyInstance i f).estate? j = if j = i then (w.estate? j).map g else w.estate? j := by
  unfold estate?
  rw [instance?_modifyInstance]
  split
  · cases w.instance? j with
    | none => rfl
    | some x => exact congrArg some (hf x)
  · rfl

/-- Replacing an instance replaces its estate. -/
theorem estate?_replaceInstance {w : World β} {i : InstanceId} {x : Instance β}
    (hx : w.instance? i = some x) (y : Instance β) (j : InstanceId) :
    (w.modifyInstance i fun _ => y).estate? j =
      if j = i then some y.estate else w.estate? j := by
  unfold estate?
  rw [instance?_modifyInstance]
  split
  · next hj =>
      rw [hj, hx]
      rfl
  · rfl

/-- A change that leaves estates alone, and events but for outcomes that are taken. -/
structure Spares (w v : World β) : Prop where
  estate : ∀ i, v.estate? i = w.estate? i
  nextInstance : v.nextInstance = w.nextInstance
  events : v.events.entries.length = w.events.entries.length
  event : ∀ e, Option.Rel Event.Aged (w.events.find? e) (v.events.find? e)

theorem rel_aged_refl : ∀ e? : Option Event, Option.Rel Event.Aged e? e?
  | none => .none
  | some e => .some (.refl e)

theorem rel_aged_trans {a b c : Option Event} (hab : Option.Rel Event.Aged a b)
    (hbc : Option.Rel Event.Aged b c) : Option.Rel Event.Aged a c := by
  cases hab with
  | none => exact hbc
  | some hab =>
      cases hbc with
      | some hbc => exact .some (hab.trans hbc)

namespace Spares

variable {u v w : World β}

theorem refl (w : World β) : Spares w w :=
  ⟨fun _ => rfl, rfl, rfl, fun _ => rel_aged_refl _⟩

theorem trans (h : Spares u v) (g : Spares v w) : Spares u w where
  estate i := (g.estate i).trans (h.estate i)
  nextInstance := g.nextInstance.trans h.nextInstance
  events := g.events.trans h.events
  event e := rel_aged_trans (h.event e) (g.event e)

/-- A chain of sparing changes is sparing. -/
theorem foldl {α : Type} {f : World β → α → World β} (hf : ∀ w a, Spares w (f w a)) :
    ∀ (as : List α) (w : World β), Spares w (as.foldl f w)
  | [], w => .refl w
  | a :: as, w => (hf w a).trans (foldl hf as (f w a))

/-- A change that touches neither instances nor events. -/
theorem of_eq (hi : v.instances = w.instances) (hn : v.nextInstance = w.nextInstance)
    (he : v.events = w.events) : Spares w v where
  estate i := by
    unfold estate? instance?
    rw [hi]
  nextInstance := hn
  events := by rw [he]
  event e := by
    rw [he]
    exact rel_aged_refl _

end Spares

section
variable (w : World β)

theorem spares_modifyInstance (i : InstanceId) {f : Instance β → Instance β}
    (hf : ∀ x, (f x).estate = x.estate) : Spares w (w.modifyInstance i f) where
  estate j := by
    rw [estate?_modifyInstance (g := id) w i j hf, Option.map_id_apply, ite_self]
  nextInstance := rfl
  events := rfl
  event _ := rel_aged_refl _

theorem spares_setContext (c : ContextId) (x : MainContext β) : Spares w (w.setContext c x) :=
  .of_eq rfl rfl rfl

theorem spares_modifyContext (c : ContextId) (f : MainContext β → MainContext β) :
    Spares w (w.modifyContext c f) :=
  .of_eq rfl rfl rfl

/-- An event that is changed may lose its outcome only. -/
theorem spares_modifyEvent (e : EventId) {f : Event → Event}
    (hf : ∀ event : Event, event.Aged (f event)) :
    Spares w { w with events := w.events.modify e f } where
  estate _ := rfl
  nextInstance := rfl
  events := List.length_map _
  event d := by
    have hfind := Table.find?_modify w.events e d f
    rw [hfind]
    split
    · cases w.events.find? d with
      | none => exact .none
      | some event => exact .some (hf event)
    · exact rel_aged_refl _

theorem spares_takeOutcome (e : EventId) : Spares w (w.takeOutcome e).1 := by
  unfold takeOutcome
  split
  · exact .refl w
  · split
    · exact .refl w
    · exact spares_modifyEvent w e fun _ => ⟨rfl, rfl, rfl, .inr rfl⟩

/-! ### Parts that estates have nothing to do with -/

theorem spares_register (registry : Registry) : Spares w { w with registry } :=
  .of_eq rfl rfl rfl

theorem spares_addContext (config : Config) : Spares w (w.addContext config).1 :=
  .of_eq rfl rfl rfl

theorem spares_addLoop (c : ContextId) : Spares w (w.addLoop c).1 :=
  .of_eq rfl rfl rfl

theorem spares_setRunning (l : LoopId) (running : Bool) : Spares w (w.setRunning l running) :=
  .of_eq rfl rfl rfl

theorem spares_addAction (action : Action β) : Spares w (w.addAction action).1 :=
  .of_eq rfl rfl rfl

theorem spares_modifyAction (a : ActionId) (f : Action β → Action β) :
    Spares w (w.modifyAction a f) :=
  .of_eq rfl rfl rfl

theorem spares_addGroup : Spares w w.addGroup.1 :=
  .of_eq rfl rfl rfl

theorem spares_modifyGroup (g : GroupId) (f : ActionGroup → ActionGroup) :
    Spares w (w.modifyGroup g f) :=
  .of_eq rfl rfl rfl

/-! ### Actions and deferred work -/

theorem spares_insertGroup (i : InstanceId) (qualifier : String) (g : GroupId) :
    Spares w (w.insertGroup i qualifier g) :=
  spares_modifyInstance w i fun _ => rfl

theorem spares_setAccels (i : InstanceId) (name : String) (accels : List String) :
    Spares w (w.setAccels i name accels) :=
  spares_modifyInstance w i fun _ => rfl

theorem spares_ownGroup (i : InstanceId) (x : Instance β) : Spares w (w.ownGroup i x).1 := by
  unfold ownGroup
  split
  · exact .refl w
  · have hadd := spares_addGroup w
    have hown : Spares w.addGroup.1
        (w.addGroup.1.modifyInstance i fun x => { x with ownGroup := some w.addGroup.2 }) :=
      spares_modifyInstance _ i fun _ => rfl
    exact (hadd.trans hown).trans (spares_insertGroup _ i _ _)

theorem spares_attachAction (i : InstanceId) (a : ActionId) : Spares w (w.attachAction i a) := by
  unfold attachAction
  split
  · split
    · exact .refl w
    · exact (spares_ownGroup w i _).trans (spares_modifyGroup _ _ _)
    · exact spares_modifyInstance w i fun _ => rfl
    · exact spares_modifyInstance w i fun _ => rfl
  · exact .refl w

theorem spares_createAction (i : InstanceId) (kind : InstanceKind)
    (declared : ActionDeclaration β) : Spares w (w.createAction i kind declared) := by
  unfold createAction
  extract_lets _ action
  have hadd := spares_addAction w action
  have hattached := hadd.trans (spares_attachAction _ i (w.addAction action).2)
  have hexpose (v : World β) (field : String) :
      Spares v (v.modifyInstance i fun x =>
        { x with exposed := x.exposed.insert field (w.addAction action).2 }) :=
    spares_modifyInstance v i fun _ => rfl
  dsimp only
  split <;> split
  · exact (hattached.trans (spares_setAccels _ i _ _)).trans (hexpose _ _)
  · exact hattached.trans (hexpose _ _)
  · exact hattached.trans (spares_setAccels _ i _ _)
  · exact hattached

theorem estate_seedBacking (x : Instance β) (entry : PropertyEntry β) :
    (seedBacking x entry).estate = x.estate := by
  unfold seedBacking
  split
  · unfold Instance.seedField
    split <;> rfl
  · rfl

theorem estate_foldl {α : Type} {f : Instance β → α → Instance β}
    (hf : ∀ x a, (f x a).estate = x.estate) :
    ∀ (as : List α) (x : Instance β), (as.foldl f x).estate = x.estate
  | [], _ => rfl
  | a :: as, x => (estate_foldl hf as (f x a)).trans (hf x a)

theorem spares_initializeLevel (i : InstanceId) (kind : InstanceKind) (level : ClassLevel β) :
    Spares w (w.initializeLevel i kind level) :=
  (spares_modifyInstance w i (estate_foldl estate_seedBacking _)).trans
    (Spares.foldl (fun w declared => spares_createAction w i kind declared) _ _)

theorem spares_initializeLevels (i : InstanceId) (c : Class β) :
    Spares w (w.initializeLevels i c) :=
  Spares.foldl (fun w level => spares_initializeLevel w i c.kind level) _ w

theorem spares_presetFields (i : InstanceId) (fields : List (String × Value)) :
    Spares w (w.presetFields i fields) := by
  refine spares_modifyInstance w i fun x => estate_foldl (fun y field => ?_) fields x
  rfl

theorem spares_bindChildren (i : InstanceId) (children : List (String × InstanceId)) :
    Spares w (w.bindChildren i children) :=
  spares_presetFields w i _

theorem spares_detachSources (c : ContextId) (ids : List SourceId) :
    Spares w (w.detachSources c ids) :=
  spares_modifyContext w c _

theorem spares_scheduleReady (i : InstanceId) (typeName : String) (hook : ReadyHook β) :
    Spares w (w.scheduleReady i typeName hook) := by
  refine scheduleReady_induction w i typeName hook (.refl w) fun x y _ _ => ?_
  exact (spares_setContext w _ _).trans (spares_modifyInstance _ i fun _ => rfl)

theorem spares_scheduleHooks (i : InstanceId) (x : Instance β) :
    Spares w (w.scheduleHooks i x) :=
  scheduleHooks_induction w i x (.refl w)
    fun v typeName hook hv => hv.trans (spares_scheduleReady v i typeName hook)

theorem spares_restartBurst (i : InstanceId) (method : String) (debounce : Debounce)
    (callback : β) : Spares w (w.restartBurst i method debounce callback) := by
  refine restartBurst_induction w i method debounce callback (.refl w) fun x y _ _ => ?_
  refine Spares.trans ?_ (spares_modifyInstance _ i fun _ => rfl)
  exact .of_eq rfl rfl rfl

theorem spares_wake (waiter : Option Waiter) : Spares w (w.wake waiter) := by
  unfold wake
  split
  · exact .refl w
  · exact spares_modifyContext w _ _

end

end World

/-! ## Modest steps -/

/-- The emission in a frame. -/
def Frame.emission? : Frame β → Option (Emission β)
  | .emission e => some e
  | _ => none

/-- The handler that a callback in this role is. -/
def Role.handler? : Role → Option HandlerId
  | .handler h => some h
  | _ => none

/-- Whether what happens next is anything but a handler that starts. -/
def Control.callsNone : Control β → Prop
  | .invoke _ inv => inv.role.handler? = none
  | _ => True

/-- A step that spares estates, puts no emission on the stack and calls no handler. -/
structure Progress.Modest (w : World β) (p : Progress β) : Prop where
  spares : World.Spares w p.world
  frames : ∀ f ∈ p.frames, f.emission? = none
  control : p.control.callsNone

namespace Progress.Modest

variable {w v : World β}

theorem reply (h : World.Spares w v) (r : Reply β) : Modest w (.reply v r) :=
  ⟨h, fun _ hf => (by cases hf), trivial⟩

theorem proceed (h : World.Spares w v) {frames : List (Frame β)}
    (hf : ∀ f ∈ frames, f.emission? = none) : Modest w (.proceed v frames) :=
  ⟨h, hf, trivial⟩

theorem invoke (h : World.Spares w v) {callback : β} {inv : Invocation}
    (hi : inv.role.handler? = none) {frames : List (Frame β)}
    (hf : ∀ f ∈ frames, f.emission? = none) : Modest w (.invoke v callback inv frames) :=
  ⟨h, hf, hi⟩

theorem perform (h : World.Spares w v) {command : Command β} {frames : List (Frame β)}
    (hf : ∀ f ∈ frames, f.emission? = none) : Modest w (.perform v command frames) :=
  ⟨h, hf, trivial⟩

/-- A sparing change before a modest step leaves it modest. -/
theorem after {p : Progress β} (h : World.Spares w v) (hp : Modest v p) : Modest w p :=
  ⟨h.trans hp.spares, hp.frames, hp.control⟩

end Progress.Modest

open Progress (Modest)

namespace World

variable (w : World β)

/-! ### Actions -/

theorem modest_activateAction (a : ActionId) (parameter : Option Value) :
    Modest w (w.activateAction a parameter) := by
  unfold activateAction
  split
  · exact .reply (.refl w) _
  · split
    · exact .reply (.refl w) _
    · split
      · exact .proceed (.refl w) (List.forall_mem_singleton.mpr rfl)
      · exact .reply (.refl w) _

theorem modest_activateFound (name : String) (found : Option ActionId) (parameter : Option Value) :
    Modest w (w.activateFound name found parameter) := by
  unfold activateFound
  split
  · exact modest_activateAction w _ _
  · exact .reply (.refl w) _

theorem modest_activate (i : InstanceId) (name : String) (parameter : Option Value) :
    Modest w (w.activate i name parameter) := by
  unfold activate
  split
  · exact .reply (.refl w) _
  · exact modest_activateFound w _ _ _

theorem modest_nextActivation (a : Activation β) : Modest w (a.next w) := by
  unfold Activation.next
  split
  · exact .reply (.refl w) _
  · dsimp only
    split
    · exact .invoke (.refl w) rfl (List.forall_mem_singleton.mpr rfl)
    · split
      · exact .invoke (.refl w) rfl (List.forall_mem_singleton.mpr rfl)
      · exact .proceed (.refl w) (List.forall_mem_singleton.mpr rfl)

theorem modest_setActionState (a : ActionId) (state : Value) :
    Modest w (w.setActionState a state) := by
  unfold setActionState
  split
  · exact .reply (.refl w) _
  · split
    · exact .reply (spares_modifyAction w a _) _
    · exact .reply (.refl w) _

theorem modest_addToGroup (g : GroupId) (a : ActionId) : Modest w (w.addToGroup g a) := by
  unfold addToGroup
  split
  · exact .reply (.refl w) _
  · exact .reply (spares_modifyGroup w g _) _

/-! ### Properties, fields and methods -/

theorem modest_readProperty (i : InstanceId) (name : String) :
    Modest w (w.readProperty i name) := by
  unfold readProperty
  split
  · exact .reply (.refl w) _
  · split
    · exact .reply (.refl w) _
    · exact .reply (.refl w) _
    · exact .invoke (.refl w) rfl (List.forall_mem_singleton.mpr rfl)

theorem modest_runEffect (i : InstanceId) (property : String) (effect : Option β) (value : Value) :
    Modest w (w.runEffect i property effect value) := by
  unfold runEffect
  split
  · exact .reply (.refl w) _
  · exact .invoke (.refl w) rfl (List.forall_mem_singleton.mpr rfl)

theorem modest_writeField (i : InstanceId) (name : String) (value : Value) :
    Modest w (w.writeField i name value) := by
  have hset : Spares w (w.modifyInstance i (·.setField name value)) :=
    spares_modifyInstance w i fun _ => rfl
  unfold writeField
  split
  · exact .reply (.refl w) _
  · exact .reply hset _

theorem modest_call (i : InstanceId) (name : String) (args : List Value) :
    Modest w (w.call i name args) := by
  unfold call
  split
  · exact .reply (.refl w) _
  · split
    · exact .reply (.refl w) _
    · split
      · exact .reply (.refl w) _
      · exact .invoke (.refl w) rfl (List.forall_mem_singleton.mpr rfl)
      · next x _ _ _ callback debounce _ =>
          dsimp only
          have hburst : Spares w (w.modifyInstance i
              (·.setBurst name ((x.burst name).record debounce.trigger args))) :=
            spares_modifyInstance w i fun _ => rfl
          split
          · exact .invoke hburst rfl (List.forall_mem_singleton.mpr rfl)
          · exact .reply (hburst.trans (spares_restartBurst _ i name debounce callback)) _

theorem modest_continueConstructing (i : InstanceId) (properties : List (String × Value))
    (reply : Reply β) : Modest w (w.continueConstructing i properties reply) := by
  unfold continueConstructing
  split
  · exact .reply (.refl w) _
  · split
    · exact .perform (.refl w) (List.forall_mem_singleton.mpr rfl)
    · split
      · exact .reply (.refl w) _
      · refine .proceed (spares_modifyInstance w i fun _ => ?_) (List.forall_mem_singleton.mpr rfl)
        rfl

theorem modest_continueInitializing (i : InstanceId) (hooks : List (String × β)) :
    Modest w (w.continueInitializing i hooks) := by
  unfold continueInitializing
  split
  · exact .invoke (.refl w) rfl (List.forall_mem_singleton.mpr rfl)
  · split
    · exact .reply (.refl w) _
    · exact .reply (spares_scheduleHooks w i _) _

/-! ### Declarations -/

theorem modest_registered (result : Except RegistrationError (Registry × TypeHandle)) :
    Modest w (w.registered result) := by
  unfold registered
  split
  · exact .reply (spares_register w _) _
  · exact .reply (.refl w) _

theorem modest_finalize (builder : ClassBuilder β) : Modest w (w.finalize builder) := by
  unfold finalize
  split
  · exact .reply (spares_register w _) _
  · exact .reply (.refl w) _

/-! ### Contexts -/

theorem modest_addSource (c : ContextId) (attach : MainContext β → MainContext β × SourceId) :
    Modest w (w.addSource c attach) := by
  unfold addSource
  split
  · exact .reply (.refl w) _
  · exact .reply (spares_setContext w _ _) _

theorem modest_removeSource (c : ContextId) (id : SourceId) : Modest w (w.removeSource c id) := by
  unfold removeSource
  split
  · exact .reply (.refl w) _
  · split
    · exact .reply (spares_setContext w _ _) _
    · exact .reply (.refl w) _

theorem modest_iterate (c : ContextId) : Modest w (w.iterate c) := by
  unfold iterate
  split
  · exact .reply (.refl w) _
  · split
    · exact .proceed (spares_setContext w _ _)
        (List.forall_mem_cons.mpr ⟨rfl, List.forall_mem_singleton.mpr rfl⟩)
    · exact .proceed (.refl w) (List.forall_mem_singleton.mpr rfl)

theorem modest_collect (c : ContextId) (polled : Bool) : Modest w (w.collect c polled) := by
  unfold collect
  split
  · exact .reply (.refl w) _
  · exact .proceed (spares_setContext w _ _) (List.forall_mem_singleton.mpr rfl)

theorem modest_startWork (c : ContextId) (id : SourceId) (work : SourceWork β)
    {frames : List (Frame β)} (hf : ∀ f ∈ frames, f.emission? = none) :
    Modest w (w.startWork c id work frames) := by
  have untracked (i : InstanceId) : Spares w (w.modifyInstance i (·.untrackReady id)) :=
    spares_modifyInstance w i fun _ => rfl
  have ended (i : InstanceId) (name : String) (burst : Burst) :
      Spares w (w.modifyInstance i (·.setBurst name burst)) :=
    spares_modifyInstance w i fun _ => rfl
  refine startWork_cases (P := fun _ p => Modest w p) w c id work frames ?_ ?_ ?_ ?_ ?_ ?_ ?_ ?_
  · exact fun _ => .invoke (.refl w) rfl hf
  · exact fun _ => .invoke (.refl w) rfl hf
  · exact fun _ _ _ _ => .proceed (.refl w) hf
  · exact fun i _ _ _ => .invoke (untracked i) rfl (List.forall_mem_cons.mpr ⟨rfl, hf⟩)
  · exact fun i _ _ _ => .invoke (untracked i) rfl (List.forall_mem_cons.mpr ⟨rfl, hf⟩)
  · exact fun _ _ _ _ _ => .proceed (.refl w) hf
  · exact fun i name _ _ _ _ _ _ _ => .proceed (ended i name _) hf
  · exact fun i name _ _ _ _ _ _ _ _ => .invoke (ended i name _) rfl hf

theorem modest_continueIteration (c : ContextId) (ready : List SourceId) (worked : Bool) :
    Modest w (w.continueIteration c ready worked) := by
  unfold continueIteration
  split
  · exact .reply (.refl w) _
  · dsimp only
    split
    · exact .proceed (.refl w) (List.forall_mem_singleton.mpr rfl)
    · next id rest _ x work _ =>
        have hset : Spares w (w.setContext c x) := spares_setContext w c x
        have hframes : ∀ f ∈ [Frame.sourceEnd c id work.mayStay, .iteration c rest worked],
            f.emission? = (none : Option (Emission β)) :=
          List.forall_mem_cons.mpr ⟨rfl, List.forall_mem_singleton.mpr rfl⟩
        exact .after hset (modest_startWork _ c id work hframes)

theorem modest_endSource (c : ContextId) (id : SourceId) (mayStay : Bool) (reply : Reply β) :
    Modest w (w.endSource c id mayStay reply) :=
  .proceed (spares_modifyContext w c _) (fun _ hf => (by cases hf))

theorem modest_endReady (typeName : String) (reply : Reply β) :
    Modest w (w.endReady typeName reply) :=
  ⟨.refl w, fun _ hf => (by cases hf), trivial⟩

theorem modest_spawnReady (c : ContextId) (owner : ReadyOwner) (reply : Reply β) :
    Modest w (w.spawnReady c owner reply) := by
  unfold spawnReady
  split
  · exact .proceed (spares_modifyContext w c _) (fun _ hf => (by cases hf))
  · exact modest_endReady w _ _

/-! ### Passes over tasks -/

theorem modest_finish (p : Pass) : Modest w (p.finish w) := by
  unfold Pass.finish
  split
  · exact .reply (spares_modifyContext w _ _) _
  · exact .proceed (spares_modifyContext w _ _) (List.forall_mem_singleton.mpr rfl)

theorem modest_pollNext (p : Pass) : Modest w (p.pollNext w) := by
  unfold Pass.pollNext
  split
  · exact .reply (.refl w) _
  · next x hx =>
      generalize x.passTasks.dequeue = dequeued
      obtain ⟨task?, set⟩ := dequeued
      dsimp only
      have hset : Spares w (w.setContext p.context (x.modifyPass fun _ => set)) :=
        spares_setContext w _ _
      split
      · exact .after hset (modest_finish _ p)
      · split
        · exact .invoke (hset.trans (spares_modifyContext _ _ _)) rfl
            (List.forall_mem_singleton.mpr rfl)
        · next event _ =>
            have htake := hset.trans (spares_takeOutcome _ event)
            split
            · next v outcome htaken =>
                rw [htaken] at htake
                refine ⟨htake.trans (spares_modifyContext v _ _), ?_, trivial⟩
                exact List.forall_mem_singleton.mpr rfl
            · next v htaken =>
                rw [htaken] at htake
                exact ⟨htake, List.forall_mem_singleton.mpr rfl, trivial⟩

theorem modest_resumePass (p : Pass) (reply : Reply β) : Modest w (p.resume w reply) := by
  have hround (v : World β) : Modest v (p.beginRound v) :=
    .after (spares_modifyContext v _ _) (modest_pollNext _ _)
  unfold Pass.resume
  split
  · unfold Pass.taskFinished
    split
    · exact hround w
    · exact ⟨spares_modifyContext w _ _, List.forall_mem_singleton.mpr rfl, trivial⟩
  · unfold Pass.taskWaits
    extract_lets v q
    have hv : Spares w v := by
      unfold v
      split
      · exact .refl w
      · exact spares_modifyContext w _ _
    split
    · exact .after (hv.trans (spares_modifyContext v _ _)) (modest_finish _ q)
    · exact .after hv (modest_pollNext v q)
  · exact hround w

/-! ### Driving a context -/

theorem modest_drain (c : ContextId) (count : Nat) : Modest w (w.drain c count) := by
  unfold drain
  split
  · exact .reply (.refl w) _
  · split
    · exact .perform (.refl w) (List.forall_mem_singleton.mpr rfl)
    · exact .reply (.refl w) _

theorem modest_continueDrain (c : ContextId) (count : Nat) (reply : Reply β) :
    Modest w (w.continueDrain c count reply) := by
  unfold continueDrain
  split
  · exact modest_drain w c _
  · exact .reply (.refl w) _
  · exact modest_drain w c _

theorem modest_advance (c : ContextId) (duration : Nat) : Modest w (w.advance c duration) := by
  unfold advance
  split
  · exact .reply (.refl w) _
  · dsimp only
    split
    · exact .perform (.refl w) (List.forall_mem_singleton.mpr rfl)
    · exact .perform (spares_modifyContext w c _) (fun _ hf => (by cases hf))

theorem modest_stepClock (c : ContextId) (target count : Nat) :
    Modest w (w.stepClock c target count) := by
  have hset (now : Nat) (stage : AdvanceStage) :
      Modest w (.perform (w.setTime c now) (.runUntilIdle c) [.advance c target count stage]) :=
    .perform (spares_modifyContext w c _) (List.forall_mem_singleton.mpr rfl)
  unfold stepClock
  split
  · exact .reply (.refl w) _
  · split
    · exact hset _ _
    · split
      · exact hset _ _
      · exact hset _ _

theorem modest_continueAdvance (c : ContextId) (target count : Nat) (stage : AdvanceStage)
    (reply : Reply β) : Modest w (w.continueAdvance c target count stage reply) := by
  unfold continueAdvance
  extract_lets ran
  clear_value ran
  cases stage with
  | before => exact modest_stepClock w c _ _
  | within =>
      dsimp only
      split
      · exact .perform (spares_modifyContext w c _) (List.forall_mem_singleton.mpr rfl)
      · exact modest_stepClock w c _ _
  | after => exact .reply (.refl w) _

theorem modest_checkLoop (l : LoopId) : Modest w (w.checkLoop l) := by
  unfold checkLoop
  split
  · exact .reply (.refl w) _
  · split
    · exact .perform (.refl w) (List.forall_mem_singleton.mpr rfl)
    · exact .reply (spares_setRunning w l false) _

theorem modest_continueLoop (l : LoopId) (reply : Reply β) :
    Modest w (w.continueLoop l reply) := by
  unfold continueLoop
  split
  · exact modest_checkLoop w l
  · split
    · exact .reply (.refl w) _
    · split
      · exact .reply (.refl w) _
      · split
        · exact .perform (.refl w) (List.forall_mem_singleton.mpr rfl)
        · split
          · exact modest_checkLoop w l
          · exact .reply (spares_setRunning w l false) _

end World

/-! ### All modest commands and frames -/

/-- Whether a command leaves estates alone and begins no emission. -/
def Command.isModest : Command β → Bool
  | .construct _ | .setProperty .. | .notify .. | .dispose _ | .connect .. | .connectNotify ..
  | .disconnect .. | .emit .. | .awaitEvent .. => false
  | _ => true

/-- Whether an operation in progress does. -/
def Frame.isModest : Frame β → Bool
  | .reportChange .. | .emission _ => false
  | _ => true

namespace World

variable (w : World β)

/-- A modest command begins modestly. -/
theorem modest_perform {command : Command β} (h : command.isModest = true) :
    Modest w (w.perform command) := by
  cases command with
  | registerEnum name members => exact modest_registered w _
  | registerInterface name => exact modest_registered w _
  | registerClass registration => exact modest_registered w _
  | finalize builder => exact modest_finalize w _
  | property i name => exact modest_readProperty w _ _
  | setField i name value => exact modest_writeField w _ _ _
  | call i name args => exact modest_call w _ _ _
  | newAction name options => exact .reply (spares_addAction w _) _
  | enableAction a enabled => exact .reply (spares_modifyAction w a _) _
  | setActionState a state => exact modest_setActionState w _ _
  | connectAction a callback => exact .reply (spares_modifyAction w a _) _
  | activateAction a parameter => exact modest_activateAction w _ _
  | activate i name parameter => exact modest_activate w _ _ _
  | attachAction i a => exact .reply (spares_attachAction w i a) _
  | setAccels i name accels => exact .reply (spares_setAccels w i name accels) _
  | newGroup => exact .reply (spares_addGroup w) _
  | ownGroup i =>
      unfold perform
      dsimp only
      split
      · exact .reply (.refl w) _
      · exact .reply (spares_ownGroup w i _) _
  | insertGroup i qualifier g => exact .reply (spares_insertGroup w i qualifier g) _
  | addToGroup g a => exact modest_addToGroup w _ _
  | removeFromGroup g name => exact .reply (spares_modifyGroup w g _) _
  | activateInGroup g name parameter => exact modest_activateFound w _ _ _
  | newContext config => exact .reply (spares_addContext w config) _
  | addIdle c priority once callback =>
      exact modest_addSource w c fun x => x.addIdle priority (callbackWork once callback)
  | addTimeout c priority interval once callback =>
      exact modest_addSource w c fun x =>
        x.addTimeout priority interval (callbackWork once callback)
  | removeSource c id => exact modest_removeSource w _ _
  | iterate c => exact modest_iterate w _
  | runUntilIdle c => exact modest_drain w _ _
  | advance c duration => exact modest_advance w _ _
  | spawn c callback => exact .reply (spares_modifyContext w c _) _
  | newLoop c => exact .reply (spares_addLoop w c) _
  | runLoop l => exact .proceed (spares_setRunning w l true) (List.forall_mem_singleton.mpr rfl)
  | quitLoop l => exact .reply (spares_setRunning w l false) _
  | pollEvent e => exact .reply (spares_takeOutcome w e) _
  | construct | setProperty | notify | dispose | connect | connectNotify | disconnect | emit
  | awaitEvent => cases h

/-- A modest frame goes on modestly. -/
theorem modest_resume {frame : Frame β} (h : frame.isModest = true) (reply : Reply β) :
    Modest w (frame.resume w reply) := by
  cases frame with
  | runEffect i property effect value => exact modest_runEffect w _ _ _ _
  | finishWrite i => exact .reply (.refl w) _
  | orDefault i default => exact .reply (.refl w) _
  | result i => exact .reply (.refl w) _
  | startInterval i name debounce callback =>
      exact .reply (spares_restartBurst w i name debounce callback) _
  | activation a => exact modest_nextActivation w _
  | letGo held => exact .reply (.refl w) _
  | constructing i properties => exact modest_continueConstructing w _ _ _
  | initializing i hooks => exact modest_continueInitializing w _ _
  | readyEnd typeName => exact modest_endReady w _ _
  | readySpawn c owner => exact modest_spawnReady w _ _ _
  | sourceEnd c id mayStay => exact modest_endSource w _ _ _ _
  | iteration c ready worked => exact modest_continueIteration w _ _ _
  | collect c polled => exact modest_collect w _ _
  | pass p => exact modest_resumePass w _ _
  | finishPass p => exact modest_finish w _
  | drain c count => exact modest_continueDrain w _ _ _
  | advance c target count stage => exact modest_continueAdvance w _ _ _ _ _
  | loop l => exact modest_checkLoop w _
  | looped l => exact modest_continueLoop w _ _
  | reportChange | emission => cases h

end World

end ObjectSystem
