import ObjectSystem.Proofs.Deferral
import ObjectSystem.Proofs.Fittings

/-!
# Changes that bypass gates, identities and loops

Every instance has a *gate* for its construct-only properties, which is open as long as the instance
counts as being constructed (`World.gates`). Gates, the identities of instances and the state of
loops are the business of a few operations only: constructions have to do with gates and new
identities, and runs of loops with loops. All other operations *bypass* them (`bypasses_perform`).
Most operations *sidestep* instances altogether: they keep their fittings as well
(`sidesteps_perform`, `sidesteps_resume`), and of the operations that remain, those on loops do so
too (`keepsFittings_perform`, `keepsFittings_resume`).
-/

namespace ObjectSystem

variable {β : Type}

/-! ## Instances -/

namespace Instance

variable (x : Instance β)

theorem constructing_foldl {α : Type} {f : Instance β → α → Instance β}
    (hf : ∀ x a, (f x a).constructing = x.constructing) :
    ∀ (as : List α) (x : Instance β), (as.foldl f x).constructing = x.constructing
  | [], _ => rfl
  | a :: as, x => (constructing_foldl hf as (f x a)).trans (hf x a)

theorem constructing_seedBacking (entry : PropertyEntry β) :
    (World.seedBacking x entry).constructing = x.constructing := by
  unfold World.seedBacking seedField
  split
  · split <;> rfl
  · rfl

theorem constructing_connect {y : Instance β} {signal : String} {target : HandlerTarget β}
    {h : HandlerId} (hc : x.connect signal target = .ok (y, h)) :
    y.constructing = x.constructing := by
  unfold connect at hc
  dsimp only at hc
  split at hc
  · cases hc
  · cases hc
    rfl

theorem constructing_connectEvent {y : Instance β} {event : EventId} {resolve : String}
    {reject : Option String} {ids : List HandlerId}
    (hc : World.connectEvent x event resolve reject = .ok (y, ids)) :
    y.constructing = x.constructing := by
  obtain ⟨z, first, hfirst, ⟨-, rfl, -⟩ | ⟨signal, second, -, hsecond, -⟩⟩ :=
    World.connects_of_connectEvent hc
  · exact x.constructing_connect hfirst
  · exact (z.constructing_connect hsecond).trans (x.constructing_connect hfirst)

end Instance

namespace World

/-! ## Gates -/

/-- For every instance that is there, whether its construct-only properties can still be written. -/
def gates (w : World β) (i : InstanceId) : Option Bool :=
  (w.instance? i).map (·.constructing)

theorem gates_eq {w : World β} {i : InstanceId} {x : Instance β} (hx : w.instance? i = some x) :
    w.gates i = some x.constructing := by
  rw [gates, hx]
  rfl

theorem keys_modifyInstance (w : World β) (i : InstanceId) (f : Instance β → Instance β) :
    (w.modifyInstance i f).instances.keys = w.instances.keys := by
  unfold modifyInstance Table.modify Table.keys
  rw [List.map_map]
  refine List.map_congr_left fun entry _ => ?_
  dsimp only [Function.comp_apply]
  split <;> rfl

/-- A change that leaves gates, the identities of instances and loops alone. -/
structure Bypasses (w v : World β) : Prop where
  gates : v.gates = w.gates
  keys : v.instances.keys = w.instances.keys
  loops : v.loops = w.loops

namespace Bypasses

variable {u v w : World β}

theorem refl (w : World β) : Bypasses w w :=
  ⟨rfl, rfl, rfl⟩

theorem trans (h : Bypasses u v) (g : Bypasses v w) : Bypasses u w :=
  ⟨g.gates.trans h.gates, g.keys.trans h.keys, g.loops.trans h.loops⟩

/-- A chain of such changes is one. -/
theorem foldl {α : Type} {f : World β → α → World β} (hf : ∀ w a, Bypasses w (f w a)) :
    ∀ (as : List α) (w : World β), Bypasses w (as.foldl f w)
  | [], w => .refl w
  | a :: as, w => (hf w a).trans (foldl hf as (f w a))

/-- A change that touches neither instances nor loops. -/
theorem of_eq (hi : v.instances = w.instances) (hl : v.loops = w.loops) : Bypasses w v where
  gates := by
    unfold World.gates instance?
    rw [hi]
  keys := by rw [hi]
  loops := hl

end Bypasses

/-- A change that bypasses all these and keeps fittings. -/
structure Sidesteps (w v : World β) : Prop extends Bypasses w v, KeepsFittings w v

namespace Sidesteps

variable {u v w : World β}

theorem refl (w : World β) : Sidesteps w w :=
  ⟨.refl w, .refl w⟩

theorem trans (h : Sidesteps u v) (g : Sidesteps v w) : Sidesteps u w :=
  ⟨h.toBypasses.trans g.toBypasses, h.toKeepsFittings.trans g.toKeepsFittings⟩

/-- A chain of such changes is one. -/
theorem foldl {α : Type} {f : World β → α → World β} (hf : ∀ w a, Sidesteps w (f w a)) :
    ∀ (as : List α) (w : World β), Sidesteps w (as.foldl f w)
  | [], w => .refl w
  | a :: as, w => (hf w a).trans (foldl hf as (f w a))

/-- A change that touches neither instances nor loops nor actions. -/
theorem of_eq (hi : v.instances = w.instances) (hl : v.loops = w.loops)
    (ha : v.actions = w.actions) (hg : v.groups = w.groups) : Sidesteps w v :=
  ⟨.of_eq hi hl, .of_eq hi ha hg⟩

end Sidesteps

section
variable (w : World β)

theorem bypasses_modifyInstance (i : InstanceId) {f : Instance β → Instance β}
    (hf : ∀ x, (f x).constructing = x.constructing) : Bypasses w (w.modifyInstance i f) where
  gates := by
    funext j
    unfold gates
    rw [instance?_modifyInstance]
    split
    · cases w.instance? j with
      | none => rfl
      | some x => exact congrArg some (hf x)
    · rfl
  keys := keys_modifyInstance w i f
  loops := rfl

theorem bypasses_replaceInstance {w : World β} {i : InstanceId} {x y : Instance β}
    (hx : w.instance? i = some x) (hy : y.constructing = x.constructing) :
    Bypasses w (w.modifyInstance i fun _ => y) where
  gates := by
    funext j
    unfold gates
    rw [instance?_modifyInstance]
    split
    · next hj =>
        rw [hj, hx]
        exact congrArg some hy
    · rfl
  keys := keys_modifyInstance w i _
  loops := rfl

theorem sidesteps_modifyInstance (i : InstanceId) {f : Instance β → Instance β}
    (hf : ∀ x, (f x).constructing = x.constructing) (hfittings : ∀ x, (f x).fittings = x.fittings) :
    Sidesteps w (w.modifyInstance i f) :=
  ⟨w.bypasses_modifyInstance i hf, w.keepsFittings_modifyInstance i hfittings⟩

theorem sidesteps_replaceInstance {w : World β} {i : InstanceId} {x y : Instance β}
    (hx : w.instance? i = some x) (hy : y.constructing = x.constructing)
    (hfittings : y.fittings = x.fittings) : Sidesteps w (w.modifyInstance i fun _ => y) :=
  ⟨bypasses_replaceInstance hx hy, keepsFittings_replaceInstance hx hfittings⟩

theorem sidesteps_modifyContext (c : ContextId) (f : MainContext β → MainContext β) :
    Sidesteps w (w.modifyContext c f) :=
  .of_eq rfl rfl rfl rfl

theorem sidesteps_setContext (c : ContextId) (x : MainContext β) : Sidesteps w (w.setContext c x) :=
  .of_eq rfl rfl rfl rfl

theorem sidesteps_takeOutcome (e : EventId) : Sidesteps w (w.takeOutcome e).1 := by
  unfold takeOutcome
  split
  · exact .refl w
  · split <;> exact .of_eq rfl rfl rfl rfl

theorem sidesteps_wake (waiter : Option Waiter) : Sidesteps w (w.wake waiter) := by
  unfold wake
  split <;> exact .of_eq rfl rfl rfl rfl

theorem sidesteps_settle (e : EventId) (outcome : EventOutcome) :
    Sidesteps w (w.settle e outcome) := by
  refine settle_induction w e outcome (.refl w) fun event _ _ => ?_
  have hdisconnect := w.sidesteps_modifyInstance event.owner
    (Instance.constructing_foldl (f := Instance.disconnect) (fun _ _ => rfl) event.handlers)
    (Instance.fittings_disconnectAll event.handlers)
  have hevents (v : World β) (events : Table EventId Event) : Sidesteps v { v with events } :=
    .of_eq rfl rfl rfl rfl
  exact (hdisconnect.trans (hevents _ _)).trans (sidesteps_wake _ _)

/-! ### Actions -/

theorem bypasses_insertGroup (i : InstanceId) (qualifier : String) (g : GroupId) :
    Bypasses w (w.insertGroup i qualifier g) :=
  w.bypasses_modifyInstance i fun _ => rfl

theorem bypasses_setAccels (i : InstanceId) (name : String) (accels : List String) :
    Bypasses w (w.setAccels i name accels) :=
  w.bypasses_modifyInstance i fun _ => rfl

theorem bypasses_ownGroup (i : InstanceId) (x : Instance β) : Bypasses w (w.ownGroup i x).1 := by
  unfold ownGroup
  split
  · exact .refl w
  · have hadd : Bypasses w w.addGroup.1 := .of_eq rfl rfl
    have hown : Bypasses w.addGroup.1
        (w.addGroup.1.modifyInstance i fun x => { x with ownGroup := some w.addGroup.2 }) :=
      bypasses_modifyInstance _ i fun _ => rfl
    exact (hadd.trans hown).trans (bypasses_insertGroup _ i _ _)

theorem bypasses_attachAction (i : InstanceId) (a : ActionId) :
    Bypasses w (w.attachAction i a) := by
  unfold attachAction
  split
  · split
    · exact .refl w
    · exact (bypasses_ownGroup w i _).trans (.of_eq rfl rfl)
    · exact w.bypasses_modifyInstance i fun _ => rfl
    · exact w.bypasses_modifyInstance i fun _ => rfl
  · exact .refl w

theorem bypasses_createAction (i : InstanceId) (kind : InstanceKind)
    (declared : ActionDeclaration β) : Bypasses w (w.createAction i kind declared) := by
  unfold createAction
  extract_lets _ action
  have hadd : Bypasses w (w.addAction action).1 := .of_eq rfl rfl
  have hattached := hadd.trans (bypasses_attachAction _ i (w.addAction action).2)
  have hexpose (v : World β) (field : String) :
      Bypasses v (v.modifyInstance i fun x =>
        { x with exposed := x.exposed.insert field (w.addAction action).2 }) :=
    v.bypasses_modifyInstance i fun _ => rfl
  dsimp only
  split <;> split
  · exact (hattached.trans (bypasses_setAccels _ i _ _)).trans (hexpose _ _)
  · exact hattached.trans (hexpose _ _)
  · exact hattached.trans (bypasses_setAccels _ i _ _)
  · exact hattached

/-! ### Instances -/

theorem bypasses_initializeLevels (i : InstanceId) (c : Class β) :
    Bypasses w (w.initializeLevels i c) := by
  refine Bypasses.foldl (fun w level => ?_) _ w
  have hseed : Bypasses w
      (w.modifyInstance i fun x => level.properties.values.foldl seedBacking x) :=
    w.bypasses_modifyInstance i (Instance.constructing_foldl Instance.constructing_seedBacking _)
  exact hseed.trans (Bypasses.foldl (fun w declared => bypasses_createAction w i c.kind declared) _ _)

theorem bypasses_presetFields (i : InstanceId) (fields : List (String × Value)) :
    Bypasses w (w.presetFields i fields) := by
  refine w.bypasses_modifyInstance i fun x =>
    Instance.constructing_foldl (fun y field => ?_) fields x
  rfl

theorem sidesteps_scheduleHooks (i : InstanceId) (x : Instance β) :
    Sidesteps w (w.scheduleHooks i x) := by
  refine scheduleHooks_induction w i x (.refl w) fun v typeName hook hv => hv.trans ?_
  refine scheduleReady_induction v i typeName hook (.refl v) fun y z _ _ => ?_
  exact (sidesteps_setContext v _ _).trans
    (sidesteps_modifyInstance _ i (fun _ => rfl) fun _ => rfl)

theorem sidesteps_setBurst (i : InstanceId) (name : String) (burst : Burst) :
    Sidesteps w (w.modifyInstance i (·.setBurst name burst)) :=
  w.sidesteps_modifyInstance i (fun _ => rfl) fun _ => rfl

theorem sidesteps_restartBurst (i : InstanceId) (method : String) (debounce : Debounce)
    (callback : β) : Sidesteps w (w.restartBurst i method debounce callback) := by
  refine restartBurst_induction w i method debounce callback (.refl w) fun x y _ _ => ?_
  refine Sidesteps.trans ?_ (sidesteps_setBurst _ i method _)
  exact .of_eq rfl rfl rfl rfl

theorem sidesteps_dispose (i : InstanceId) : Sidesteps w (w.dispose i) := by
  refine dispose_induction w i (.refl w) fun x _ _ => ?_
  exact (sidesteps_modifyContext w _ _).trans
    (sidesteps_modifyInstance _ i (fun _ => rfl) fun _ => rfl)

end

/-! ### Operations -/

section
variable (w : World β)

theorem sidesteps_registered (result : Except RegistrationError (Registry × TypeHandle)) :
    Sidesteps w (w.registered result).world := by
  unfold registered
  split <;> exact .of_eq rfl rfl rfl rfl

theorem sidesteps_finalize (builder : ClassBuilder β) :
    Sidesteps w (w.finalize builder).world := by
  unfold finalize
  split <;> exact .of_eq rfl rfl rfl rfl

theorem sidesteps_readProperty (i : InstanceId) (name : String) :
    Sidesteps w (w.readProperty i name).world := by
  unfold readProperty
  split
  · exact .of_eq rfl rfl rfl rfl
  · split <;> exact .of_eq rfl rfl rfl rfl

theorem sidesteps_storeValue (i : InstanceId) (x : Instance β) (spec : PropertySpec)
    (notify : Option NotifyPolicy) (equality : Option ObjectEquality) (effect : Option β)
    (value : Value) : Sidesteps w (w.storeValue i x spec notify equality effect value).world := by
  have hstore := w.sidesteps_modifyInstance i (f := (·.store spec.name value)) (fun _ => rfl)
    fun _ => rfl
  exact storeValue_cases (P := fun p => Sidesteps w p.world) w i x spec notify equality effect value
    hstore hstore

theorem sidesteps_writeProperty (i : InstanceId) (name : String) (value : Value) :
    Sidesteps w (w.writeProperty i name value).world := by
  refine writeProperty_cases (P := fun p => Sidesteps w p.world) w i name value ?_ ?_ ?_ ?_ ?_
  · exact fun _ => .refl w
  · exact fun _ _ _ _ => .refl w
  · exact fun _ _ _ _ => .refl w
  · exact fun _ _ _ _ _ => .refl w
  · exact fun x _ _ _ _ _ _ => sidesteps_storeValue w i x _ _ _ _ value

theorem sidesteps_notify (i : InstanceId) (name : String) :
    Sidesteps w (w.notify i name).world := by
  unfold notify
  split
  · exact .of_eq rfl rfl rfl rfl
  · split <;> exact .of_eq rfl rfl rfl rfl

theorem sidesteps_runEffect (i : InstanceId) (property : String) (effect : Option β) (value : Value) :
    Sidesteps w (w.runEffect i property effect value).world := by
  unfold runEffect
  split <;> exact .of_eq rfl rfl rfl rfl

theorem bypasses_writeField (i : InstanceId) (name : String) (value : Value) :
    Bypasses w (w.writeField i name value).world := by
  unfold writeField
  split
  · exact .of_eq rfl rfl
  · exact w.bypasses_modifyInstance i fun _ => rfl

theorem sidesteps_connect (i : InstanceId) (signal : String) (target : HandlerTarget β) :
    Sidesteps w (w.connect i signal target).world := by
  unfold connect
  split
  · exact .of_eq rfl rfl rfl rfl
  · next x hx =>
      split
      · exact .of_eq rfl rfl rfl rfl
      · next hconnect =>
          exact sidesteps_replaceInstance hx (x.constructing_connect hconnect)
            (x.fittings_connect hconnect)

theorem sidesteps_disconnect (i : InstanceId) (h : HandlerId) :
    Sidesteps w (w.disconnect i h).world := by
  unfold disconnect
  split
  · exact w.sidesteps_modifyInstance i (fun _ => rfl) fun _ => rfl
  · exact .of_eq rfl rfl rfl rfl

theorem sidesteps_awaitEvent (i : InstanceId) (resolve : String) (reject : Option String) :
    Sidesteps w (w.awaitEvent i resolve reject).world := by
  unfold awaitEvent
  split
  · exact .refl w
  · next x hx =>
      dsimp only
      split
      · exact .refl w
      · next hconnect =>
          -- the event is added before the instance gets handlers for it
          have hadd (event : Event) : Sidesteps w (w.addEvent event).1 := .of_eq rfl rfl rfl rfl
          have hconnected := (hadd _).trans
            (sidesteps_replaceInstance (w := (w.addEvent { owner := i, handlers := [] }).1) hx
              (x.constructing_connectEvent hconnect) (x.fittings_connectEvent hconnect))
          exact hconnected.trans (.of_eq rfl rfl rfl rfl)

theorem sidesteps_emit (i : InstanceId) (detailed : String) (args : List Value) :
    Sidesteps w (w.emit i detailed args).world := by
  unfold emit
  split
  · exact .of_eq rfl rfl rfl rfl
  · dsimp only
    split
    · exact .of_eq rfl rfl rfl rfl
    · split <;> exact .of_eq rfl rfl rfl rfl

theorem sidesteps_nextEmission (e : Emission β) : Sidesteps w (e.next w).world := by
  unfold Emission.next
  split
  · exact .of_eq rfl rfl rfl rfl
  · dsimp only
    split
    · split
      · exact .of_eq rfl rfl rfl rfl
      · exact .of_eq rfl rfl rfl rfl
      · exact sidesteps_settle w _ _
      · exact sidesteps_settle w _ _
    · exact .of_eq rfl rfl rfl rfl

theorem sidesteps_resumeEmission (e : Emission β) (reply : Reply β) :
    Sidesteps w (e.resume w reply).world := by
  unfold Emission.resume
  split
  · extract_lets answer
    generalize e.accumulator.accumulate e.result answer = taken
    obtain ⟨result, ended⟩ := taken
    cases ended with
    | true => exact .refl w
    | false => exact sidesteps_nextEmission w _
  · exact sidesteps_nextEmission w _

theorem sidesteps_call (i : InstanceId) (name : String) (args : List Value) :
    Sidesteps w (w.call i name args).world := by
  unfold call
  split
  · exact .refl w
  · split
    · exact .refl w
    · split
      · exact .refl w
      · exact .refl w
      · dsimp only
        have hburst := w.sidesteps_setBurst i name
        split
        · exact hburst _
        · exact (hburst _).trans (sidesteps_restartBurst _ i name _ _)

/-! ### Actions -/

theorem bypasses_setActionState (a : ActionId) (state : Value) :
    Bypasses w (w.setActionState a state).world := by
  unfold setActionState
  split
  · exact .of_eq rfl rfl
  · split <;> exact .of_eq rfl rfl

theorem bypasses_addToGroup (g : GroupId) (a : ActionId) :
    Bypasses w (w.addToGroup g a).world := by
  unfold addToGroup
  split <;> exact .of_eq rfl rfl

theorem sidesteps_activateFound (name : String) (found : Option ActionId) (parameter : Option Value) :
    Sidesteps w (w.activateFound name found parameter).world := by
  unfold activateFound activateAction
  split
  · split
    · exact .of_eq rfl rfl rfl rfl
    · split
      · exact .of_eq rfl rfl rfl rfl
      · split <;> exact .of_eq rfl rfl rfl rfl
  · exact .of_eq rfl rfl rfl rfl

theorem sidesteps_nextActivation (a : Activation β) : Sidesteps w (a.next w).world := by
  unfold Activation.next
  split
  · exact .of_eq rfl rfl rfl rfl
  · dsimp only
    split
    · exact .of_eq rfl rfl rfl rfl
    · split <;> exact .of_eq rfl rfl rfl rfl

/-! ### Contexts -/

theorem sidesteps_addSource (c : ContextId) (attach : MainContext β → MainContext β × SourceId) :
    Sidesteps w (w.addSource c attach).world := by
  unfold addSource
  split <;> exact .of_eq rfl rfl rfl rfl

theorem sidesteps_removeSource (c : ContextId) (id : SourceId) :
    Sidesteps w (w.removeSource c id).world := by
  unfold removeSource
  split
  · exact .of_eq rfl rfl rfl rfl
  · split <;> exact .of_eq rfl rfl rfl rfl

theorem sidesteps_iterate (c : ContextId) : Sidesteps w (w.iterate c).world := by
  unfold iterate
  split
  · exact .of_eq rfl rfl rfl rfl
  · split <;> exact .of_eq rfl rfl rfl rfl

theorem sidesteps_collect (c : ContextId) (polled : Bool) :
    Sidesteps w (w.collect c polled).world := by
  unfold collect
  split <;> exact .of_eq rfl rfl rfl rfl

theorem sidesteps_startWork (c : ContextId) (id : SourceId) (work : SourceWork β)
    (frames : List (Frame β)) : Sidesteps w (w.startWork c id work frames).world := by
  refine startWork_induction w c id work frames (.refl w) ?_ ?_
  · exact fun i typeName hook _ => w.sidesteps_modifyInstance i (fun _ => rfl) fun _ => rfl
  · exact fun i name trigger callback burst _ => w.sidesteps_setBurst i name _

theorem sidesteps_continueIteration (c : ContextId) (ready : List SourceId) (worked : Bool) :
    Sidesteps w (w.continueIteration c ready worked).world := by
  unfold continueIteration
  split
  · exact .refl w
  · dsimp only
    split
    · exact .refl w
    · exact (sidesteps_setContext w c _).trans (sidesteps_startWork _ _ _ _ _)

theorem sidesteps_spawnReady (c : ContextId) (owner : ReadyOwner) (reply : Reply β) :
    Sidesteps w (w.spawnReady c owner reply).world := by
  unfold spawnReady
  split <;> exact .of_eq rfl rfl rfl rfl

theorem sidesteps_finish (p : Pass) : Sidesteps w (p.finish w).world := by
  unfold Pass.finish
  split <;> exact .of_eq rfl rfl rfl rfl

theorem sidesteps_pollNext (p : Pass) : Sidesteps w (p.pollNext w).world := by
  unfold Pass.pollNext
  split
  · exact .refl w
  · next x hx =>
      generalize x.passTasks.dequeue = dequeued
      obtain ⟨task?, set⟩ := dequeued
      dsimp only
      have hset := w.sidesteps_setContext p.context (x.modifyPass fun _ => set)
      split
      · exact hset.trans (sidesteps_finish _ p)
      · split
        · exact hset.trans (sidesteps_modifyContext _ _ _)
        · next event _ =>
            have htake := hset.trans (sidesteps_takeOutcome _ event)
            split
            · next v outcome htaken =>
                rw [htaken] at htake
                exact htake.trans (sidesteps_modifyContext v _ _)
            · next v htaken =>
                rw [htaken] at htake
                exact htake

theorem sidesteps_resumePass (p : Pass) (reply : Reply β) : Sidesteps w (p.resume w reply).world := by
  have hround (v : World β) : Sidesteps v (p.beginRound v).world :=
    (sidesteps_modifyContext v _ _).trans (sidesteps_pollNext _ _)
  unfold Pass.resume
  split
  · unfold Pass.taskFinished
    split
    · exact hround w
    · exact sidesteps_modifyContext w _ _
  · unfold Pass.taskWaits
    extract_lets v q
    have hv : Sidesteps w v := by
      unfold v
      split
      · exact .refl w
      · exact sidesteps_modifyContext w _ _
    split
    · exact (hv.trans (sidesteps_modifyContext v _ _)).trans (sidesteps_finish _ q)
    · exact hv.trans (sidesteps_pollNext v q)
  · exact hround w

theorem sidesteps_drain (c : ContextId) (count : Nat) : Sidesteps w (w.drain c count).world := by
  unfold drain
  split
  · exact .of_eq rfl rfl rfl rfl
  · split <;> exact .of_eq rfl rfl rfl rfl

theorem sidesteps_continueDrain (c : ContextId) (count : Nat) (reply : Reply β) :
    Sidesteps w (w.continueDrain c count reply).world := by
  unfold continueDrain
  split
  · exact sidesteps_drain w c _
  · exact .of_eq rfl rfl rfl rfl
  · exact sidesteps_drain w c _

theorem sidesteps_advance (c : ContextId) (duration : Nat) :
    Sidesteps w (w.advance c duration).world := by
  unfold advance
  split
  · exact .of_eq rfl rfl rfl rfl
  · dsimp only
    split <;> exact .of_eq rfl rfl rfl rfl

theorem sidesteps_stepClock (c : ContextId) (target count : Nat) :
    Sidesteps w (w.stepClock c target count).world := by
  unfold stepClock
  split
  · exact .of_eq rfl rfl rfl rfl
  · split
    · exact .of_eq rfl rfl rfl rfl
    · split <;> exact .of_eq rfl rfl rfl rfl

theorem sidesteps_continueAdvance (c : ContextId) (target count : Nat) (stage : AdvanceStage)
    (reply : Reply β) : Sidesteps w (w.continueAdvance c target count stage reply).world := by
  unfold continueAdvance
  extract_lets ran
  clear_value ran
  cases stage with
  | before => exact sidesteps_stepClock w c _ _
  | within =>
      dsimp only
      split
      · exact .of_eq rfl rfl rfl rfl
      · exact sidesteps_stepClock w c _ _
  | after => exact .refl w

theorem sidesteps_continueInitializing (i : InstanceId) (hooks : List (String × β)) :
    Sidesteps w (w.continueInitializing i hooks).world := by
  unfold continueInitializing
  split
  · exact .refl w
  · split
    · exact .refl w
    · exact sidesteps_scheduleHooks w i _

end

end World

/-! ## All commands and frames that bypass gates and loops -/

/-- Whether a command has nothing to do with gates and loops. -/
def Command.bypasses : Command β → Bool
  | .construct _ | .newLoop _ | .runLoop _ | .quitLoop _ => false
  | _ => true

/-- Whether an operation in progress has nothing to do with them. -/
def Frame.bypasses : Frame β → Bool
  | .constructing .. | .loop _ | .looped _ => false
  | _ => true

namespace World

theorem sidesteps_perform (w : World β) {command : Command β} (hbypasses : command.bypasses = true)
    (hrefits : command.refits = false) : Sidesteps w (w.perform command).world := by
  cases command with
  | registerEnum name members => exact sidesteps_registered w _
  | registerInterface name => exact sidesteps_registered w _
  | registerClass registration => exact sidesteps_registered w _
  | finalize builder => exact sidesteps_finalize w builder
  | property i name => exact sidesteps_readProperty w i name
  | setProperty i name value => exact sidesteps_writeProperty w i name value
  | notify i name => exact sidesteps_notify w i name
  | dispose i => exact sidesteps_dispose w i
  | connect i signal callback => exact sidesteps_connect w i signal _
  | connectNotify i property callback => exact sidesteps_connect w i _ _
  | disconnect i handler => exact sidesteps_disconnect w i handler
  | emit i signal args => exact sidesteps_emit w i signal args
  | call i method args => exact sidesteps_call w i method args
  | activateAction a parameter => exact sidesteps_activateFound w "" (some a) parameter
  | activate i name parameter =>
      unfold perform activate
      dsimp only
      split
      · exact .refl w
      · exact sidesteps_activateFound w name _ parameter
  | activateInGroup g name parameter => exact sidesteps_activateFound w name _ parameter
  | addIdle c priority once callback => exact sidesteps_addSource w c _
  | addTimeout c priority interval once callback => exact sidesteps_addSource w c _
  | removeSource c source => exact sidesteps_removeSource w c source
  | iterate c => exact sidesteps_iterate w c
  | runUntilIdle c => exact sidesteps_drain w c 0
  | advance c duration => exact sidesteps_advance w c duration
  | awaitEvent i resolve reject => exact sidesteps_awaitEvent w i resolve reject
  | pollEvent e => exact sidesteps_takeOutcome w e
  | newContext | spawn => exact .of_eq rfl rfl rfl rfl
  | newLoop | runLoop | quitLoop => cases hbypasses
  | construct | setField | newAction | enableAction | setActionState | connectAction | attachAction
  | setAccels | newGroup | ownGroup | insertGroup | addToGroup | removeFromGroup => cases hrefits

theorem bypasses_perform (w : World β) {command : Command β} (h : command.bypasses = true) :
    Bypasses w (w.perform command).world := by
  cases hrefits : command.refits with
  | false => exact (w.sidesteps_perform h hrefits).toBypasses
  | true =>
      cases command with
      | setField i name value => exact bypasses_writeField w i name value
      | setActionState a state => exact bypasses_setActionState w a state
      | attachAction i a => exact bypasses_attachAction w i a
      | setAccels i name accels => exact bypasses_setAccels w i name accels
      | ownGroup i =>
          unfold perform
          dsimp only
          split
          · exact .refl w
          · exact bypasses_ownGroup w i _
      | insertGroup i qualifier g => exact bypasses_insertGroup w i qualifier g
      | addToGroup g a => exact bypasses_addToGroup w g a
      | newAction | enableAction | connectAction | newGroup | removeFromGroup =>
          exact .of_eq rfl rfl
      | construct => cases h
      | _ => cases hrefits

theorem keepsFittings_perform (w : World β) {command : Command β} (h : command.refits = false) :
    KeepsFittings w (w.perform command).world := by
  cases hbypasses : command.bypasses with
  | true => exact (w.sidesteps_perform hbypasses h).toKeepsFittings
  | false =>
      cases command with
      | newLoop | runLoop | quitLoop => exact .of_eq rfl rfl rfl
      | construct => cases h
      | _ => cases hbypasses

theorem sidesteps_resume (w : World β) {frame : Frame β} (h : frame.bypasses = true)
    (reply : Reply β) : Sidesteps w (frame.resume w reply).world := by
  cases frame with
  | runEffect i property effect value => exact sidesteps_runEffect w i property effect value
  | emission e => exact sidesteps_resumeEmission w e reply
  | startInterval i method debounce callback =>
      exact sidesteps_restartBurst w i method debounce callback
  | activation a => exact sidesteps_nextActivation w a
  | initializing i hooks => exact sidesteps_continueInitializing w i hooks
  | readySpawn c owner => exact sidesteps_spawnReady w c owner reply
  | iteration c ready worked => exact sidesteps_continueIteration w c ready worked
  | collect c polled => exact sidesteps_collect w c polled
  | pass p => exact sidesteps_resumePass w p reply
  | finishPass p => exact sidesteps_finish w p
  | drain c count => exact sidesteps_continueDrain w c count reply
  | advance c target count stage => exact sidesteps_continueAdvance w c target count stage reply
  | reportChange | finishWrite | orDefault | result | letGo | readyEnd | sourceEnd =>
      exact .of_eq rfl rfl rfl rfl
  | constructing | loop | looped => cases h

theorem keepsFittings_continueConstructing (w : World β) (i : InstanceId)
    (properties : List (String × Value)) (reply : Reply β) :
    KeepsFittings w (w.continueConstructing i properties reply).world := by
  unfold continueConstructing
  split
  · exact .refl w
  · split
    · exact .refl w
    · split
      · exact .refl w
      · exact w.keepsFittings_modifyInstance i fun _ => rfl

theorem keepsFittings_checkLoop (w : World β) (l : LoopId) :
    KeepsFittings w (w.checkLoop l).world := by
  unfold checkLoop
  split
  · exact .refl w
  · split <;> exact .of_eq rfl rfl rfl

theorem keepsFittings_continueLoop (w : World β) (l : LoopId) (reply : Reply β) :
    KeepsFittings w (w.continueLoop l reply).world := by
  unfold continueLoop
  split
  · exact keepsFittings_checkLoop w l
  · split
    · exact .refl w
    · split
      · exact .refl w
      · split
        · exact .refl w
        · split
          · exact keepsFittings_checkLoop w l
          · exact .of_eq rfl rfl rfl

/-- Nothing that is in progress has to do with fittings. -/
theorem keepsFittings_resume (w : World β) (frame : Frame β) (reply : Reply β) :
    KeepsFittings w (frame.resume w reply).world := by
  cases hbypasses : frame.bypasses with
  | true => exact (w.sidesteps_resume hbypasses reply).toKeepsFittings
  | false =>
      cases frame with
      | constructing i properties => exact keepsFittings_continueConstructing w i properties reply
      | loop l => exact keepsFittings_checkLoop w l
      | looped l => exact keepsFittings_continueLoop w l reply
      | _ => cases hbypasses

end World

end ObjectSystem
