import ObjectSystem.World.Reclaim
import ObjectSystem.World.Actions

/-!
# Views of the world

Most of what happens in a run does not matter to the sources of a context, to its tasks or to the
deferred work of an instance. Three *views* keep what does:

* `Timetable` — the clock and the sources of a context;
* `Roster` — who is where among the tasks of a context, and how many are counted;
* `Duties` — what an instance has to do with deferred work: its class and context, whether it is
  disposed, its bursts and its ready sources.

A change of the world is `Steady` if it leaves every timetable and all duties alone, up to instances
that are dropped, and `Calm` if it leaves every roster alone as well. Dropping an instance is calm
(`calm_dropInstance`), and so are most operations.
-/

namespace ObjectSystem

variable {β : Type}

/-! ## The views -/

/-- The clock and the sources of a context. -/
structure Timetable (β : Type) where
  config : Config
  now : Nat
  sources : List (Source β)
  nextSource : Nat
  queue : TimeoutQueue

/-- The tasks of a context by identity, wherever they are, and how many are counted. -/
structure Roster where
  spawned : List TaskId
  tasks : List TaskId
  passes : List (List TaskId)
  liveTasks : Nat
  nextTask : Nat

/-- What an instance has to do with deferred work. -/
structure Duties (β : Type) where
  ofClass : Class β
  context : ContextId
  disposed : Bool
  bursts : NameTable Burst
  readySources : List SourceId

/-- The identities of the tasks of a set. -/
def TaskSet.ids (set : TaskSet β) : List TaskId :=
  set.tasks.map (·.id)

def MainContext.timetable (x : MainContext β) : Timetable β :=
  ⟨x.config, x.now, x.sources, x.nextSource, x.queue⟩

def MainContext.roster (x : MainContext β) : Roster :=
  ⟨x.spawned.map (·.id), x.tasks.ids, x.passes.map TaskSet.ids, x.liveTasks, x.nextTask⟩

def Instance.duties (x : Instance β) : Duties β :=
  ⟨x.ofClass, x.context, x.disposed, x.bursts, x.readySources⟩

namespace World

def timetable? (w : World β) (c : ContextId) : Option (Timetable β) :=
  (w.context? c).map MainContext.timetable

def roster? (w : World β) (c : ContextId) : Option Roster :=
  (w.context? c).map MainContext.roster

/-- Whether a pass over the tasks of a context would find one to poll. -/
def TasksReady (w : World β) (c : ContextId) : Prop :=
  ∃ x, w.context? c = some x ∧ x.tasksReady = true

def duties? (w : World β) (i : InstanceId) : Option (Duties β) :=
  (w.instance? i).map Instance.duties

theorem timetable?_eq {w : World β} {c : ContextId} {x : MainContext β}
    (hx : w.context? c = some x) : w.timetable? c = some x.timetable := by
  rw [timetable?, hx]
  rfl

theorem timetable?_eq_none {w : World β} {c : ContextId} :
    w.timetable? c = none ↔ w.context? c = none :=
  Option.map_eq_none_iff

theorem exists_context {w : World β} {c : ContextId} (h : w.timetable? c ≠ none) :
    ∃ x, w.context? c = some x :=
  Option.ne_none_iff_exists'.mp fun hnone => h (timetable?_eq_none.mpr hnone)

/-! ## Views after a change of one thing -/

section Update
variable (w : World β)

theorem context?_setContext {c d : ContextId} {x y : MainContext β} (h : w.context? c = some x) :
    (w.setContext c y).context? d = if d = c then some y else w.context? d := by
  show (w.contexts.set c y).find? d = _
  rw [Table.find?_set]
  split
  · next hd =>
      subst hd
      have hfind : w.contexts.find? d = some x := h
      rw [hfind]
      rfl
  · rfl

/-- A new context comes under an identity of its own. -/
theorem context?_addContext (config : Config) (c : ContextId) :
    (w.addContext config).1.context? c =
      (w.context? c).or (if c = (w.addContext config).2 then some { config } else none) :=
  Table.find?_add _ _ _ _

theorem timetable?_addContext (config : Config) (c : ContextId) :
    (w.addContext config).1.timetable? c =
      (w.timetable? c).or
        (if c = (w.addContext config).2 then some ⟨config, 0, [], 0, {}⟩ else none) := by
  unfold timetable?
  rw [context?_addContext, Option.map_or]
  split <;> rfl

/-- A new instance has no deferred work. -/
theorem duties?_addInstance (ofClass : Class β) (c : ContextId) (i : InstanceId) :
    (w.addInstance ofClass c).1.duties? i =
      (w.duties? i).or
        (if i = ⟨w.nextInstance⟩ then some ⟨ofClass, c, false, .empty, []⟩ else none) := by
  have hadd : (w.addInstance ofClass c).1.instance? i =
      (w.instance? i).or (if i = ⟨w.nextInstance⟩ then some { ofClass, context := c } else none) :=
    Table.find?_add _ _ _ _
  unfold duties?
  rw [hadd, Option.map_or]
  split <;> rfl

theorem context?_modifyContext (c d : ContextId) (f : MainContext β → MainContext β) :
    (w.modifyContext c f).context? d =
      if d = c then (w.context? d).map f else w.context? d :=
  Table.find?_modify _ _ _ _

theorem instance?_modifyInstance (i j : InstanceId) (f : Instance β → Instance β) :
    (w.modifyInstance i f).instance? j =
      if j = i then (w.instance? j).map f else w.instance? j :=
  Table.find?_modify _ _ _ _

@[simp] theorem context?_modifyInstance (i : InstanceId) (f : Instance β → Instance β)
    (c : ContextId) : (w.modifyInstance i f).context? c = w.context? c := rfl

@[simp] theorem timetable?_modifyInstance (i : InstanceId) (f : Instance β → Instance β)
    (c : ContextId) : (w.modifyInstance i f).timetable? c = w.timetable? c := rfl

@[simp] theorem roster?_modifyInstance (i : InstanceId) (f : Instance β → Instance β)
    (c : ContextId) : (w.modifyInstance i f).roster? c = w.roster? c := rfl

@[simp] theorem instance?_setContext (c : ContextId) (x : MainContext β) (i : InstanceId) :
    (w.setContext c x).instance? i = w.instance? i := rfl

@[simp] theorem duties?_setContext (c : ContextId) (x : MainContext β) (i : InstanceId) :
    (w.setContext c x).duties? i = w.duties? i := rfl

@[simp] theorem instance?_modifyContext (c : ContextId) (f : MainContext β → MainContext β)
    (i : InstanceId) : (w.modifyContext c f).instance? i = w.instance? i := rfl

@[simp] theorem duties?_modifyContext (c : ContextId) (f : MainContext β → MainContext β)
    (i : InstanceId) : (w.modifyContext c f).duties? i = w.duties? i := rfl

theorem timetable?_setContext {c d : ContextId} {x y : MainContext β}
    (h : w.context? c = some x) :
    (w.setContext c y).timetable? d = if d = c then some y.timetable else w.timetable? d := by
  unfold timetable?
  rw [context?_setContext w h]
  split <;> rfl

theorem roster?_setContext {c d : ContextId} {x y : MainContext β} (h : w.context? c = some x) :
    (w.setContext c y).roster? d = if d = c then some y.roster else w.roster? d := by
  unfold roster?
  rw [context?_setContext w h]
  split <;> rfl

/-- Setting a context that differs from the present one in its tasks only is no change of a
timetable. -/
theorem timetable?_setContext_of_eq {c : ContextId} {x y : MainContext β}
    (h : w.context? c = some x) (hy : y.timetable = x.timetable) (d : ContextId) :
    (w.setContext c y).timetable? d = w.timetable? d := by
  rw [timetable?_setContext w h]
  split
  · next hd => rw [hd, timetable?, h, hy]; rfl
  · rfl

theorem roster?_setContext_of_eq {c : ContextId} {x y : MainContext β}
    (h : w.context? c = some x) (hy : y.roster = x.roster) (d : ContextId) :
    (w.setContext c y).roster? d = w.roster? d := by
  rw [roster?_setContext w h]
  split
  · next hd => rw [hd, roster?, h, hy]; rfl
  · rfl

theorem timetable?_modifyContext (c : ContextId) {f : MainContext β → MainContext β}
    {g : Timetable β → Timetable β} (hf : ∀ x, (f x).timetable = g x.timetable) (d : ContextId) :
    (w.modifyContext c f).timetable? d =
      if d = c then (w.timetable? d).map g else w.timetable? d := by
  unfold timetable?
  rw [context?_modifyContext]
  split
  · cases w.context? d with
    | none => rfl
    | some x => exact congrArg some (hf x)
  · rfl

theorem timetable?_modifyContext_of_eq (c : ContextId) {f : MainContext β → MainContext β}
    (hf : ∀ x, (f x).timetable = x.timetable) (d : ContextId) :
    (w.modifyContext c f).timetable? d = w.timetable? d := by
  rw [timetable?_modifyContext w c (g := id) hf, Option.map_id_apply, ite_self]

theorem roster?_modifyContext_of_eq (c : ContextId) {f : MainContext β → MainContext β}
    (hf : ∀ x, (f x).roster = x.roster) (d : ContextId) :
    (w.modifyContext c f).roster? d = w.roster? d := by
  unfold roster?
  rw [context?_modifyContext]
  split
  · cases w.context? d with
    | none => rfl
    | some x => exact congrArg some (hf x)
  · rfl

theorem duties?_modifyInstance_of_eq (i : InstanceId) {f : Instance β → Instance β}
    (hf : ∀ x, (f x).duties = x.duties) (j : InstanceId) :
    (w.modifyInstance i f).duties? j = w.duties? j := by
  unfold duties?
  rw [instance?_modifyInstance]
  split
  · cases w.instance? j with
    | none => rfl
    | some x => exact congrArg some (hf x)
  · rfl

end Update

/-! ## Steady and calm changes -/

/-- A change that leaves timetables and duties alone; instances may be dropped. -/
structure Steady (w v : World β) : Prop where
  timetable : ∀ c, v.timetable? c = w.timetable? c
  duties : ∀ i, v.duties? i = w.duties? i ∨ v.duties? i = none
  keys : v.contexts.keys = w.contexts.keys
  nextInstance : v.nextInstance = w.nextInstance

/-- A steady change that leaves rosters alone, too; tasks may be woken. -/
structure Calm (w v : World β) : Prop extends Steady w v where
  roster : ∀ c, v.roster? c = w.roster? c
  ready : ∀ c, w.TasksReady c → v.TasksReady c

namespace Steady

theorem refl (w : World β) : Steady w w :=
  ⟨fun _ => rfl, fun _ => .inl rfl, rfl, rfl⟩

theorem trans {u v w : World β} (h : Steady u v) (g : Steady v w) : Steady u w where
  timetable c := (g.timetable c).trans (h.timetable c)
  duties i := by
    rcases g.duties i with hg | hg
    · rw [hg]
      exact h.duties i
    · exact .inr hg
  keys := g.keys.trans h.keys
  nextInstance := g.nextInstance.trans h.nextInstance

/-- An instance that is there after a steady change has the duties that it had before. -/
theorem duties_of_some {w v : World β} (h : Steady w v) {i : InstanceId} {d : Duties β}
    (hd : v.duties? i = some d) : w.duties? i = some d := by
  rcases h.duties i with hi | hi
  · rwa [← hi]
  · rw [hi] at hd
    cases hd

end Steady

namespace Calm

theorem refl (w : World β) : Calm w w :=
  ⟨.refl w, fun _ => rfl, fun _ h => h⟩

theorem trans {u v w : World β} (h : Calm u v) (g : Calm v w) : Calm u w :=
  ⟨h.toSteady.trans g.toSteady, fun c => (g.roster c).trans (h.roster c),
    fun c hc => g.ready c (h.ready c hc)⟩

/-- A chain of calm changes is calm. -/
theorem foldl {α : Type} {f : World β → α → World β} (hf : ∀ w a, Calm w (f w a)) :
    ∀ (as : List α) (w : World β), Calm w (as.foldl f w)
  | [], w => .refl w
  | a :: as, w => (hf w a).trans (foldl hf as (f w a))

/-- A change that touches neither contexts nor instances. -/
theorem of_eq {w v : World β} (hc : v.contexts = w.contexts) (hi : v.instances = w.instances)
    (hn : v.nextInstance = w.nextInstance) : Calm w v where
  timetable c := by unfold timetable? context?; rw [hc]
  duties i := .inl (by unfold duties? instance?; rw [hi])
  keys := by rw [hc]
  nextInstance := hn
  roster c := by unfold roster? context?; rw [hc]
  ready c := by unfold TasksReady context?; rw [hc]; exact id

end Calm

/-! ## Changes that are calm -/

theorem keys_modify {ι α : Type} [DecidableEq ι] (t : Table ι α) (key : ι) (f : α → α) :
    (t.modify key f).keys = t.keys := by
  unfold Table.modify Table.keys
  rw [List.map_map]
  apply List.map_congr_left
  rintro ⟨k, v⟩ _
  dsimp only [Function.comp]
  split <;> rfl

theorem keys_set {ι α : Type} [DecidableEq ι] (t : Table ι α) (key : ι) (v : α) :
    (t.set key v).keys = t.keys :=
  keys_modify t key fun _ => v

theorem calm_modifyInstance (w : World β) (i : InstanceId) {f : Instance β → Instance β}
    (hf : ∀ x, (f x).duties = x.duties) : Calm w (w.modifyInstance i f) where
  timetable _ := rfl
  duties j := .inl (duties?_modifyInstance_of_eq w i hf j)
  keys := rfl
  nextInstance := rfl
  roster _ := rfl
  ready _ h := h

theorem steady_modifyContext (w : World β) (c : ContextId) {f : MainContext β → MainContext β}
    (hf : ∀ x, (f x).timetable = x.timetable) : Steady w (w.modifyContext c f) where
  timetable := timetable?_modifyContext_of_eq w c hf
  duties _ := .inl rfl
  keys := keys_modify _ _ _
  nextInstance := rfl

theorem calm_modifyContext (w : World β) (c : ContextId) {f : MainContext β → MainContext β}
    (hf : ∀ x, (f x).timetable = x.timetable) (hr : ∀ x, (f x).roster = x.roster)
    (ht : ∀ x, x.tasksReady = true → (f x).tasksReady = true) :
    Calm w (w.modifyContext c f) where
  toSteady := steady_modifyContext w c hf
  roster := roster?_modifyContext_of_eq w c hr
  ready d := by
    rintro ⟨x, hx, hready⟩
    have hctx := context?_modifyContext w c d f
    rw [hx] at hctx
    split at hctx
    · exact ⟨f x, hctx, ht x hready⟩
    · exact ⟨x, hctx, hready⟩

theorem steady_setContext (w : World β) {c : ContextId} {x y : MainContext β}
    (h : w.context? c = some x) (hy : y.timetable = x.timetable) :
    Steady w (w.setContext c y) where
  timetable := timetable?_setContext_of_eq w h hy
  duties _ := .inl rfl
  keys := keys_set _ _ _
  nextInstance := rfl

end World

/-! ### Waking tasks -/

namespace TaskSet

@[simp] theorem ids_wake (set : TaskSet β) (id : TaskId) : (set.wake id).1.ids = set.ids := by
  unfold wake
  split <;> rfl

@[simp] theorem ids_modify (set : TaskSet β) (id : TaskId) {f : Task β → Task β}
    (hf : ∀ task, (f task).id = task.id) : (set.modify id f).ids = set.ids := by
  unfold modify ids
  rw [List.map_map]
  apply List.map_congr_left
  intro task _
  dsimp only [Function.comp]
  split
  · exact hf task
  · rfl

end TaskSet

namespace MainContext

theorem map_ids_wakeIn (id : TaskId) (sets : List (TaskSet β)) :
    (wakeIn id sets).1.map TaskSet.ids = sets.map TaskSet.ids := by
  induction sets with
  | nil => rfl
  | cons set rest ih =>
      unfold wakeIn
      split
      · simp
      · simp [ih]

theorem timetable_wake (x : MainContext β) (id : TaskId) :
    (x.wake id).timetable = x.timetable := by
  unfold wake
  split <;> rfl

theorem roster_wake (x : MainContext β) (id : TaskId) : (x.wake id).roster = x.roster := by
  unfold wake
  split
  · simp [roster]
  · simp [roster, map_ids_wakeIn]

theorem tasksReady_wake (x : MainContext β) (id : TaskId) (h : x.tasksReady = true) :
    (x.wake id).tasksReady = true := by
  unfold tasksReady at h ⊢
  unfold wake
  split <;> simp_all <;> grind

end MainContext

namespace World

theorem calm_wake (w : World β) (waiter : Option Waiter) : Calm w (w.wake waiter) := by
  cases waiter with
  | none => exact .refl w
  | some waiter =>
      exact calm_modifyContext w _ (fun x => x.timetable_wake _) (fun x => x.roster_wake _)
        fun x => x.tasksReady_wake _

/-! ### Events -/

theorem duties_disconnectAll (handlers : List HandlerId) (x : Instance β) :
    (handlers.foldl Instance.disconnect x).duties = x.duties := by
  induction handlers generalizing x with
  | nil => rfl
  | cons h rest ih => exact ih _

theorem settle_eq {w : World β} {e : EventId} {event : Event} (hevent : w.events.find? e = some event)
    (hopen : event.isOpen = true) (outcome : EventOutcome) :
    w.settle e outcome =
      wake { w.modifyInstance event.owner (fun x => event.handlers.foldl Instance.disconnect x) with
        events := w.events.set e (event.settle outcome) } event.waiter := by
  unfold settle
  rw [hevent]
  exact if_pos hopen

theorem settle_of_closed {w : World β} {e : EventId}
    (h : ∀ event, w.events.find? e = some event → event.isOpen = false) (outcome : EventOutcome) :
    w.settle e outcome = w := by
  unfold settle
  split
  · rfl
  · next event hevent =>
    rw [if_neg]
    simp [h event hevent]

/-- An event that is open has its handlers disconnected and gets its outcome, and who waits for it is
woken; any other stays as it is. -/
@[elab_as_elim]
theorem settle_induction {P : World β → Prop} (w : World β) (e : EventId) (outcome : EventOutcome)
    (same : P w)
    (settles : ∀ event, w.events.find? e = some event → event.isOpen = true →
      P (wake { w.modifyInstance event.owner (fun x => event.handlers.foldl Instance.disconnect x) with
        events := w.events.set e (event.settle outcome) } event.waiter)) :
    P (w.settle e outcome) := by
  unfold settle
  split
  · exact same
  · next event hevent =>
    split
    · next hopen => exact settles event hevent hopen
    · exact same

theorem calm_settle (w : World β) (e : EventId) (outcome : EventOutcome) :
    Calm w (w.settle e outcome) := by
  refine settle_induction w e outcome (.refl w) fun event _ _ => ?_
  have hdisconnect := calm_modifyInstance w event.owner (duties_disconnectAll event.handlers)
  refine (hdisconnect.trans ?_).trans (calm_wake _ event.waiter)
  exact .of_eq rfl rfl rfl

theorem calm_takeOutcome (w : World β) (e : EventId) : Calm w (w.takeOutcome e).1 := by
  unfold takeOutcome
  split
  · exact .refl w
  · split
    · exact .refl w
    · exact .of_eq rfl rfl rfl

/-! ### Reclaiming -/

theorem calm_dropInstance (w : World β) (i : InstanceId) : Calm w (w.dropInstance i) where
  timetable _ := rfl
  duties j := by
    have hfind : (w.dropInstance i).instance? j = if j = i then none else w.instance? j :=
      Table.find?_erase _ _ _
    unfold duties?
    rw [hfind]
    split
    · exact .inr rfl
    · exact .inl rfl
  keys := rfl
  nextInstance := rfl
  roster _ := rfl
  ready _ h := h

/-! ### Actions and construction -/

theorem calm_insertGroup (w : World β) (i : InstanceId) (qualifier : String) (g : GroupId) :
    Calm w (w.insertGroup i qualifier g) :=
  calm_modifyInstance w i fun _ => rfl

theorem calm_setAccels (w : World β) (i : InstanceId) (name : String) (accels : List String) :
    Calm w (w.setAccels i name accels) :=
  calm_modifyInstance w i fun _ => rfl

theorem calm_ownGroup (w : World β) (i : InstanceId) (x : Instance β) :
    Calm w (w.ownGroup i x).1 := by
  unfold ownGroup
  split
  · exact .refl w
  · have hadd : Calm w w.addGroup.1 := .of_eq rfl rfl rfl
    have hown : Calm w.addGroup.1
        (w.addGroup.1.modifyInstance i fun x => { x with ownGroup := some w.addGroup.2 }) :=
      calm_modifyInstance _ i fun _ => rfl
    exact (hadd.trans hown).trans (calm_insertGroup _ i _ _)

theorem calm_attachAction (w : World β) (i : InstanceId) (a : ActionId) :
    Calm w (w.attachAction i a) := by
  unfold attachAction
  split
  · split
    · exact .refl w
    · exact (calm_ownGroup w i _).trans (.of_eq rfl rfl rfl)
    · exact calm_modifyInstance w i fun _ => rfl
    · exact calm_modifyInstance w i fun _ => rfl
  · exact .refl w

theorem calm_createAction (w : World β) (i : InstanceId) (kind : InstanceKind)
    (declared : ActionDeclaration β) : Calm w (w.createAction i kind declared) := by
  unfold createAction
  extract_lets _ action
  have hadd : Calm w (w.addAction action).1 := .of_eq rfl rfl rfl
  have hattached := hadd.trans (calm_attachAction _ i (w.addAction action).2)
  have hexpose (v : World β) (field : String) :
      Calm v (v.modifyInstance i fun x =>
        { x with exposed := x.exposed.insert field (w.addAction action).2 }) :=
    calm_modifyInstance v i fun _ => rfl
  dsimp only
  split <;> split
  · exact (hattached.trans (calm_setAccels _ i _ _)).trans (hexpose _ _)
  · exact hattached.trans (hexpose _ _)
  · exact hattached.trans (calm_setAccels _ i _ _)
  · exact hattached

theorem duties_setField (x : Instance β) (name : String) (value : Value) :
    (x.setField name value).duties = x.duties := rfl

theorem duties_seedBacking (x : Instance β) (entry : PropertyEntry β) :
    (seedBacking x entry).duties = x.duties := by
  unfold seedBacking
  split
  · unfold Instance.seedField
    split <;> rfl
  · rfl

theorem duties_foldl {α : Type} {f : Instance β → α → Instance β}
    (hf : ∀ x a, (f x a).duties = x.duties) :
    ∀ (as : List α) (x : Instance β), (as.foldl f x).duties = x.duties
  | [], _ => rfl
  | a :: as, x => (duties_foldl hf as (f x a)).trans (hf x a)

theorem calm_initializeLevel (w : World β) (i : InstanceId) (kind : InstanceKind)
    (level : ClassLevel β) : Calm w (w.initializeLevel i kind level) :=
  (calm_modifyInstance w i (duties_foldl duties_seedBacking _)).trans
    (Calm.foldl (fun w declared => calm_createAction w i kind declared) _ _)

end World

end ObjectSystem
