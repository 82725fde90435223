import ObjectSystem.Proofs.Deferral
import ObjectSystem.Proofs.Quiet
import ObjectSystem.Proofs.Taskless

/-!
# Tasks keep their owners

A task that a ready hook has yielded belongs to the level of the class that declares the hook, and
says so as long as it is held. Tasks move between the set of a context, the sets of passes and the
list of those that no pass has taken in; they are marked as started or waiting, and go when they are
finished. None of this changes the owner of a task, and no task gets an identity that was given
before. `World.Owned` says whom the task of an identity belongs to, and `World.Entrusts` that a
change of the world leaves that alone.
-/

namespace ObjectSystem

variable {β : Type}

/-! ## Tasks of a set -/

/-- The task is one of some others, up to what it has done and waits for. -/
def Task.Among (task : Task β) (tasks : List (Task β)) : Prop :=
  ∃ other ∈ tasks, task.id = other.id ∧ task.owner = other.owner

theorem Task.among_of_mem {task : Task β} {tasks : List (Task β)} (h : task ∈ tasks) :
    task.Among tasks :=
  ⟨task, h, rfl, rfl⟩

namespace TaskSet

/-- The tasks of a set are among those of another one. -/
def Within (set other : TaskSet β) : Prop :=
  ∀ task ∈ set.tasks, task.Among other.tasks

variable (set : TaskSet β) (id : TaskId)

theorem within_of_sublist {set other : TaskSet β} (h : set.tasks.Sublist other.tasks) :
    set.Within other :=
  fun _ htask => Task.among_of_mem (h.subset htask)

theorem within_modify {f : Task β → Task β}
    (hf : ∀ task, (f task).id = task.id ∧ (f task).owner = task.owner) :
    (set.modify id f).Within set := by
  intro task htask
  obtain ⟨other, hother, rfl⟩ := List.mem_map.mp htask
  split
  · exact ⟨other, hother, hf other⟩
  · exact Task.among_of_mem hother

theorem within_listen : set.listen.Within set :=
  within_of_sublist (.refl _)

theorem within_remove : (set.remove id).Within set :=
  within_of_sublist List.filter_sublist

theorem within_reenter : (set.reenter id).Within set := by
  intro task htask
  rcases List.mem_append.mp htask with hmem | hmem <;>
    exact Task.among_of_mem (List.mem_filter.mp hmem).1

theorem within_wake : (set.wake id).1.Within set := by
  unfold wake
  split <;> exact within_of_sublist (.refl _)

end TaskSet

/-! ## Tasks of a context -/

namespace MainContext

/-- The identity has been given, and any task that has it belongs to the owner, or to none. -/
def Owned (x : MainContext β) (id : TaskId) (owner? : Option ReadyOwner) : Prop :=
  id.number < x.nextTask ∧ ∀ task ∈ x.heldTasks, task.id = id → task.owner = owner?

/-- A change of a context that leaves the owners of its tasks alone. -/
def Entrusts (x y : MainContext β) : Prop :=
  ∀ id owner?, x.Owned id owner? → y.Owned id owner?

section
variable {x y z : MainContext β}

theorem Entrusts.refl (x : MainContext β) : Entrusts x x :=
  fun _ _ h => h

theorem Entrusts.trans (h : Entrusts x y) (g : Entrusts y z) : Entrusts x z :=
  fun id owner? hx => g id owner? (h id owner? hx)

theorem mem_heldTasks {task : Task β} : task ∈ x.heldTasks ↔
    task ∈ x.tasks.tasks ∨ (∃ set ∈ x.passes, task ∈ set.tasks) ∨ task ∈ x.spawned := by
  simp [heldTasks]

/-- A change after which all tasks are among those that were held. -/
theorem entrusts_of_among (hnext : y.nextTask = x.nextTask)
    (h : ∀ task ∈ y.heldTasks, task.Among x.heldTasks) : Entrusts x y := by
  rintro id owner? ⟨hlt, howner⟩
  refine ⟨hnext ▸ hlt, fun task htask hid => ?_⟩
  obtain ⟨other, hother, hsame, hsameOwner⟩ := h task htask
  exact hsameOwner.trans (howner other hother (hsame.symm.trans hid))

theorem entrusts_of_eq (hnext : y.nextTask = x.nextTask) (h : y.heldTasks = x.heldTasks) :
    Entrusts x y :=
  entrusts_of_among hnext fun _ htask => Task.among_of_mem (h ▸ htask)

/-- The sets of a context are replaced, each by one without other tasks. -/
theorem entrusts_of_sets (hnext : y.nextTask = x.nextTask) (hspawned : y.spawned = x.spawned)
    (htasks : y.tasks.Within x.tasks)
    (hpasses : ∀ set ∈ y.passes, ∃ other ∈ x.passes, set.Within other) : Entrusts x y := by
  refine entrusts_of_among hnext fun task htask => ?_
  rcases mem_heldTasks.mp htask with hmem | ⟨set, hset, hmem⟩ | hmem
  · obtain ⟨other, hother, hsame⟩ := htasks task hmem
    exact ⟨other, mem_heldTasks.mpr (.inl hother), hsame⟩
  · obtain ⟨set', hset', hwithin⟩ := hpasses set hset
    obtain ⟨other, hother, hsame⟩ := hwithin task hmem
    exact ⟨other, mem_heldTasks.mpr (.inr (.inl ⟨set', hset', hother⟩)), hsame⟩
  · exact Task.among_of_mem (mem_heldTasks.mpr (.inr (.inr (hspawned ▸ hmem))))

end

section
variable (x : MainContext β)

theorem entrusts_attach (kind : SourceKind) (priority : Priority) (readyAt : Nat)
    (work : SourceWork β) : Entrusts x (x.attach kind priority readyAt work).1 :=
  entrusts_of_eq rfl rfl

theorem entrusts_foldl_detach (ids : List SourceId) : Entrusts x (ids.foldl detach x) := by
  induction ids generalizing x with
  | nil => exact .refl x
  | cons id ids ih => exact Entrusts.trans (entrusts_of_eq rfl rfl) (ih (x.detach id))

theorem entrusts_beginRun {id : SourceId} {y : MainContext β} {work : SourceWork β}
    (h : x.beginRun id = some (y, work)) : Entrusts x y := by
  unfold beginRun at h
  split at h
  · cases h
  · split at h
    · cases h
    · cases h
      exact entrusts_of_eq rfl rfl

theorem entrusts_endRun (id : SourceId) (stays : Bool) : Entrusts x (x.endRun id stays) := by
  unfold endRun
  split <;> exact entrusts_of_eq rfl rfl

/-- The innermost pass changes its set to one without other tasks. -/
theorem entrusts_modifyPass {f : TaskSet β → TaskSet β} (hf : (f x.passTasks).Within x.passTasks) :
    Entrusts x (x.modifyPass f) := by
  unfold passTasks at hf
  unfold modifyPass
  split
  · exact .refl x
  · next set rest hsets =>
    rw [hsets] at hf
    refine entrusts_of_sets rfl rfl (TaskSet.within_of_sublist (.refl _)) fun other hother => ?_
    rw [hsets]
    rcases List.mem_cons.mp hother with rfl | hother
    · exact ⟨set, List.mem_cons_self, hf⟩
    · exact ⟨other, List.mem_cons_of_mem _ hother, TaskSet.within_of_sublist (.refl _)⟩

/-- A pass takes the next task out of its queue. -/
theorem entrusts_dequeue : Entrusts x (x.modifyPass fun _ => x.passTasks.dequeue.2) :=
  x.entrusts_modifyPass (TaskSet.within_of_sublist (.refl _))

theorem entrusts_beginPass {y : MainContext β} (h : x.beginPass = some y) : Entrusts x y := by
  unfold beginPass at h
  split at h
  · cases h
    refine entrusts_of_among rfl fun task htask => Task.among_of_mem (mem_heldTasks.mpr ?_)
    rcases mem_heldTasks.mp htask with hmem | ⟨set, hset, hmem⟩ | hmem
    · cases hmem
    · rcases List.mem_cons.mp hset with rfl | hset
      · rcases List.mem_append.mp hmem with hmem | hmem
        · exact .inl hmem
        · exact .inr (.inr hmem)
      · exact .inr (.inl ⟨set, hset, hmem⟩)
    · cases hmem
  · cases h

theorem entrusts_dropTask (id : TaskId) : Entrusts x (x.dropTask id) :=
  entrusts_of_sets rfl rfl (TaskSet.within_of_sublist List.filter_sublist)
    fun set hset => ⟨set, hset, TaskSet.within_of_sublist (.refl _)⟩

theorem entrusts_endPass (finished : Nat) : Entrusts x (x.endPass finished) := by
  refine entrusts_of_among rfl fun task htask => Task.among_of_mem (mem_heldTasks.mpr ?_)
  rcases mem_heldTasks.mp htask with hmem | ⟨set, hset, hmem⟩ | hmem
  · have hmem : task ∈ x.passTasks.tasks := hmem
    unfold passTasks at hmem
    cases hsets : x.passes with
    | nil =>
      rw [hsets] at hmem
      cases hmem
    | cons set rest =>
      rw [hsets] at hmem
      exact .inr (.inl ⟨set, List.mem_cons_self, hmem⟩)
  · exact .inr (.inl ⟨set, List.mem_of_mem_drop hset, hmem⟩)
  · exact .inr (.inr hmem)

/-- A task that is spawned gets an identity that no other one has had. -/
theorem entrusts_spawn (callback : β) (owner? : Option ReadyOwner) :
    Entrusts x (x.spawn callback owner?) := by
  rintro id owner?' ⟨hlt, howner⟩
  refine ⟨Nat.lt_succ_of_lt hlt, fun task htask hid => ?_⟩
  rcases mem_heldTasks.mp htask with hmem | hmem | hmem
  · exact howner task (mem_heldTasks.mpr (.inl hmem)) hid
  · exact howner task (mem_heldTasks.mpr (.inr (.inl hmem))) hid
  · rcases List.mem_append.mp hmem with hmem | hnew
    · exact howner task (mem_heldTasks.mpr (.inr (.inr hmem))) hid
    · rw [List.mem_singleton.mp hnew] at hid
      exact absurd hlt (hid ▸ Nat.lt_irrefl _)

theorem within_wakeIn (id : TaskId) (sets : List (TaskSet β)) :
    ∀ set ∈ (wakeIn id sets).1, ∃ other ∈ sets, set.Within other := by
  induction sets with
  | nil => exact fun _ hset => (by cases hset)
  | cons first rest ih =>
    intro set hset
    unfold wakeIn at hset
    split at hset
    · rcases List.mem_cons.mp hset with rfl | hset
      · exact ⟨first, List.mem_cons_self, first.within_wake id⟩
      · exact ⟨set, List.mem_cons_of_mem _ hset, TaskSet.within_of_sublist (.refl _)⟩
    · rcases List.mem_cons.mp hset with rfl | hset
      · exact ⟨set, List.mem_cons_self, TaskSet.within_of_sublist (.refl _)⟩
      · obtain ⟨other, hother, hwithin⟩ := ih set hset
        exact ⟨other, List.mem_cons_of_mem _ hother, hwithin⟩

theorem entrusts_wake (id : TaskId) : Entrusts x (x.wake id) := by
  unfold wake
  split
  · exact entrusts_of_sets rfl rfl (x.tasks.within_wake id)
      fun set hset => ⟨set, hset, TaskSet.within_of_sublist (.refl _)⟩
  · exact entrusts_of_sets rfl rfl (TaskSet.within_of_sublist (.refl _)) (within_wakeIn id x.passes)

end

end MainContext

/-! ## Tasks in the world -/

namespace World

/-- The identity has been given in a context, and any task that has it belongs to the owner, or to
none. -/
def Owned (w : World β) (c : ContextId) (id : TaskId) (owner? : Option ReadyOwner) : Prop :=
  ∃ x, w.context? c = some x ∧ x.Owned id owner?

/-- A change of the world that leaves the owners of tasks alone. Contexts stay. -/
def Entrusts (w v : World β) : Prop :=
  ∀ c x, w.context? c = some x → ∃ y, v.context? c = some y ∧ x.Entrusts y

section
variable {u v w : World β}

theorem Entrusts.refl (w : World β) : Entrusts w w :=
  fun _ x hx => ⟨x, hx, .refl x⟩

theorem Entrusts.trans (h : Entrusts u v) (g : Entrusts v w) : Entrusts u w := by
  intro c x hx
  obtain ⟨y, hy, hxy⟩ := h c x hx
  obtain ⟨z, hz, hyz⟩ := g c y hy
  exact ⟨z, hz, hxy.trans hyz⟩

theorem Entrusts.owned (h : Entrusts w v) {c : ContextId} {id : TaskId}
    {owner? : Option ReadyOwner} (hw : w.Owned c id owner?) : v.Owned c id owner? := by
  obtain ⟨x, hx, howned⟩ := hw
  obtain ⟨y, hy, hxy⟩ := h c x hx
  exact ⟨y, hy, hxy id owner? howned⟩

theorem Entrusts.foldl {α : Type} {f : World β → α → World β} (hf : ∀ w a, Entrusts w (f w a)) :
    ∀ (as : List α) (w : World β), Entrusts w (as.foldl f w)
  | [], w => .refl w
  | a :: as, w => (hf w a).trans (foldl hf as (f w a))

/-- A change that touches no context. -/
theorem Entrusts.of_eq (h : v.contexts = w.contexts) : Entrusts w v := by
  intro c x hx
  refine ⟨x, ?_, .refl x⟩
  unfold context? at hx ⊢
  rw [h]
  exact hx

end

section
variable (w : World β)

theorem entrusts_modifyInstance (i : InstanceId) (f : Instance β → Instance β) :
    Entrusts w (w.modifyInstance i f) :=
  .of_eq rfl

theorem entrusts_modifyContext (c : ContextId) {f : MainContext β → MainContext β}
    (hf : ∀ x : MainContext β, x.Entrusts (f x)) : Entrusts w (w.modifyContext c f) := by
  intro d x hx
  rw [context?_modifyContext]
  split
  · exact ⟨f x, by rw [hx]; rfl, hf x⟩
  · exact ⟨x, hx, .refl x⟩

theorem entrusts_setContext {c : ContextId} {x y : MainContext β} (hx : w.context? c = some x)
    (h : x.Entrusts y) : Entrusts w (w.setContext c y) := by
  intro d z hz
  rw [context?_setContext w hx]
  split
  · next hd =>
    rw [hd] at hz
    obtain rfl := Option.some.inj (hx.symm.trans hz)
    exact ⟨y, rfl, h⟩
  · exact ⟨z, hz, .refl z⟩

theorem entrusts_modifyPass (c : ContextId) {f : TaskSet β → TaskSet β}
    (hf : ∀ set, (f set).Within set) : Entrusts w (w.modifyContext c (·.modifyPass f)) :=
  entrusts_modifyContext w c fun x => x.entrusts_modifyPass (hf _)

theorem entrusts_addContext (config : Config) : Entrusts w (w.addContext config).1 := by
  intro c x hx
  refine ⟨x, ?_, .refl x⟩
  rw [context?_addContext, hx]
  rfl

theorem entrusts_setTime (c : ContextId) (now : Nat) : Entrusts w (w.setTime c now) :=
  entrusts_modifyContext w c fun _ => MainContext.entrusts_of_eq rfl rfl

theorem entrusts_addLoop (c : ContextId) : Entrusts w (w.addLoop c).1 :=
  .of_eq rfl

theorem entrusts_setRunning (l : LoopId) (running : Bool) : Entrusts w (w.setRunning l running) :=
  .of_eq rfl

/-! ### Events -/

theorem entrusts_wake (waiter : Option Waiter) : Entrusts w (w.wake waiter) := by
  unfold wake
  split
  · exact .refl w
  · exact entrusts_modifyContext w _ fun x => x.entrusts_wake _

theorem entrusts_settle (e : EventId) (outcome : EventOutcome) : Entrusts w (w.settle e outcome) := by
  refine settle_induction w e outcome (.refl w) fun event _ _ => ?_
  refine Entrusts.trans ?_ (entrusts_wake _ _)
  exact .of_eq rfl

theorem entrusts_takeOutcome (e : EventId) : Entrusts w (w.takeOutcome e).1 := by
  unfold takeOutcome
  split
  · exact .refl w
  · split
    · exact .refl w
    · exact .of_eq rfl

/-! ### Actions and construction -/

theorem entrusts_addAction (action : Action β) : Entrusts w (w.addAction action).1 :=
  .of_eq rfl

theorem entrusts_modifyAction (a : ActionId) (f : Action β → Action β) :
    Entrusts w (w.modifyAction a f) :=
  .of_eq rfl

theorem entrusts_addGroup : Entrusts w w.addGroup.1 :=
  .of_eq rfl

theorem entrusts_modifyGroup (g : GroupId) (f : ActionGroup → ActionGroup) :
    Entrusts w (w.modifyGroup g f) :=
  .of_eq rfl

theorem entrusts_presetFields (i : InstanceId) (fields : List (String × Value)) :
    Entrusts w (w.presetFields i fields) :=
  .of_eq rfl

theorem entrusts_addInstance (ofClass : Class β) (c : ContextId) :
    Entrusts w (w.addInstance ofClass c).1 :=
  .of_eq rfl

theorem entrusts_ownGroup (i : InstanceId) (x : Instance β) : Entrusts w (w.ownGroup i x).1 := by
  unfold ownGroup
  split
  · exact .refl w
  · exact (entrusts_addGroup w).trans (.of_eq rfl)

theorem entrusts_attachAction (i : InstanceId) (a : ActionId) : Entrusts w (w.attachAction i a) := by
  unfold attachAction
  split
  · split
    · exact .refl w
    · exact (entrusts_ownGroup w i _).trans (entrusts_modifyGroup _ _ _)
    · exact .of_eq rfl
    · exact .of_eq rfl
  · exact .refl w

theorem entrusts_createAction (i : InstanceId) (kind : InstanceKind)
    (declared : ActionDeclaration β) : Entrusts w (w.createAction i kind declared) := by
  unfold createAction
  extract_lets _ action
  have hattached := (entrusts_addAction w action).trans
    (entrusts_attachAction _ i (w.addAction action).2)
  dsimp only
  split <;> split <;> exact hattached.trans (.of_eq rfl)

theorem entrusts_initializeLevels (i : InstanceId) (c : Class β) :
    Entrusts w (w.initializeLevels i c) := by
  refine Entrusts.foldl (fun w level => ?_) _ w
  have hactions (v : World β) : Entrusts v (level.actions.foldl
      (fun v declared => v.createAction i c.kind declared) v) :=
    Entrusts.foldl (fun v declared => entrusts_createAction v i c.kind declared) _ v
  exact (entrusts_modifyInstance w i _).trans (hactions _)

/-! ### Deferred work -/

theorem entrusts_detachSources (c : ContextId) (ids : List SourceId) :
    Entrusts w (w.detachSources c ids) :=
  entrusts_modifyContext w c fun x => x.entrusts_foldl_detach ids

theorem entrusts_dispose (i : InstanceId) : Entrusts w (w.dispose i) := by
  refine dispose_induction w i (.refl w) fun x _ _ => ?_
  exact (entrusts_detachSources w _ _).trans (.of_eq rfl)

theorem entrusts_scheduleHooks (i : InstanceId) (x : Instance β) :
    Entrusts w (w.scheduleHooks i x) := by
  refine scheduleHooks_induction w i x (.refl w) fun v typeName hook hv => hv.trans ?_
  refine scheduleReady_induction v i typeName hook (.refl v) fun z y _ hy => ?_
  exact (entrusts_setContext v hy (y.entrusts_attach _ _ _ _)).trans (.of_eq rfl)

theorem entrusts_restartBurst (i : InstanceId) (method : String) (debounce : Debounce)
    (callback : β) : Entrusts w (w.restartBurst i method debounce callback) := by
  refine restartBurst_induction w i method debounce callback (.refl w) fun x y _ hy => ?_
  have hdetach := entrusts_detachSources w x.context (x.burst method).pending.toList
  exact (hdetach.trans (entrusts_setContext _ hy (y.entrusts_attach _ _ _ _))).trans (.of_eq rfl)

end

end World

end ObjectSystem
