import ObjectSystem.Proofs.Move

/-!
# Contexts without tasks

Reclaiming settles events, and to settle an event wakes the task that waits for it. A context that
holds no task is left as it is (`Machine.context?_step`), so what a step makes of such a context can
be read off its move. A pass that is asked for all the same begins and ends at once
(`World.beginRound_of_taskless`).
-/

namespace ObjectSystem

variable {σ β κ : Type}

/-! ## Contexts without tasks -/

namespace MainContext

variable {x : MainContext β}

theorem heldTasks_eq_nil_iff : x.heldTasks = [] ↔
    x.tasks.tasks = [] ∧ (∀ set ∈ x.passes, set.tasks = []) ∧ x.spawned = [] := by
  simp [heldTasks]

theorem wakeIn_of_taskless {sets : List (TaskSet β)} (h : ∀ set ∈ sets, set.tasks = [])
    (id : TaskId) : wakeIn id sets = (sets, false) := by
  induction sets with
  | nil => rfl
  | cons set rest ih =>
      have hset : set.contains id = false := by
        simp [TaskSet.contains, TaskSet.find?, h set List.mem_cons_self]
      rw [wakeIn, if_neg (by simp [hset]), ih fun set hset => h set (List.mem_cons_of_mem _ hset)]

/-- Where no task is, none is woken. -/
theorem wake_of_taskless (h : x.heldTasks = []) (id : TaskId) : x.wake id = x := by
  obtain ⟨htasks, hpasses, -⟩ := heldTasks_eq_nil_iff.mp h
  have hcontains : x.tasks.contains id = false := by
    simp [TaskSet.contains, TaskSet.find?, htasks]
  rw [wake, if_neg (by simp [hcontains]), wakeIn_of_taskless hpasses]
  dsimp only
  rw [Bool.or_false]

end MainContext

/-! ### Reclaiming leaves them alone -/

namespace World

variable {w : World β} {c : ContextId} {x : MainContext β}

theorem context?_wake (hx : w.context? c = some x) (h : x.heldTasks = [])
    (waiter : Option Waiter) : (w.wake waiter).context? c = some x := by
  cases waiter with
  | none => exact hx
  | some waiter =>
      show (w.modifyContext waiter.context (·.wake waiter.task)).context? c = some x
      rw [context?_modifyContext, hx]
      split
      · rw [Option.map_some, MainContext.wake_of_taskless h]
      · rfl

theorem context?_settle (hx : w.context? c = some x) (h : x.heldTasks = []) (e : EventId)
    (outcome : EventOutcome) : (w.settle e outcome).context? c = some x :=
  settle_induction (P := (·.context? c = some x)) w e outcome hx
    fun event _ _ => context?_wake (by exact hx) h event.waiter

end World

namespace Machine

variable {client : Client σ β κ} {m : Machine σ β κ} {c : ContextId} {x : MainContext β}

/-- What a step makes of a context without tasks, its move does. -/
theorem context?_step (hx : (m.advance client).world.context? c = some x)
    (h : x.heldTasks = []) : (m.step client).world.context? c = some x := by
  refine reclaim_induction client m (m.advance client) (P := (·.context? c = some x)) ?_ ?_ hx
  · exact fun v i hv => hv
  · exact fun v e hv => World.context?_settle hv h e _

end Machine

/-! ## Passes over no tasks -/

/-- From a set without tasks, none is taken. -/
theorem TaskSet.dequeue_of_taskless {set : TaskSet β} (h : set.tasks = []) :
    set.dequeue.1 = none ∧ set.dequeue.2.tasks = [] := by
  have hnone (queue : List TaskId) : (dequeue.go set queue).1 = none := by
    induction queue with
    | nil => rfl
    | cons id rest ih =>
        unfold dequeue.go find?
        rw [h]
        exact ih
  exact ⟨hnone set.queue, h⟩

/-- Changing an innermost set without tasks to another leaves a context without tasks. -/
theorem MainContext.modifyPass_of_taskless {x : MainContext β} (h : x.heldTasks = [])
    {f : TaskSet β → TaskSet β} (hf : ∀ set : TaskSet β, set.tasks = [] → (f set).tasks = []) :
    (x.modifyPass f).timetable = x.timetable ∧ (x.modifyPass f).heldTasks = [] ∧
      (x.modifyPass f).tasksReady = x.tasksReady := by
  obtain ⟨htasks, hpasses, hspawned⟩ := heldTasks_eq_nil_iff.mp h
  unfold modifyPass
  split
  · exact ⟨rfl, h, rfl⟩
  · next set rest hsets =>
      rw [hsets] at hpasses
      refine ⟨rfl, heldTasks_eq_nil_iff.mpr ⟨htasks, fun other hother => ?_, hspawned⟩, rfl⟩
      rcases List.mem_cons.mp hother with rfl | hother
      · exact hf set (hpasses set List.mem_cons_self)
      · exact hpasses other (List.mem_cons_of_mem _ hother)

/-- A pass that is asked for begins without tasks as well. -/
theorem MainContext.beginPass_of_taskless {x : MainContext β} (h : x.heldTasks = [])
    (hready : x.tasksReady = true) :
    ∃ y, x.beginPass = some y ∧ y.timetable = x.timetable ∧ y.heldTasks = [] ∧
      y.tasksReady = false := by
  obtain ⟨htasks, hpasses, hspawned⟩ := heldTasks_eq_nil_iff.mp h
  refine ⟨_, if_pos hready, rfl, heldTasks_eq_nil_iff.mpr ⟨rfl, fun set hset => ?_, rfl⟩, rfl⟩
  rcases List.mem_cons.mp hset with rfl | hset
  · show x.tasks.tasks ++ x.spawned = []
    rw [htasks, hspawned]
    rfl
  · exact hpasses set hset

theorem MainContext.passTasks_of_taskless {x : MainContext β} (h : x.heldTasks = []) :
    x.passTasks.tasks = [] := by
  obtain ⟨-, hpasses, -⟩ := heldTasks_eq_nil_iff.mp h
  unfold passTasks
  cases hsets : x.passes with
  | nil => rfl
  | cons set rest => exact hpasses set (hsets ▸ List.mem_cons_self)

/-- A pass over no tasks ends at once. -/
theorem World.beginRound_of_taskless {w : World β} {p : Pass} {x : MainContext β}
    (hx : w.context? p.context = some x) (h : x.heldTasks = []) :
    ∃ v y, Pass.beginRound w p = .reply v .proceed ∧ v.context? p.context = some y ∧
      v.loops = w.loops ∧ y.timetable = x.timetable ∧ y.heldTasks = [] ∧
      y.tasksReady = x.tasksReady := by
  -- the pass takes nothing out of its set
  obtain ⟨y, hy⟩ : ∃ y, y = x.modifyPass TaskSet.listen := ⟨_, rfl⟩
  obtain ⟨hy_times, hy_held, hy_ready⟩ :=
    hy ▸ MainContext.modifyPass_of_taskless h (f := TaskSet.listen) fun set hset => hset
  obtain ⟨hnone, htasks⟩ :=
    TaskSet.dequeue_of_taskless (MainContext.passTasks_of_taskless hy_held)
  obtain ⟨set, hset⟩ : ∃ set, set = y.passTasks.dequeue.2 := ⟨_, rfl⟩
  have hdequeue : y.passTasks.dequeue = (none, set) := Prod.ext hnone hset.symm
  obtain ⟨z, hz⟩ : ∃ z, z = y.modifyPass fun _ => set := ⟨_, rfl⟩
  obtain ⟨hz_times, hz_held, hz_ready⟩ :=
    hz ▸ MainContext.modifyPass_of_taskless hy_held (f := fun _ => set) fun _ _ => hset ▸ htasks
  have hctx_y : (w.modifyContext p.context (·.modifyPass TaskSet.listen)).context? p.context =
      some y := by
    rw [context?_modifyContext, if_pos rfl, hx, hy]
    rfl
  have hctx_z := (context?_setContext _ hctx_y (d := p.context) (y := z)).trans (if_pos rfl)
  have hlast : z.tasks.tasks.getLast? = none := by
    rw [(MainContext.heldTasks_eq_nil_iff.mp hz_held).1]
    rfl
  have hround : Pass.beginRound w p = .reply
      (((w.modifyContext p.context (·.modifyPass TaskSet.listen)).setContext p.context
        z).modifyContext p.context (·.endPass p.finished)) .proceed := by
    unfold Pass.beginRound Pass.pollNext
    dsimp only
    rw [hctx_y]
    dsimp only
    rw [hdequeue]
    dsimp only
    rw [← hz]
    unfold Pass.finish
    dsimp only
    rw [hctx_z, Option.bind_some, hlast]
  have hend : (z.endPass p.finished).heldTasks = [] := by
    obtain ⟨-, hpasses, hspawned⟩ := MainContext.heldTasks_eq_nil_iff.mp hz_held
    refine MainContext.heldTasks_eq_nil_iff.mpr
      ⟨MainContext.passTasks_of_taskless hz_held, fun other hother => ?_, hspawned⟩
    exact hpasses other (List.mem_of_mem_drop hother)
  refine ⟨_, z.endPass p.finished, hround, ?_, rfl, hz_times.trans hy_times, hend,
    hz_ready.trans hy_ready⟩
  rw [context?_modifyContext, if_pos rfl, hctx_z]
  rfl

end ObjectSystem
