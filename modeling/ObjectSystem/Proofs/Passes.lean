import Mathlib.Data.List.Forall2
import ObjectSystem.Proofs.Rosters
import ObjectSystem.Proofs.Run

/-!
# Passes over tasks

What a step does with the tasks of a context (`Shift`): a task is spawned; a pass begins and takes all
tasks with it; the innermost pass polls, has a task complete, discards a task that nested passes left,
or ends and gives its tasks back. `Manned.shift` says that every step is one of these, or none.
-/

namespace ObjectSystem

variable {σ β κ : Type}

/-- The tasks that are held: spawned, in the set of the context, or in the sets that passes have. -/
def Roster.held (r : Roster) : List TaskId :=
  r.spawned ++ r.tasks ++ r.passes.flatten

/-- The roster after a task is spawned. -/
def Roster.spawn (r : Roster) : Roster :=
  { r with
    spawned := r.spawned ++ [⟨r.nextTask⟩]
    liveTasks := r.liveTasks + 1
    nextTask := r.nextTask + 1 }

/-- The roster after a pass begins, which takes all tasks with it. -/
def Roster.beginPass (r : Roster) : Roster :=
  { r with spawned := [], tasks := [], passes := (r.tasks ++ r.spawned) :: r.passes }

/-! ## Rosters after a change -/

namespace World

/-- The roster of one context is replaced. -/
structure Reroster (w v : World β) (c : ContextId) (r : Roster) : Prop where
  here : v.roster c = r
  elsewhere : ∀ d, d ≠ c → v.roster d = w.roster d

section
variable {u v w : World β} {c : ContextId} {r r' : Roster} {x y : MainContext β}

theorem Reroster.trans (h : Reroster u v c r) (g : Reroster v w c r') : Reroster u w c r' :=
  ⟨g.here, fun d hd => (g.elsewhere d hd).trans (h.elsewhere d hd)⟩

theorem Reroster.calm (h : Reroster u v c r) (hw : Calm v w) : Reroster u w c r :=
  ⟨(hw.roster_eq c).trans h.here, fun d hd => (hw.roster_eq d).trans (h.elsewhere d hd)⟩

theorem Reroster.refl (w : World β) (c : ContextId) : Reroster w w c (w.roster c) :=
  ⟨rfl, fun _ _ => rfl⟩

theorem reroster_setContext (hx : w.context? c = some x) (y : MainContext β) :
    Reroster w (w.setContext c y) c y.roster := by
  constructor
  · unfold roster
    rw [roster?_setContext w hx, if_pos rfl]
    rfl
  · intro d hd
    refine roster_of_eq ?_
    rw [roster?_setContext w hx, if_neg hd]

theorem reroster_modifyContext (hx : w.context? c = some x) (f : MainContext β → MainContext β) :
    Reroster w (w.modifyContext c f) c (f x).roster := by
  constructor
  · refine roster_eq ?_
    rw [context?_modifyContext, if_pos rfl, hx]
    rfl
  · intro d hd
    refine roster_of_eq ?_
    unfold roster?
    rw [context?_modifyContext, if_neg hd]

end

end World

namespace MainContext

variable {x : MainContext β} {ids ids' : List TaskId} {rest : List (List TaskId)}

/-- A pass changes its set. -/
theorem roster_modifyPass (h : x.roster.passes = ids :: rest) {f : TaskSet β → TaskSet β}
    (hf : ∀ set : TaskSet β, set.ids = ids → (f set).ids = ids') :
    (x.modifyPass f).roster = { x.roster with passes := ids' :: rest } := by
  have hpasses : x.passes.map TaskSet.ids = ids :: rest := h
  unfold modifyPass
  cases hsets : x.passes with
  | nil =>
      rw [hsets] at hpasses
      cases hpasses
  | cons set sets =>
      rw [hsets] at hpasses
      obtain ⟨hset, hrest⟩ := List.cons.inj hpasses
      unfold roster
      simp [hf set hset, hrest]

theorem ids_passTasks (h : x.roster.passes = ids :: rest) : x.passTasks.ids = ids := by
  have hpasses : x.passes.map TaskSet.ids = ids :: rest := h
  unfold passTasks
  cases hsets : x.passes with
  | nil =>
      rw [hsets] at hpasses
      cases hpasses
  | cons set sets =>
      rw [hsets] at hpasses
      exact (List.cons.inj hpasses).1

theorem roster_spawn (x : MainContext β) (callback : β) (owner : Option ReadyOwner) :
    (x.spawn callback owner).roster = x.roster.spawn := by
  unfold spawn roster Roster.spawn
  simp

theorem roster_beginPass {y : MainContext β} (h : x.beginPass = some y) :
    y.roster = x.roster.beginPass := by
  unfold beginPass at h
  split at h
  · cases h
    unfold roster Roster.beginPass TaskSet.ids TaskSet.extend
    simp
  · cases h

/-- A pass that ends gives its tasks back. -/
theorem roster_endPass (h : x.roster.passes = ids :: rest) (finished : Nat) :
    (x.endPass finished).roster =
      { x.roster with
        tasks := ids
        passes := rest
        liveTasks := x.roster.liveTasks - finished } := by
  have hids := ids_passTasks h
  have hrest : (x.passes.drop 1).map TaskSet.ids = rest := by
    rw [List.map_drop, show x.passes.map TaskSet.ids = ids :: rest from h]
    rfl
  unfold endPass roster
  simp only [hids, hrest]

theorem roster_dropTask (x : MainContext β) (id : TaskId) :
    (x.dropTask id).roster = { x.roster with tasks := x.roster.tasks.filter (· ≠ id) } := by
  unfold dropTask roster TaskSet.remove TaskSet.ids
  simp only [List.filter_map]
  rfl

end MainContext

namespace TaskSet

variable (set : TaskSet β)

theorem ids_remove (id : TaskId) : (set.remove id).ids = set.ids.filter (· ≠ id) := by
  unfold remove ids
  simp only [List.filter_map]
  rfl

theorem ids_reenter (id : TaskId) :
    (set.reenter id).ids = set.ids.filter (· ≠ id) ++ set.ids.filter (· = id) := by
  unfold reenter ids
  simp only [List.map_append, List.filter_map]
  rfl

/-- The task that is dequeued is in the set, which keeps its tasks. -/
theorem dequeue_spec : (set.dequeue.2).ids = set.ids ∧
    ∀ task, set.dequeue.1 = some task → task.id ∈ set.ids := by
  have hgo (queue : List TaskId) (task : Task β) (h : (dequeue.go set queue).1 = some task) :
      task ∈ set.tasks := by
    induction queue with
    | nil => cases h
    | cons id queue ih =>
        unfold dequeue.go at h
        split at h
        · next found hfound =>
            cases h
            exact List.mem_of_find?_eq_some hfound
        · exact ih h
  refine ⟨rfl, fun task h => ?_⟩
  exact List.mem_map_of_mem (hgo set.queue task h)

end TaskSet

/-! ## Steps of a pass -/

open World (Reroster)

/-- How a pass goes on, given the tasks of its set and of the sets below. -/
inductive Pass.Next (p : Pass) (w : World β) (ids : List TaskId) (rest : List (List TaskId))
    (q : Progress β) : Prop
  /-- It polls. -/
  | polls (ids' : List TaskId) (p' : Pass) (hids : ids'.Perm ids)
      (hw : w.Reroster q.world p.context
        { w.roster p.context with passes := ids' :: rest })
      (hf : q.frames = [.pass p']) (hc : p'.context = p.context)
      (hfinished : p'.finished = p.finished) (hcurrent : ∀ id, p'.current = some id → id ∈ ids')
  /-- It discards a task that nested passes left, before it ends. -/
  | discards (ids' : List TaskId) (p' : Pass) (id : TaskId) (hids : ids'.Perm ids)
      (hlast : (w.roster p.context).tasks.getLast? = some id)
      (hw : w.Reroster q.world p.context
        { w.roster p.context with
          passes := ids' :: rest
          tasks := (w.roster p.context).tasks.filter (· ≠ id) })
      (hf : q.frames = [.finishPass p']) (hc : p'.context = p.context)
      (hfinished : p'.finished = p.finished) (hcurrent : ∀ id, p'.current = some id → id ∈ ids')
      (hcontrol : ∃ reply, q.control = .deliver reply)
  /-- It ends. -/
  | ends (ids' : List TaskId) (hids : ids'.Perm ids) (htasks : (w.roster p.context).tasks = [])
      (hw : w.Reroster q.world p.context
        { w.roster p.context with
          passes := rest
          tasks := ids'
          liveTasks := (w.roster p.context).liveTasks - p.finished })
      (hf : q.frames = [])

namespace Pass

variable {p p' : Pass} {v w : World β} {q : Progress β} {ids ids' : List TaskId}
  {rest : List (List TaskId)}

/-- What a pass does after its set was changed. -/
theorem Next.after (h : p'.Next v ids' rest q) (hids : ids'.Perm ids)
    (hw : w.Reroster v p.context { w.roster p.context with passes := ids' :: rest })
    (hc : p'.context = p.context) (hfinished : p'.finished = p.finished) : p.Next w ids rest q := by
  have hhere := hw.here
  rw [← hc] at hhere
  cases h with
  | polls ids'' p'' hids' hw' hf hc' hfinished' hcurrent =>
      rw [hhere] at hw'
      rw [hc] at hw'
      exact .polls ids'' p'' (hids'.trans hids) (hw.trans hw') hf (hc'.trans hc)
        (hfinished'.trans hfinished) hcurrent
  | discards ids'' p'' id hids' hlast hw' hf hc' hfinished' hcurrent hcontrol =>
      rw [hhere] at hlast hw'
      rw [hc] at hlast hw'
      exact .discards ids'' p'' id (hids'.trans hids) hlast (hw.trans hw') hf (hc'.trans hc)
        (hfinished'.trans hfinished) hcurrent hcontrol
  | ends ids'' hids' htasks hw' hf =>
      rw [hhere] at htasks hw'
      rw [hc] at htasks hw'
      rw [hfinished] at hw'
      exact .ends ids'' (hids'.trans hids) htasks (hw.trans hw') hf

/-- A context in which a pass is in progress. -/
theorem context_of_passes (h : (w.roster p.context).passes = ids :: rest) :
    ∃ x, w.context? p.context = some x ∧ x.roster.passes = ids :: rest := by
  cases hx : w.context? p.context with
  | none =>
      unfold World.roster World.roster? at h
      rw [hx] at h
      cases h
  | some x => exact ⟨x, rfl, by rw [← World.roster_eq hx, h]⟩

theorem next_finish (h : (w.roster p.context).passes = ids :: rest)
    (hcurrent : ∀ id, p.current = some id → id ∈ ids) : p.Next w ids rest (p.finish w) := by
  obtain ⟨x, hx, hpasses⟩ := context_of_passes h
  have hroster := World.roster_eq hx
  unfold finish
  rw [hx, Option.bind_some]
  cases hlast : x.tasks.tasks.getLast? with
  | none =>
      have htasks : x.roster.tasks = [] := by
        show x.tasks.tasks.map (·.id) = []
        rw [List.getLast?_eq_none_iff.mp hlast]
        rfl
      refine .ends ids (.refl ids) (hroster ▸ htasks) ?_ rfl
      rw [hroster, ← MainContext.roster_endPass hpasses]
      exact World.reroster_modifyContext hx _
  | some task =>
      have hid : x.roster.tasks.getLast? = some task.id := by
        show (x.tasks.tasks.map (·.id)).getLast? = _
        rw [List.getLast?_map, hlast]
        rfl
      refine .discards ids p task.id (.refl ids) (hroster ▸ hid) ?_ rfl rfl rfl hcurrent ⟨_, rfl⟩
      have hdrop := World.reroster_modifyContext hx (·.dropTask task.id)
      rw [MainContext.roster_dropTask] at hdrop
      rw [hroster, ← hpasses]
      exact hdrop

/-- The innermost pass changes its set. -/
theorem reroster_modifyPass (h : (w.roster p.context).passes = ids :: rest)
    {f : TaskSet β → TaskSet β} (hf : ∀ set : TaskSet β, set.ids = ids → (f set).ids = ids') :
    w.Reroster (w.modifyContext p.context (·.modifyPass f)) p.context
      { w.roster p.context with passes := ids' :: rest } := by
  obtain ⟨x, hx, hpasses⟩ := context_of_passes h
  have hmodify := World.reroster_modifyContext hx (·.modifyPass f)
  rw [MainContext.roster_modifyPass hpasses hf] at hmodify
  rw [World.roster_eq hx]
  exact hmodify

theorem next_pollNext (h : (w.roster p.context).passes = ids :: rest)
    (hcurrent : ∀ id, p.current = some id → id ∈ ids) : p.Next w ids rest (p.pollNext w) := by
  obtain ⟨x, hx, hpasses⟩ := context_of_passes h
  obtain ⟨hids, hmem⟩ := x.passTasks.dequeue_spec
  rw [MainContext.ids_passTasks hpasses] at hids hmem
  unfold pollNext
  rw [hx]
  dsimp only
  generalize x.passTasks.dequeue = dequeued at hids hmem ⊢
  obtain ⟨task?, set⟩ := dequeued
  have hset : w.Reroster (w.setContext p.context (x.modifyPass fun _ => set)) p.context
      { w.roster p.context with passes := ids :: rest } := by
    have hreroster := World.reroster_setContext hx (x.modifyPass fun _ => set)
    rw [MainContext.roster_modifyPass hpasses fun _ _ => hids] at hreroster
    rw [World.roster_eq hx]
    exact hreroster
  dsimp only
  generalize w.setContext p.context (x.modifyPass fun _ => set) = v at hset ⊢
  have hv : (v.roster p.context).passes = ids :: rest := by rw [hset.here]
  cases task? with
  | none => exact (next_finish hv hcurrent).after (.refl ids) hset rfl rfl
  | some task =>
      have hpolled : ∀ id, some task.id = some id → id ∈ ids := by
        intro id hid
        cases hid
        exact hmem task rfl
      -- marking the task changes no roster
      have hmark (u : World β) (hu : World.Calm v u) {f : Task β → Task β}
          (hf : ∀ task, (f task).id = task.id) :
          w.Reroster (u.modifyContext p.context (·.modifyPass (·.modify task.id f))) p.context
            { w.roster p.context with passes := ids :: rest } := by
        have hu' := hset.calm hu
        have hmodify := reroster_modifyPass (w := u) (p := p) (by rw [hu'.here])
          (f := (·.modify task.id f)) fun set hset => (set.ids_modify task.id hf).trans hset
        rw [hu'.here] at hmodify
        exact hu'.trans hmodify
      dsimp only
      split
      · exact .polls ids { p with current := some task.id } (.refl ids)
          (hmark v (.refl v) fun _ => rfl) rfl rfl rfl hpolled
      · next event _ =>
          have htake := World.calm_takeOutcome v event
          split
          · next u outcome hu =>
              rw [hu] at htake
              exact .polls ids { p with current := some task.id } (.refl ids)
                (hmark u htake fun _ => rfl) rfl rfl rfl hpolled
          · next u hu =>
              rw [hu] at htake
              exact .polls ids { p with current := some task.id } (.refl ids) (hset.calm htake) rfl
                rfl rfl hpolled

theorem next_beginRound (h : (w.roster p.context).passes = ids :: rest) :
    p.Next w ids rest (p.beginRound w) := by
  have hlisten := reroster_modifyPass (w := w) (p := p) h (f := TaskSet.listen) fun _ hset => hset
  unfold beginRound
  extract_lets v limit
  have hpasses : (v.roster p.context).passes = ids :: rest := by rw [hlisten.here]
  have hnext : Next { p with limit, waiting := 0, current := none } v ids rest _ :=
    next_pollNext hpasses fun _ hid => (by cases hid)
  exact hnext.after (.refl ids) hlisten rfl rfl

/-- A task that waits enters the set of its pass anew. -/
theorem next_taskWaits (h : (w.roster p.context).passes = ids :: rest) :
    p.Next w ids rest (p.taskWaits w) := by
  unfold taskWaits
  extract_lets v q
  have hreenter : ∃ ids', ids'.Perm ids ∧
      w.Reroster v p.context { w.roster p.context with passes := ids' :: rest } := by
    unfold v
    split
    · refine ⟨ids, .refl ids, ?_⟩
      rw [← h]
      exact .refl w p.context
    · next id _ =>
        refine ⟨ids.filter (· ≠ id) ++ ids.filter (· = id), ?_, ?_⟩
        · simpa using List.filter_append_perm (fun id' => decide (id' ≠ id)) ids
        · exact reroster_modifyPass h fun set hset => by rw [set.ids_reenter, hset]
  obtain ⟨ids', hids, hv⟩ := hreenter
  have hnone : ∀ id, q.current = some id → id ∈ ids' := fun _ hid => (by cases hid)
  split
  · have hrequest : w.Reroster (v.modifyContext q.context MainContext.requestPass) p.context
        { w.roster p.context with passes := ids' :: rest } := by
      refine ⟨?_, fun d hd => ?_⟩
      · rw [World.roster_modifyContext v q.context (f := MainContext.requestPass) fun _ => rfl,
          hv.here]
      · rw [World.roster_modifyContext v q.context (f := MainContext.requestPass) fun _ => rfl,
          hv.elsewhere d hd]
    have hpasses : (World.roster (v.modifyContext q.context MainContext.requestPass)
        q.context).passes = ids' :: rest := congrArg Roster.passes hrequest.here
    exact (next_finish hpasses hnone).after hids hrequest rfl rfl
  · have hpasses : (v.roster q.context).passes = ids' :: rest := congrArg Roster.passes hv.here
    exact (next_pollNext hpasses hnone).after hids hv rfl rfl

end Pass

/-! ## Passes in progress -/

/-- The pass of a context that is carried out in a place on the stack. -/
def Layer.pass? (c : ContextId) : Layer β κ → Option Pass
  | .operation f => f.pass?.filter (·.context = c)
  | .callback _ _ => none

/-- Whether a pass that is about to end stands in a place on the stack. -/
def Layer.isFinishing : Layer β κ → Bool
  | .operation (.finishPass _) => true
  | _ => false

namespace Machine

variable (m : Machine σ β κ) (c : ContextId)

/-- The passes over the tasks of a context that are in progress, the innermost first. -/
def passes : List Pass :=
  m.stack.filterMap (Layer.pass? c)

/-- The task of a context that completes with the next step: its callback has returned to the pass
that polls it. -/
def completes : List TaskId :=
  match m.control, m.stack with
  | .deliver (.returned _), .operation (.pass p) :: _ =>
    if p.context = c then p.current.toList else []
  | _, _ => []

/-- Whether a pass that is about to end has just discarded a task that nested passes left. -/
def discards : Bool :=
  match m.stack with
  | .operation (.finishPass p) :: _ => p.context = c
  | _ => false

/-- Every pass in progress has a set, which has the task that it polls. -/
def Manned : Prop :=
  List.Forall₂ (fun p ids => ∀ id, p.current = some id → id ∈ ids) (m.passes c)
    (m.world.roster c).passes

/-- A pass that is about to end is the innermost operation, and has its turn. -/
structure Orderly : Prop where
  below : ∀ layer ∈ m.stack.tail, layer.isFinishing = false
  deliver : (∀ reply, m.control ≠ .deliver reply) → ∀ layer ∈ m.stack, layer.isFinishing = false

variable {m c}

theorem discards_of_clean (h : ∀ layer ∈ m.stack, layer.isFinishing = false) (c : ContextId) :
    m.discards c = false := by
  unfold discards
  split
  · next p rest hs =>
      have := h (.operation (.finishPass p)) (by rw [hs]; exact List.mem_cons_self)
      cases this
  · rfl

theorem Orderly.of_clean (h : ∀ layer ∈ m.stack, layer.isFinishing = false) : Orderly m :=
  ⟨fun layer hl => h layer (List.mem_of_mem_tail hl), fun _ => h⟩

/-- Frames of no pass leave the passes in progress alone. -/
theorem pass?_frames {frames : List (Frame β)} (hf : ∀ f ∈ frames, f.pass? = none) (c : ContextId) :
    (frames.map (Layer.operation (κ := κ))).filterMap (Layer.pass? c) = [] := by
  rw [List.filterMap_eq_nil_iff]
  intro layer hl
  obtain ⟨f, hmem, rfl⟩ := List.mem_map.mp hl
  show f.pass?.filter _ = none
  rw [hf f hmem]
  rfl

theorem isFinishing_frames {frames : List (Frame β)} (hf : ∀ f ∈ frames, f.pass? = none) :
    ∀ layer ∈ frames.map (Layer.operation (κ := κ)), layer.isFinishing = false := by
  intro layer hl
  obtain ⟨f, hmem, rfl⟩ := List.mem_map.mp hl
  have := hf f hmem
  cases f <;> first | rfl | cases this

end Machine

/-! ## Shifts -/

/-- What a step does with the tasks of a context. -/
inductive Shift (m m' : Machine σ β κ) (c : ContextId) : Prop
  /-- Nothing. -/
  | still (hr : m'.world.roster c = m.world.roster c) (hp : m'.passes c = m.passes c)
      (hdone : m.completes c = []) (hdiscards : m'.discards c = false)
  /-- A task is spawned. -/
  | spawns (hr : m'.world.roster c = (m.world.roster c).spawn) (hp : m'.passes c = m.passes c)
      (hdone : m.completes c = []) (hdiscards : m'.discards c = false)
  /-- A pass begins. -/
  | begins (hr : m'.world.roster c = (m.world.roster c).beginPass)
      (hp : m'.passes c = { context := c } :: m.passes c)
      (hdone : m.completes c = []) (hdiscards : m'.discards c = false)
  /-- The innermost pass polls. -/
  | polls (p p' : Pass) (ps : List Pass) (ids ids' : List TaskId) (rest : List (List TaskId))
      (hp : m.passes c = p :: ps) (hrest : (m.world.roster c).passes = ids :: rest)
      (hids : ids'.Perm ids)
      (hr : m'.world.roster c = { m.world.roster c with passes := ids' :: rest })
      (hp' : m'.passes c = p' :: ps) (hfinished : p'.finished = p.finished)
      (hcurrent : ∀ id, p'.current = some id → id ∈ ids') (hdone : m.completes c = [])
      (hdiscards : m'.discards c = false)
  /-- The task that the innermost pass polls completes. -/
  | completes (p : Pass) (ps : List Pass) (ids : List TaskId) (rest : List (List TaskId))
      (id : TaskId) (hp : m.passes c = p :: ps)
      (hrest : (m.world.roster c).passes = ids :: rest) (hcurrent : p.current = some id)
      (hr : m'.world.roster c =
        { m.world.roster c with passes := ids.filter (· ≠ id) :: rest })
      (hp' : m'.passes c = { p with finished := p.finished + 1, current := none } :: ps)
      (hdone : m.completes c = [id]) (hdiscards : m'.discards c = false)
  /-- The innermost pass discards a task that nested passes left. -/
  | discards (p p' : Pass) (ps : List Pass) (ids ids' : List TaskId) (rest : List (List TaskId))
      (id : TaskId) (hp : m.passes c = p :: ps)
      (hrest : (m.world.roster c).passes = ids :: rest) (hids : ids'.Perm ids)
      (hlast : (m.world.roster c).tasks.getLast? = some id)
      (hr : m'.world.roster c =
        { m.world.roster c with
          passes := ids' :: rest
          tasks := (m.world.roster c).tasks.filter (· ≠ id) })
      (hp' : m'.passes c = p' :: ps) (hfinished : p'.finished = p.finished)
      (hcurrent : ∀ id, p'.current = some id → id ∈ ids') (hdone : m.completes c = [])
      (hdiscards : m'.discards c = true)
  /-- The innermost pass ends. -/
  | ends (p : Pass) (ps : List Pass) (ids ids' : List TaskId) (rest : List (List TaskId))
      (hp : m.passes c = p :: ps) (hrest : (m.world.roster c).passes = ids :: rest)
      (hids : ids'.Perm ids) (htasks : (m.world.roster c).tasks = [])
      (hr : m'.world.roster c =
        { m.world.roster c with
          passes := rest
          tasks := ids'
          liveTasks := (m.world.roster c).liveTasks - p.finished })
      (hp' : m'.passes c = ps) (hdone : m.completes c = []) (hdiscards : m'.discards c = false)

section Shift

variable {client : Client σ β κ} {m m' : Machine σ β κ} {c : ContextId} {stack : List (Layer β κ)}

open Machine (Orderly Manned)

/-- A step without tasks is a still shift. -/
theorem Shift.of_taskless {q : Progress β} (h : m'.Follows q stack) (hq : q.Taskless m.world)
    (hp : stack.filterMap (Layer.pass? c) = m.passes c)
    (hclean : ∀ layer ∈ stack, layer.isFinishing = false) (hdone : m.completes c = []) :
    Shift m m' c := by
  refine .still ((h.world.roster_eq c).trans (hq.roster c)) ?_ hdone ?_
  · unfold Machine.passes
    rw [h.stack, List.filterMap_append, Machine.pass?_frames hq.frames, hp]
    rfl
  · refine Machine.discards_of_clean (fun layer hl => ?_) c
    rw [h.stack] at hl
    rcases List.mem_append.mp hl with hl | hl
    · exact Machine.isFinishing_frames hq.frames layer hl
    · exact hclean layer hl

/-- A step that spawns a task on some context. -/
theorem Shift.of_spawn {q : Progress β} (h : m'.Follows q stack) {d : ContextId} {callback : β}
    {owner : Option ReadyOwner}
    (hq : q.world = m.world.modifyContext d (·.spawn callback owner)) (hf : q.frames = [])
    (hp : stack.filterMap (Layer.pass? c) = m.passes c)
    (hclean : ∀ layer ∈ stack, layer.isFinishing = false) (hdone : m.completes c = []) :
    Shift m m' c := by
  have hstack : m'.stack = stack := by
    rw [h.stack, hf]
    rfl
  have hpasses : m'.passes c = m.passes c := by
    unfold Machine.passes
    rw [hstack, hp]
    rfl
  have hdiscards : m'.discards c = false := Machine.discards_of_clean (hstack ▸ hclean) c
  have hworld := h.world.roster_eq c
  rw [hq] at hworld
  cases hx : m.world.context? d with
  | none =>
      refine .still (hworld.trans (World.roster_of_eq ?_)) hpasses hdone hdiscards
      unfold World.roster?
      rw [World.context?_modifyContext]
      split
      · next hc =>
          rw [hc, hx]
          rfl
      · rfl
  | some x =>
      obtain ⟨hhere, helsewhere⟩ := World.reroster_modifyContext hx (·.spawn callback owner)
      by_cases hc : c = d
      · subst hc
        rw [x.roster_spawn, ← World.roster_eq hx] at hhere
        exact .spawns (hworld.trans hhere) hpasses hdone hdiscards
      · exact .still (hworld.trans (helsewhere c hc)) hpasses hdone hdiscards

/-- The passes of a context, with a pass in progress on top of the stack. -/
theorem Machine.passes_cons {frame : Frame β} {p : Pass} (hs : m.stack = .operation frame :: stack)
    (hframe : frame.pass? = some p) (c : ContextId) :
    m.passes c = if p.context = c then p :: stack.filterMap (Layer.pass? c)
      else stack.filterMap (Layer.pass? c) := by
  have hlayer : Layer.pass? (κ := κ) c (.operation frame) = (some p).filter (·.context = c) := by
    show frame.pass?.filter _ = _
    rw [hframe]
  unfold Machine.passes
  rw [hs, List.filterMap_cons, hlayer]
  by_cases hc : p.context = c
  · simp [Option.filter, hc]
  · simp [Option.filter, hc]

/-- An iteration begins with a pass if there is a task to poll. -/
theorem Shift.of_iterate {d : ContextId} (h : m'.Follows (m.world.iterate d) m.stack)
    (hclean : ∀ layer ∈ m.stack, layer.isFinishing = false) (hdone : m.completes c = []) :
    Shift m m' c := by
  unfold World.iterate at h
  split at h
  · exact .of_taskless h (.reply (fun _ => rfl) _) rfl hclean hdone
  · next x hx =>
      split at h
      · next y hy =>
          obtain ⟨hhere, helsewhere⟩ := World.reroster_setContext hx y
          rw [MainContext.roster_beginPass hy, ← World.roster_eq hx] at hhere
          have hstack : m'.stack =
            .operation (.pass { context := d }) :: .operation (.collect d true) :: m.stack := h.stack
          have hdiscards : m'.discards c = false := by
            unfold Machine.discards
            rw [hstack]
          have hpasses := Machine.passes_cons hstack rfl c
          rw [List.filterMap_cons_none rfl] at hpasses
          by_cases hc : d = c
          · subst hc
            rw [if_pos rfl] at hpasses
            exact .begins ((h.world.roster_eq d).trans hhere) hpasses hdone hdiscards
          · rw [if_neg hc] at hpasses
            exact .still ((h.world.roster_eq c).trans (helsewhere c (Ne.symm hc))) hpasses hdone
              hdiscards
      · exact .of_taskless h (.proceed (fun _ => rfl) (by simp [Frame.pass?])) rfl hclean hdone

/-- The innermost pass goes on. -/
theorem Shift.of_next {frame : Frame β} {p : Pass} {q : Progress β} {ids : List TaskId}
    {rest : List (List TaskId)} (hs : m.stack = .operation frame :: stack)
    (hframe : frame.pass? = some p) (h : m'.Follows q stack)
    (hrest : (m.world.roster p.context).passes = ids :: rest)
    (hnext : p.Next m.world ids rest q) (hclean : ∀ layer ∈ stack, layer.isFinishing = false)
    (hdone : m.completes c = []) : Shift m m' c := by
  have hp := Machine.passes_cons hs hframe c
  have hworld := h.world.roster_eq c
  cases hnext with
  | polls ids' p' hids hw hf hc hfinished hcurrent =>
      have hstack : m'.stack = .operation (.pass p') :: stack := by
        rw [h.stack, hf]
        rfl
      have hp' := Machine.passes_cons hstack rfl c
      rw [hc] at hp'
      have hdiscards : m'.discards c = false := by
        unfold Machine.discards
        rw [hstack]
      by_cases hpc : p.context = c
      · subst hpc
        rw [if_pos rfl] at hp hp'
        exact .polls p p' _ ids ids' rest hp hrest hids (hworld.trans hw.here) hp' hfinished
          hcurrent hdone hdiscards
      · rw [if_neg hpc] at hp hp'
        exact .still (hworld.trans (hw.elsewhere c (Ne.symm hpc))) (hp'.trans hp.symm) hdone
          hdiscards
  | discards ids' p' id hids hlast hw hf hc hfinished hcurrent hcontrol =>
      have hstack : m'.stack = .operation (.finishPass p') :: stack := by
        rw [h.stack, hf]
        rfl
      have hp' := Machine.passes_cons hstack rfl c
      rw [hc] at hp'
      by_cases hpc : p.context = c
      · subst hpc
        rw [if_pos rfl] at hp hp'
        refine .discards p p' _ ids ids' rest id hp hrest hids hlast (hworld.trans hw.here) hp'
          hfinished hcurrent hdone ?_
        unfold Machine.discards
        rw [hstack]
        exact decide_eq_true hc
      · rw [if_neg hpc] at hp hp'
        refine .still (hworld.trans (hw.elsewhere c (Ne.symm hpc))) (hp'.trans hp.symm) hdone ?_
        unfold Machine.discards
        rw [hstack]
        exact decide_eq_false fun hp'c => hpc (hc.symm.trans hp'c)
  | ends ids' hids htasks hw hf =>
      have hstack : m'.stack = stack := by
        rw [h.stack, hf]
        rfl
      have hp' : m'.passes c = stack.filterMap (Layer.pass? c) := by
        unfold Machine.passes
        rw [hstack]
      have hdiscards : m'.discards c = false := Machine.discards_of_clean (hstack ▸ hclean) c
      by_cases hpc : p.context = c
      · subst hpc
        rw [if_pos rfl] at hp
        exact .ends p _ ids ids' rest hp hrest hids htasks (hworld.trans hw.here) hp' hdone hdiscards
      · rw [if_neg hpc] at hp
        exact .still (hworld.trans (hw.elsewhere c (Ne.symm hpc))) (hp'.trans hp.symm) hdone
          hdiscards

/-- A pass in progress goes on: its task completes, or it polls on or ends. -/
theorem Shift.of_resumePass {p : Pass} {reply : Reply β} (hm : m.control = .deliver reply)
    (hs : m.stack = .operation (.pass p) :: stack) (h : m'.Follows (p.resume m.world reply) stack)
    {ids : List TaskId} {rest : List (List TaskId)}
    (hrest : (m.world.roster p.context).passes = ids :: rest)
    (hclean : ∀ layer ∈ stack, layer.isFinishing = false) : Shift m m' c := by
  have hdone (hnone : ∀ outcome, reply ≠ .returned outcome) : m.completes c = [] := by
    unfold Machine.completes
    rw [hm, hs]
    cases reply with
    | returned outcome => exact absurd rfl (hnone outcome)
    | _ => rfl
  cases reply with
  | returned outcome =>
      have hcompletes : m.completes c = if p.context = c then p.current.toList else [] := by
        unfold Machine.completes
        rw [hm, hs]
      have h : m'.Follows (p.taskFinished m.world outcome) stack := h
      cases hcurrent : p.current with
      | none =>
          unfold Pass.taskFinished at h
          rw [hcurrent] at h hcompletes
          refine .of_next hs rfl h hrest (Pass.next_beginRound hrest) hclean ?_
          rw [hcompletes]
          split <;> rfl
      | some id =>
          rw [hcurrent] at hcompletes
          have hp := Machine.passes_cons hs rfl c
          have hremove := Pass.reroster_modifyPass (w := m.world) (p := p) hrest
            (f := (·.remove id)) fun set hset => by rw [set.ids_remove, hset]
          have hstack : m'.stack =
              .operation (.pass { p with finished := p.finished + 1, current := none }) :: stack := by
            rw [h.stack]
            unfold Pass.taskFinished
            rw [hcurrent]
            rfl
          have hworld : World.Calm (m.world.modifyContext p.context (·.modifyPass (·.remove id)))
              m'.world := by
            have hcalm := h.world
            unfold Pass.taskFinished at hcalm
            rw [hcurrent] at hcalm
            exact hcalm
          have hp' := Machine.passes_cons hstack rfl c
          have hdiscards : m'.discards c = false := by
            unfold Machine.discards
            rw [hstack]
          by_cases hpc : p.context = c
          · subst hpc
            rw [if_pos rfl] at hp hp' hcompletes
            exact .completes p _ ids rest id hp hrest hcurrent
              ((hworld.roster_eq _).trans hremove.here) hp' hcompletes hdiscards
          · rw [if_neg hpc] at hp hp' hcompletes
            exact .still ((hworld.roster_eq c).trans (hremove.elsewhere c (Ne.symm hpc)))
              (hp'.trans hp.symm) hcompletes hdiscards
  | suspended =>
      exact .of_next hs rfl h hrest (Pass.next_taskWaits hrest) hclean
        (hdone fun _ hr => (by cases hr))
  | _ =>
      exact .of_next hs rfl h hrest (Pass.next_beginRound hrest) hclean
        (hdone fun _ hr => (by cases hr))

/-- The innermost pass has a set, which has the task that it polls. -/
theorem Machine.Manned.innermost {frame : Frame β} {p : Pass} (hs : m.stack = .operation frame :: stack)
    (hframe : frame.pass? = some p) (h : Manned m p.context) :
    ∃ ids rest, (m.world.roster p.context).passes = ids :: rest ∧
      ∀ id, p.current = some id → id ∈ ids := by
  unfold Machine.Manned at h
  rw [Machine.passes_cons hs hframe, if_pos rfl] at h
  generalize (m.world.roster p.context).passes = sets at h
  cases h with
  | cons hcurrent _ => exact ⟨_, _, rfl, hcurrent⟩

/-! ### Steps that complete no task -/

/-- Only a reply has a task complete. -/
theorem Machine.completes_of_not_deliver (hne : ∀ reply, m.control ≠ .deliver reply) :
    m.completes c = [] := by
  unfold Machine.completes
  split
  · next outcome p rest hm hs => exact absurd hm (hne _)
  · rfl

/-- Only a reply to a pass has a task complete. -/
theorem Machine.completes_of_top {layer : Layer β κ} (hs : m.stack = layer :: stack)
    (hlayer : ∀ p, layer ≠ .operation (.pass p)) : m.completes c = [] := by
  unfold Machine.completes
  split
  · next outcome p rest' hm hs' => exact absurd (List.cons.inj (hs.symm.trans hs')).1 (hlayer p)
  · rfl

/-! ### Every step -/

/-- A command that is carried out: one that spawns a task, an iteration, or one without tasks. -/
theorem Shift.of_perform {command : Command β} (hm : m.control = .perform command)
    (h : m'.Follows (m.world.perform command) m.stack)
    (hclean : ∀ layer ∈ m.stack, layer.isFinishing = false) : Shift m m' c := by
  have hdone : m.completes c = [] := by
    refine Machine.completes_of_not_deliver fun reply hc => ?_
    cases hm.symm.trans hc
  by_cases hspawn : ∃ d callback, command = .spawn d callback
  · obtain ⟨d, callback, rfl⟩ := hspawn
    exact .of_spawn h rfl rfl rfl hclean hdone
  · by_cases hiterate : ∃ d, command = .iterate d
    · obtain ⟨d, rfl⟩ := hiterate
      exact .of_iterate h hclean hdone
    · refine .of_taskless h (World.taskless_perform _ ?_ ?_) rfl hclean hdone
      · exact fun d callback hc => hspawn ⟨d, callback, hc⟩
      · exact fun d hc => hiterate ⟨d, hc⟩

/-- An operation that is no pass goes on: it starts an asynchronous ready hook, or is one without
tasks. -/
theorem Shift.of_resume {frame : Frame β} {reply : Reply β}
    (hs : m.stack = .operation frame :: stack) (hframe : frame.pass? = none)
    (h : m'.Follows (frame.resume m.world reply) stack)
    (hclean : ∀ layer ∈ stack, layer.isFinishing = false) : Shift m m' c := by
  have hlayer : Layer.pass? (κ := κ) c (.operation frame) = none := by
    show frame.pass?.filter _ = _
    rw [hframe]
    rfl
  have hp : stack.filterMap (Layer.pass? c) = m.passes c := by
    unfold Machine.passes
    rw [hs, List.filterMap_cons_none hlayer]
  have hdone : m.completes c = [] := by
    refine Machine.completes_of_top hs ?_
    rintro p ⟨⟩
    cases hframe
  by_cases hspawn : ∃ d owner, frame = .readySpawn d owner
  · obtain ⟨d, owner, rfl⟩ := hspawn
    have h : m'.Follows (m.world.spawnReady d owner reply) stack := h
    unfold World.spawnReady at h
    split at h
    · exact .of_spawn h rfl rfl hp hclean hdone
    · exact .of_taskless h ⟨fun _ => rfl, fun _ hf => (by cases hf)⟩ hp hclean hdone
  · refine .of_taskless h (World.taskless_resume _ hframe ?_ reply) hp hclean hdone
    exact fun d owner hf => hspawn ⟨d, owner, hf⟩

/-- Every step is a shift of the tasks of every context. -/
theorem shift_step (client : Client σ β κ) (horderly : Orderly m) (hmanned : ∀ c, Manned m c)
    (c : ContextId) : Shift m (m.step client) c := by
  cases Machine.moved_step client m with
  | performs command hm h =>
      refine .of_perform hm h (horderly.deliver fun reply hc => ?_)
      cases hm.symm.trans hc
  | resumes frame reply stack hm hs h =>
      have hclean := horderly.below
      rw [hs, List.tail_cons] at hclean
      cases hframe : frame.pass? with
      | none => exact .of_resume hs hframe h hclean
      | some p =>
          obtain ⟨ids, rest, hrest, hcurrent⟩ :=
            Machine.Manned.innermost hs hframe (hmanned p.context)
          cases frame with
          | pass p' =>
              cases hframe
              exact .of_resumePass hm hs h hrest hclean
          | finishPass p' =>
              cases hframe
              refine .of_next hs rfl h hrest (Pass.next_finish hrest hcurrent) hclean ?_
              exact Machine.completes_of_top hs fun _ hl => (by cases hl)
          | _ => cases hframe
  -- callbacks come and go without the tasks
  | enters rest inv reply hm hw hs hc =>
      refine .still (hw.roster_eq c) ?_ (Machine.completes_of_not_deliver fun reply hc => ?_) ?_
      · unfold Machine.passes
        rw [hs]
        rfl
      · rcases hm with ⟨callback, hm⟩ | ⟨d, task, outcome, hm⟩ <;> cases hm.symm.trans hc
      · unfold Machine.discards
        rw [hs]
  | asks command k k' inv stack hw hs hs' hc =>
      refine .still (hw.roster_eq c) ?_ (Machine.completes_of_top hs fun _ hl => (by cases hl)) ?_
      · unfold Machine.passes
        rw [hs, hs']
        rfl
      · unfold Machine.discards
        rw [hs']
  | goesOn reply k k' inv stack hw hs hs' hc =>
      refine .still (hw.roster_eq c) ?_ (Machine.completes_of_top hs fun _ hl => (by cases hl)) ?_
      · unfold Machine.passes
        rw [hs, hs']
        rfl
      · unfold Machine.discards
        rw [hs']
  | leaves reply k inv stack hw hs hs' hc hr =>
      refine .still (hw.roster_eq c) ?_ (Machine.completes_of_top hs fun _ hl => (by cases hl)) ?_
      · unfold Machine.passes
        rw [hs, hs']
        rfl
      · refine Machine.discards_of_clean (fun layer hl => ?_) c
        rw [hs'] at hl
        exact horderly.below layer (by rw [hs]; exact hl)
  | rests reply hw hs hm hc =>
      rcases hm with ⟨-, hnil⟩ | ⟨d, task, outcome, hm⟩
      · have hnil' : (m.step client).stack = [] := hs.trans hnil
        refine .still (hw.roster_eq c) ?_ ?_ ?_
        · unfold Machine.passes
          rw [hs]
        · unfold Machine.completes
          rw [hnil]
          split
          · next hstack => cases hstack
          · rfl
        · unfold Machine.discards
          rw [hnil']
      · have hne : ∀ reply, m.control ≠ .deliver reply := by
          intro reply hc
          cases hm.symm.trans hc
        refine .still (hw.roster_eq c) ?_ (Machine.completes_of_not_deliver hne) ?_
        · unfold Machine.passes
          rw [hs]
        · exact Machine.discards_of_clean (hs ▸ horderly.deliver hne) c

/-! ### Passes that are about to end -/

/-- A pass that goes on is about to end only if it has its turn again. -/
theorem Pass.Next.frames {p : Pass} {w : World β} {q : Progress β} {ids : List TaskId}
    {rest : List (List TaskId)} (h : p.Next w ids rest q) :
    (∀ f ∈ q.frames, ∀ p', f ≠ .finishPass p') ∨
      ∃ p' reply, q.frames = [.finishPass p'] ∧ q.control = .deliver reply := by
  cases h with
  | polls ids' p' hids hw hf hc hfinished hcurrent =>
      left
      rw [hf]
      intro f hf p''
      rw [List.mem_singleton.mp hf]
      exact nofun
  | discards ids' p' id hids hlast hw hf hc hfinished hcurrent hcontrol =>
      obtain ⟨reply, hcontrol⟩ := hcontrol
      exact .inr ⟨p', reply, hf, hcontrol⟩
  | ends ids' hids htasks hw hf =>
      left
      rw [hf]
      exact fun _ hf => (by cases hf)

theorem Pass.frames_resume {p : Pass} {w : World β} {reply : Reply β} {ids : List TaskId}
    {rest : List (List TaskId)} (hrest : (w.roster p.context).passes = ids :: rest) :
    (∀ f ∈ (p.resume w reply).frames, ∀ p', f ≠ .finishPass p') ∨
      ∃ p' r, (p.resume w reply).frames = [.finishPass p'] ∧
        (p.resume w reply).control = .deliver r := by
  cases reply with
  | returned outcome =>
      show (∀ f ∈ (p.taskFinished w outcome).frames, _) ∨ ∃ p' r, (p.taskFinished w outcome).frames = _ ∧
        (p.taskFinished w outcome).control = _
      unfold Pass.taskFinished
      split
      · exact (Pass.next_beginRound hrest).frames
      · left
        intro f hf p'
        rw [List.mem_singleton.mp hf]
        exact nofun
  | suspended => exact (Pass.next_taskWaits hrest).frames
  | _ => exact (Pass.next_beginRound hrest).frames

/-- What follows is orderly if only the innermost pass may be about to end. -/
theorem Machine.Orderly.of_follows {q : Progress β} (h : m'.Follows q stack)
    (hclean : ∀ layer ∈ stack, layer.isFinishing = false)
    (hq : (∀ f ∈ q.frames, ∀ p, f ≠ .finishPass p) ∨
      ∃ p reply, q.frames = [.finishPass p] ∧ q.control = .deliver reply) : Orderly m' := by
  rcases hq with hq | ⟨p, reply, hf, hc⟩
  · refine .of_clean fun layer hl => ?_
    rw [h.stack] at hl
    rcases List.mem_append.mp hl with hl | hl
    · obtain ⟨f, hf, rfl⟩ := List.mem_map.mp hl
      have hne := hq f hf
      cases f with
      | finishPass p => exact absurd rfl (hne p)
      | _ => rfl
    · exact hclean layer hl
  · refine ⟨fun layer hl => ?_, fun hne => absurd (h.control.trans hc) (hne reply)⟩
    rw [h.stack, hf] at hl
    exact hclean layer hl

theorem Progress.Taskless.not_finishing {w : World β} {q : Progress β} (h : q.Taskless w) :
    ∀ f ∈ q.frames, ∀ p, f ≠ .finishPass p := by
  rintro f hf p rfl
  cases h.frames _ hf

/-- What stands below a callback that is entered or goes on is no pass about to end. -/
theorem Machine.Orderly.of_callback {k : κ} {inv : Invocation}
    (hs : m.stack = .callback k inv :: stack) (hclean : ∀ layer ∈ stack, layer.isFinishing = false) :
    Orderly m := by
  refine .of_clean fun layer hl => ?_
  rw [hs] at hl
  rcases List.mem_cons.mp hl with rfl | hl
  · rfl
  · exact hclean layer hl

theorem World.frames_perform (w : World β) (command : Command β) :
    ∀ f ∈ (w.perform command).frames, ∀ p, f ≠ .finishPass p := by
  by_cases hspawn : ∃ d callback, command = .spawn d callback
  · obtain ⟨d, callback, rfl⟩ := hspawn
    exact fun _ hf => (by cases hf)
  · by_cases hiterate : ∃ d, command = .iterate d
    · obtain ⟨d, rfl⟩ := hiterate
      show ∀ f ∈ (w.iterate d).frames, _
      unfold World.iterate
      split
      · exact fun _ hf => (by cases hf)
      · split
        · simp [Progress.proceed]
        · simp [Progress.proceed]
    · refine Progress.Taskless.not_finishing (World.taskless_perform w ?_ ?_)
      · exact fun d callback hc => hspawn ⟨d, callback, hc⟩
      · exact fun d hc => hiterate ⟨d, hc⟩

theorem World.frames_resume (w : World β) {frame : Frame β} (hframe : frame.pass? = none)
    (reply : Reply β) : ∀ f ∈ (frame.resume w reply).frames, ∀ p, f ≠ .finishPass p := by
  by_cases hspawn : ∃ d owner, frame = .readySpawn d owner
  · obtain ⟨d, owner, rfl⟩ := hspawn
    show ∀ f ∈ (w.spawnReady d owner reply).frames, _
    unfold World.spawnReady
    split <;> exact fun _ hf => (by cases hf)
  · refine Progress.Taskless.not_finishing (World.taskless_resume w hframe ?_ reply)
    exact fun d owner hf => hspawn ⟨d, owner, hf⟩

/-- Passes about to end stay on top. -/
theorem Machine.Orderly.step (client : Client σ β κ) (h : Orderly m)
    (hmanned : ∀ c, Manned m c) : Orderly (m.step client) := by
  cases Machine.moved_step client m with
  | performs command hm hf =>
      have hclean := h.deliver fun reply hc => by cases hm.symm.trans hc
      exact .of_follows hf hclean (.inl (World.frames_perform m.world command))
  | resumes frame reply stack hm hs hf =>
      have hclean := h.below
      rw [hs, List.tail_cons] at hclean
      refine .of_follows hf hclean ?_
      cases hframe : frame.pass? with
      | none => exact .inl (World.frames_resume m.world hframe reply)
      | some p =>
          obtain ⟨ids, rest, hrest, hcurrent⟩ :=
            Machine.Manned.innermost hs hframe (hmanned p.context)
          cases frame with
          | pass p' =>
              cases hframe
              exact Pass.frames_resume hrest
          | finishPass p' =>
              cases hframe
              exact (Pass.next_finish hrest hcurrent).frames
          | _ => cases hframe
  | enters rest inv reply hm hw hs hc =>
      refine .of_callback hs (h.deliver fun reply hc => ?_)
      rcases hm with ⟨callback, hm⟩ | ⟨d, task, outcome, hm⟩ <;> cases hm.symm.trans hc
  | asks command k k' inv stack hw hs hs' hc =>
      have hbelow := h.below
      rw [hs, List.tail_cons] at hbelow
      exact .of_callback hs' hbelow
  | goesOn reply k k' inv stack hw hs hs' hc =>
      have hbelow := h.below
      rw [hs, List.tail_cons] at hbelow
      exact .of_callback hs' hbelow
  | leaves reply k inv stack hw hs hs' hc hr =>
      have hbelow := h.below
      rw [hs, List.tail_cons] at hbelow
      exact .of_clean (hs' ▸ hbelow)
  | rests reply hw hs hm hc =>
      refine .of_clean ?_
      rw [hs]
      rcases hm with ⟨-, hnil⟩ | ⟨d, task, outcome, hm⟩
      · rw [hnil]
        exact fun _ hl => (by cases hl)
      · exact h.deliver fun reply hc => by cases hm.symm.trans hc

end Shift

end ObjectSystem
