import Mathlib
import ObjectSystem.Proofs.Gates
import ObjectSystem.Proofs.Launches
import ObjectSystem.Proofs.Sound
import ObjectSystem.Proofs.Taskless

/-!
# Sources that count down

The callback of a source *counts down* if it does nothing but end, asks to stay as often as its
counter says, and then no more (`Client.CountsDown`). A `Ledger` has a context and what the counters
of its sources say; what it says to be due, the turn of a source takes one off (`AtRest.turn`).

A `Stint` is what a run of a loop counts on as long as it lasts. Between the turns of the sources it
is at rest (`AtRest`), and the steps from rest to rest are a `Leg`: what was due before has been
launched or is due still. The measure of all that is to be done, `owed`, is therefore smaller after a
leg in which a source was launched.
-/

namespace ObjectSystem

variable {σ β κ : Type}

open Machine (Reachable)

/-! ## Ledgers -/

theorem MainContext.isPending_iff {x : MainContext β} {id : SourceId} :
    x.isPending id = true ↔ ∃ s ∈ x.sources, s.id = id := by
  simp [isPending, source?]

/-- A context, and how often the callback of each of its sources will still ask to stay. -/
structure Ledger (β : Type) where
  context : MainContext β
  left : SourceId → Nat

namespace Ledger

variable {a : Ledger β} {id : SourceId}

/-- How often the callback of a source is still to start. -/
def due (a : Ledger β) (id : SourceId) : Nat :=
  if a.context.isPending id then a.left id + 1 else 0

theorem due_eq_zero (h : ∀ s ∈ a.context.sources, s.id ≠ id) : a.due id = 0 :=
  if_neg fun hpending => by
    obtain ⟨s, hs, hid⟩ := MainContext.isPending_iff.mp hpending
    exact h s hs hid

theorem due_congr {b : Ledger β} (hsources : b.context.sources = a.context.sources)
    (hleft : b.left = a.left) : b.due = a.due := by
  funext id
  unfold due MainContext.isPending MainContext.source?
  rw [hsources, hleft]

end Ledger

/-! ### The turn of a source -/

namespace MainContext

variable {x : MainContext β} {id : SourceId}

/-- The context in which a source runs. -/
def begun (x : MainContext β) (id : SourceId) : MainContext β :=
  x.modifySource id fun s => { s with running := true }

/-- The context after a source has had its turn. -/
def serve (x : MainContext β) (id : SourceId) (stays : Bool) : MainContext β :=
  (x.begun id).endRun id stays

/-- A source that stays and does not run any more. -/
def rested (now : Nat) (s : Source β) : Source β :=
  rearm now { s with running := true }

theorem fields_rested (now : Nat) (s : Source β) : (rested now s).id = s.id ∧
    (rested now s).kind = s.kind ∧ (rested now s).work = s.work ∧ (rested now s).running = false := by
  unfold rested rearm
  dsimp only
  split
  · next hkind => exact ⟨rfl, rfl, rfl, rfl⟩
  · next interval hkind => exact ⟨rfl, rfl, rfl, rfl⟩

theorem mem_begun {s : Source β} (hs : s ∈ x.sources) :
    { s with running := true } ∈ (x.begun s.id).sources :=
  List.mem_map.mpr ⟨s, hs, if_pos rfl⟩

theorem sources_serve_true : (x.serve id true).sources =
    x.sources.map fun s => if s.id = id then rested x.now s else s := by
  show (x.sources.map _).map _ = _
  rw [List.map_map]
  refine List.map_congr_left fun s _ => ?_
  by_cases h : s.id = id
  · simp [h, rested, begun, modifySource]
  · simp [h]

theorem sources_serve_false : (x.serve id false).sources = x.sources.filter (·.id ≠ id) := by
  show (x.sources.map _).filter _ = _
  rw [List.filter_map]
  have hkept : x.sources.filter ((fun s => decide (s.id ≠ id)) ∘ fun s =>
      if s.id = id then { s with running := true } else s) = x.sources.filter (·.id ≠ id) := by
    refine List.filter_congr fun s _ => ?_
    by_cases h : s.id = id <;> simp [h]
  rw [hkept]
  refine (List.map_congr_left fun s hs => ?_).trans (List.map_id _)
  rw [if_neg (by simpa using (List.mem_filter.mp hs).2)]
  rfl

/-- A source that is attached after the turn is another, or the same as before at rest. -/
theorem mem_serve {stays : Bool} {s : Source β} (h : s ∈ (x.serve id stays).sources) :
    s ∈ x.sources ∧ s.id ≠ id ∨ stays = true ∧ ∃ q ∈ x.sources, q.id = id ∧ s = rested x.now q := by
  cases stays with
  | false =>
      rw [sources_serve_false, List.mem_filter] at h
      exact .inl ⟨h.1, by simpa using h.2⟩
  | true =>
      rw [sources_serve_true] at h
      obtain ⟨q, hq, rfl⟩ := List.mem_map.mp h
      by_cases hid : q.id = id
      · rw [if_pos hid]
        exact .inr ⟨rfl, q, hq, hid, rfl⟩
      · rw [if_neg hid]
        exact .inl ⟨hq, hid⟩

theorem mem_serve_of_ne {stays : Bool} {s : Source β} (hs : s ∈ x.sources) (hne : s.id ≠ id) :
    s ∈ (x.serve id stays).sources := by
  cases stays with
  | false =>
      rw [sources_serve_false]
      exact List.mem_filter.mpr ⟨hs, by simpa using hne⟩
  | true =>
      rw [sources_serve_true]
      exact List.mem_map.mpr ⟨s, hs, if_neg hne⟩

theorem isPending_serve {stays : Bool} (other : SourceId) : (x.serve id stays).isPending other =
    if other = id then stays && x.isPending id else x.isPending other := by
  rw [Bool.eq_iff_iff, isPending_iff]
  constructor
  · rintro ⟨s, hs, rfl⟩
    rcases mem_serve hs with ⟨hs, hne⟩ | ⟨rfl, q, hq, rfl, rfl⟩
    · rw [if_neg hne]
      exact isPending_iff.mpr ⟨s, hs, rfl⟩
    · rw [(fields_rested x.now q).1, if_pos rfl, Bool.true_and]
      exact isPending_iff.mpr ⟨q, hq, rfl⟩
  · intro h
    by_cases hother : other = id
    · rw [if_pos hother, Bool.and_eq_true, isPending_iff] at h
      obtain ⟨rfl, q, hq, hid⟩ := h
      refine ⟨rested x.now q, ?_, (fields_rested x.now q).1.trans (hid.trans hother.symm)⟩
      rw [sources_serve_true]
      exact List.mem_map.mpr ⟨q, hq, if_pos hid⟩
    · rw [if_neg hother, isPending_iff] at h
      obtain ⟨q, hq, rfl⟩ := h
      exact ⟨q, mem_serve_of_ne hq hother, rfl⟩

theorem fields_serve (x : MainContext β) (id : SourceId) (stays : Bool) :
    (x.serve id stays).config = x.config ∧ (x.serve id stays).now = x.now ∧
      (x.serve id stays).heldTasks = x.heldTasks ∧
      (x.serve id stays).tasksReady = x.tasksReady := by
  cases stays <;> exact ⟨rfl, rfl, rfl, rfl⟩

end MainContext

namespace Ledger

/-- The ledger after a source has had its turn. -/
def serve (a : Ledger β) (id : SourceId) : Ledger β where
  context := a.context.serve id (decide (0 < a.left id))
  left := Function.update a.left id (a.left id - 1)

/-- A turn takes one off what is due. -/
theorem due_serve {a : Ledger β} {s : Source β} (hs : s ∈ a.context.sources) (id : SourceId) :
    [s.id].count id + (a.serve s.id).due id = a.due id := by
  have hpending := MainContext.isPending_iff.mpr ⟨s, hs, rfl⟩
  unfold due serve
  rw [MainContext.isPending_serve]
  by_cases hid : id = s.id
  · subst hid
    simp only [if_pos, Function.update_self, hpending, Bool.and_true, decide_eq_true_eq,
      List.count_singleton_self]
    split <;> omega
  · rw [if_neg hid]
    simp [Function.update_of_ne hid, Ne.symm hid]

end Ledger

/-- The callback of a source counts down: it does nothing but end, it asks to stay as long as its
counter is not zero, and takes one off it. `counts` says of a state of the client what counters it
has. -/
def Client.CountsDown (client : Client σ β κ) (c : ContextId)
    (counts : σ → (SourceId → Nat) → Prop) (id : SourceId) (callback : β) : Prop :=
  ∀ w v state left, counts state left →
    ∃ state' outcome,
      client.resume v (client.start w state callback { role := .source c id }).1
          (client.start w state callback { role := .source c id }).2 .proceed =
        (state', .finish outcome) ∧
      outcome.stays = decide (0 < left id) ∧
      counts state' (Function.update left id (left id - 1))

/-! ## Stints -/

/-- What a run of a loop counts on as long as it lasts. -/
structure Stint (σ β κ : Type) where
  client : Client σ β κ
  context : ContextId
  loop : LoopId
  /-- What states of the client say of the counters. -/
  counts : σ → (SourceId → Nat) → Prop
  /-- The sources that were attached in the beginning. -/
  ids : List SourceId
  /-- The sources that iterations below the run have collected. -/
  waiting : List SourceId
  /-- The number of layers below the run. -/
  height : Nat

namespace Stint

/-- A source that counts down and that the run can get hold of. -/
structure Serves (r : Stint σ β κ) (left : SourceId → Nat) (s : Source β) : Prop where
  known : s.id ∈ r.ids
  apart : s.id ∉ r.waiting
  work : ∃ once callback, s.work = World.callbackWork once callback ∧
    r.client.CountsDown r.context r.counts s.id callback ∧ (once = true → left s.id = 0)

/-- A state in the run, with what there is in the context. -/
structure Tends (r : Stint σ β κ) (m : Machine σ β κ) (x : MainContext β) : Prop where
  reach : Reachable r.client m
  context : m.world.context? r.context = some x
  manual : x.config.clock = .manual
  taskless : x.heldTasks = []
  running : m.world.loops.find? r.loop = some { context := r.context, running := true }

/-- Between the turns of its sources, none runs. -/
structure AtRest (r : Stint σ β κ) (m : Machine σ β κ) (a : Ledger β) : Prop
    extends r.Tends m a.context where
  counts : r.counts m.client a.left
  still : ∀ s ∈ a.context.sources, s.running = false
  serves : ∀ s ∈ a.context.sources, r.Serves a.left s

/-- Some steps of the run from rest to rest, during which it does not return. What has started and
what is due then make what was due before. -/
structure Leg (r : Stint σ β κ) (m : Machine σ β κ) (a : Ledger β) (n : Nat) (b : Ledger β) :
    Prop where
  busy : ∀ i, i < n → r.height < (m.after r.client i).stack.length
  rest : r.AtRest (m.after r.client n) b
  launches : ∀ id, (m.launches r.client r.context n).count id + b.due id = a.due id
  tasks : b.context.tasksReady = true → a.context.tasksReady = true

/-- Such steps at one time of the clock. -/
structure Round (r : Stint σ β κ) (m : Machine σ β κ) (a : Ledger β) (n : Nat) (b : Ledger β) :
    Prop extends r.Leg m a n b where
  now : b.context.now = a.context.now
  deadlines : ∀ deadline ∈ m.deadlines r.client r.context n, deadline = a.context.now

section
variable {r : Stint σ β κ} {m : Machine σ β κ} {a b d : Ledger β} {j k n : Nat}

theorem Leg.trans (h : r.Leg m a j b) (g : r.Leg (m.after r.client j) b k d) :
    r.Leg m a (j + k) d where
  busy i hi := by
    rcases Nat.lt_or_ge i j with hij | hji
    · exact h.busy i hij
    · obtain ⟨i, rfl⟩ := Nat.exists_eq_add_of_le hji
      rw [Machine.after_add]
      exact g.busy i (by omega)
  rest := by
    rw [Machine.after_add]
    exact g.rest
  launches id := by
    rw [Machine.launches_add, List.count_append]
    have hfirst := h.launches id
    have hsecond := g.launches id
    omega
  tasks hready := h.tasks (g.tasks hready)

theorem Round.trans (h : r.Round m a j b) (g : r.Round (m.after r.client j) b k d) :
    r.Round m a (j + k) d where
  toLeg := h.toLeg.trans g.toLeg
  now := g.now.trans h.now
  deadlines deadline hmem := by
    rw [Machine.deadlines_add] at hmem
    rcases List.mem_append.mp hmem with hmem | hmem
    · exact h.deadlines deadline hmem
    · exact (g.deadlines deadline hmem).trans h.now

/-! ### What is left to do -/

/-- How many starts of callbacks are due, and a pass over the tasks if one is. -/
def owed (r : Stint σ β κ) (a : Ledger β) : Nat :=
  (r.ids.map a.due).sum + a.context.tasksReady.toNat

theorem Leg.due_le (h : r.Leg m a n b) (id : SourceId) : b.due id ≤ a.due id :=
  Nat.le_of_add_left_le (Nat.le_of_eq (h.launches id))

theorem Leg.toNat_tasksReady_le (h : r.Leg m a n b) :
    b.context.tasksReady.toNat ≤ a.context.tasksReady.toNat := by
  cases hready : b.context.tasksReady with
  | false => exact Nat.zero_le _
  | true => rw [h.tasks hready]

theorem Leg.owed_le (h : r.Leg m a n b) : r.owed b ≤ r.owed a :=
  Nat.add_le_add (List.sum_le_sum fun id _ => h.due_le id) h.toNat_tasksReady_le

theorem Leg.owed_lt_of_tasks (h : r.Leg m a n b) (hready : a.context.tasksReady = true)
    (hdone : b.context.tasksReady = false) : r.owed b < r.owed a := by
  have hle : (r.ids.map b.due).sum ≤ (r.ids.map a.due).sum :=
    List.sum_le_sum fun id _ => h.due_le id
  unfold owed
  rw [hready, hdone]
  exact Nat.lt_succ_of_le hle

/-- Each start leaves less to do. -/
theorem Leg.owed_lt_of_launch (h : r.Leg m a n b) (hrest : r.AtRest m a) {id : SourceId}
    (hid : id ∈ m.launches r.client r.context n) : r.owed b < r.owed a := by
  have hpos := List.count_pos_iff.mpr hid
  have hlaunches := h.launches id
  have hknown : id ∈ r.ids := by
    refine Classical.byContradiction fun hunknown => ?_
    have hzero : a.due id = 0 :=
      Ledger.due_eq_zero fun s hs heq => hunknown (heq ▸ (hrest.serves s hs).known)
    omega
  have hlt : (r.ids.map b.due).sum < (r.ids.map a.due).sum :=
    List.sum_lt_sum _ _ (fun id _ => h.due_le id) ⟨id, hknown, by omega⟩
  exact Nat.add_lt_add_of_lt_of_le hlt h.toNat_tasksReady_le

end

/-! ## Steps without starts -/

section
variable {r : Stint σ β κ} {m : Machine σ β κ} {a : Ledger β} {base : List (Layer β κ)}
  {p : Progress β} {x y : MainContext β}

theorem Tends.sound (h : r.Tends m x) :
    x.timetable.Sound (m.desk r.context).waiting (m.desk r.context).running :=
  (h.reach.desk r.context).present _ (World.timetable?_eq h.context)

theorem Tends.step (h : r.Tends m x)
    (hctx : (m.advance r.client).world.context? r.context = some y)
    (hloops : (m.advance r.client).world.loops = m.world.loops) (hconfig : y.config = x.config)
    (htaskless : y.heldTasks = []) : r.Tends (m.step r.client) y where
  reach := h.reach.step
  context := Machine.context?_step hctx htaskless
  manual := hconfig ▸ h.manual
  taskless := htaskless
  running := by
    rw [(Machine.fades_step r.client m).loops, hloops]
    exact h.running

/-- A step of an operation in the run. -/
theorem Tends.follow (h : r.Tends m x) (hadvance : m.advance r.client = m.follow r.client base p)
    (hctx : p.world.context? r.context = some y) (hloops : p.world.loops = m.world.loops)
    (hconfig : y.config = x.config) (htaskless : y.heldTasks = []) :
    r.Tends (m.step r.client) y ∧ (m.step r.client).stack = p.frames.map .operation ++ base ∧
      (m.step r.client).control = p.control := by
  have hf := Machine.follows_of_advance r.client hadvance
  refine ⟨h.step ?_ ?_ hconfig htaskless, hf.stack, hf.control⟩
  · rw [hadvance]
    exact hctx
  · rw [hadvance]
    exact hloops

/-- A context has the sources of another and no tasks either. -/
structure Resembles (y x : MainContext β) : Prop where
  config : y.config = x.config
  sources : y.sources = x.sources
  taskless : y.heldTasks = []
  tasks : y.tasksReady = true → x.tasksReady = true

theorem Resembles.refl (h : x.heldTasks = []) : Resembles x x :=
  ⟨rfl, rfl, h, id⟩

/-- A step of an operation that leaves the sources as they are is a leg of its own. -/
theorem AtRest.quiet (h : r.AtRest m a) (hbusy : r.height < m.stack.length)
    (hlaunch : m.launch? r.context = none)
    (hadvance : m.advance r.client = m.follow r.client base p) (hreport : p.report = none)
    (hctx : p.world.context? r.context = some y) (hloops : p.world.loops = m.world.loops)
    (hlike : Resembles y a.context) :
    r.Leg m a 1 ⟨y, a.left⟩ ∧ (m.step r.client).stack = p.frames.map .operation ++ base ∧
      (m.step r.client).control = p.control := by
  obtain ⟨htends, hstack, hcontrol⟩ := h.toTends.follow hadvance hctx hloops hlike.config
    hlike.taskless
  have hclient : (m.step r.client).client = m.client := by
    rw [Machine.client_step, hadvance, Machine.follow, hreport]
  refine ⟨⟨fun i hi => ?_, ⟨htends, ?_, ?_, ?_⟩, fun id => ?_, hlike.tasks⟩, hstack, hcontrol⟩
  · obtain rfl := Nat.lt_one_iff.mp hi
    exact hbusy
  · exact hclient ▸ h.counts
  · exact hlike.sources ▸ h.still
  · exact hlike.sources ▸ h.serves
  · rw [(Machine.silent_of_launch? r.client hlaunch).1]
    have hdue : Ledger.due ⟨y, a.left⟩ = a.due := Ledger.due_congr hlike.sources rfl
    rw [hdue]
    exact Nat.zero_add _

/-- If it leaves the clock alone as well, it is a round. -/
theorem AtRest.quietRound (h : r.AtRest m a) (hbusy : r.height < m.stack.length)
    (hlaunch : m.launch? r.context = none)
    (hadvance : m.advance r.client = m.follow r.client base p) (hreport : p.report = none)
    (hctx : p.world.context? r.context = some y) (hloops : p.world.loops = m.world.loops)
    (hlike : Resembles y a.context) (hnow : y.now = a.context.now) :
    r.Round m a 1 ⟨y, a.left⟩ ∧ (m.step r.client).stack = p.frames.map .operation ++ base ∧
      (m.step r.client).control = p.control := by
  obtain ⟨hleg, hends⟩ := h.quiet hbusy hlaunch hadvance hreport hctx hloops hlike
  refine ⟨⟨hleg, hnow, fun deadline hmem => ?_⟩, hends⟩
  rw [(Machine.silent_of_launch? r.client hlaunch).2] at hmem
  cases hmem

end

/-! ## Turns -/

section
variable {r : Stint σ β κ} {m : Machine σ β κ} {a : Ledger β} {stack : List (Layer β κ)}
  {left : SourceId → Nat} {x y : MainContext β}

/-- A callback that counts down starts and ends. -/
theorem Tends.calls (h : r.Tends m x) {id : SourceId} {callback : β}
    (hcounts : r.counts m.client left)
    (hdown : r.client.CountsDown r.context r.counts id callback)
    (hm : m.control = .invoke callback { role := .source r.context id }) :
    r.Tends (m.after r.client 2) x ∧
      (m.after r.client 1).stack.length = m.stack.length + 1 ∧
      (m.after r.client 1).launch? r.context = none ∧
      (m.after r.client 2).stack = m.stack ∧
      r.counts (m.after r.client 2).client (Function.update left id (left id - 1)) ∧
      ∃ outcome, (m.after r.client 2).control = .deliver (.returned outcome) ∧
        outcome.stays = decide (0 < left id) := by
  have hadvance := Machine.advance_invoke r.client hm
  obtain ⟨hstack₁, hcontrol₁, hclient₁⟩ := Machine.step_fields r.client hadvance
  have h₁ : r.Tends (m.step r.client) x :=
    h.step (by rw [hadvance]; exact h.context) (by rw [hadvance]) rfl h.taskless
  obtain ⟨state, outcome, hresume, hstays, hcounts'⟩ :=
    hdown m.world (m.step r.client).world m.client left hcounts
  dsimp only at hclient₁
  rw [← hclient₁] at hresume
  have hadvance₁ := Machine.advance_finish r.client hcontrol₁ hstack₁ hresume
  obtain ⟨hstack₂, hcontrol₂, hclient₂⟩ := Machine.step_fields r.client hadvance₁
  refine ⟨h₁.step (by rw [hadvance₁]; exact h₁.context) (by rw [hadvance₁]) rfl h.taskless,
    congrArg List.length hstack₁, Machine.launch?_of_deliver hcontrol₁, hstack₂, ?_, outcome,
    hcontrol₂, hstays⟩
  exact hclient₂ ▸ hcounts'

/-- The turn of a source begins. -/
theorem AtRest.begins (h : r.AtRest m a) {s : Source β} (hsource : s ∈ a.context.sources)
    {ready : List SourceId} {worked : Bool} {reply : Reply β}
    (hs : m.stack = .operation (.iteration r.context (s.id :: ready) worked) :: stack)
    (hm : m.control = .deliver reply) {once : Bool} {callback : β}
    (hwork : s.work = World.callbackWork once callback) :
    r.Tends (m.step r.client) (a.context.begun s.id) ∧
      (m.step r.client).stack = .operation (.sourceEnd r.context s.id s.work.mayStay) ::
        .operation (.iteration r.context ready worked) :: stack ∧
      (m.step r.client).control = .invoke callback { role := .source r.context s.id } ∧
      (m.step r.client).client = m.client := by
  have hfound : a.context.source? s.id = some s := h.sound.source?_of_mem hsource
  have hbegin : (m.world.context? r.context).bind (·.beginRun s.id) =
      some (a.context.begun s.id, s.work) := by
    rw [h.context, Option.bind_some, MainContext.beginRun, hfound]
    dsimp only
    rw [h.still s hsource, if_neg Bool.false_ne_true]
    rfl
  have hadvance : m.advance r.client = m.follow r.client stack (.invoke
      (m.world.setContext r.context (a.context.begun s.id)) callback
      { role := .source r.context s.id }
      [.sourceEnd r.context s.id s.work.mayStay, .iteration r.context ready worked]) := by
    rw [Machine.advance_resume r.client hm hs]
    show m.follow r.client stack (m.world.continueIteration r.context (s.id :: ready) worked) = _
    simp only [World.continueIteration, hbegin, hwork]
    cases once <;> rfl
  have hctx : (m.world.setContext r.context (a.context.begun s.id)).context? r.context =
      some (a.context.begun s.id) :=
    (World.context?_setContext m.world h.context).trans (if_pos rfl)
  obtain ⟨htends, hstack, hcontrol⟩ := h.follow hadvance hctx rfl rfl h.taskless
  exact ⟨htends, hstack, hcontrol, (Machine.step_fields r.client hadvance).2.2⟩

/-- The turn of a source ends. -/
theorem Tends.ends (h : r.Tends m x) {id : SourceId} {mayStay : Bool} {outcome : Outcome β}
    (hs : m.stack = .operation (.sourceEnd r.context id mayStay) :: stack)
    (hm : m.control = .deliver (.returned outcome)) :
    r.Tends (m.step r.client) (x.endRun id (mayStay && outcome.stays)) ∧
      (m.step r.client).stack = stack ∧ (m.step r.client).control = .deliver .proceed ∧
      (m.step r.client).client = m.client := by
  have hadvance : m.advance r.client = m.follow r.client stack (.proceed
      (m.world.modifyContext r.context (·.endRun id (mayStay && outcome.stays))) []) :=
    Machine.advance_resume r.client hm hs
  have hfields : (x.endRun id (mayStay && outcome.stays)).config = x.config ∧
      (x.endRun id (mayStay && outcome.stays)).heldTasks = x.heldTasks := by
    unfold MainContext.endRun
    split <;> exact ⟨rfl, rfl⟩
  have hctx : (m.world.modifyContext r.context (·.endRun id (mayStay && outcome.stays))).context?
      r.context = some (x.endRun id (mayStay && outcome.stays)) := by
    rw [World.context?_modifyContext, if_pos rfl, h.context]
    rfl
  obtain ⟨htends, hstack, hcontrol⟩ :=
    h.follow hadvance hctx rfl hfields.1 (hfields.2.trans h.taskless)
  exact ⟨htends, hstack, hcontrol, (Machine.step_fields r.client hadvance).2.2⟩

/-- Whether a source stays is told by its counter. -/
theorem Serves.stays {s : Source β} {once : Bool} {callback : β} {outcome : Outcome β}
    (hwork : s.work = World.callbackWork once callback) (honce : once = true → left s.id = 0)
    (hstays : outcome.stays = decide (0 < left s.id)) :
    (s.work.mayStay && outcome.stays) = decide (0 < left s.id) := by
  rw [hwork, hstays]
  cases once with
  | false => rfl
  | true =>
      rw [honce rfl]
      rfl

/-- After the turn of a source, each that is attached can have its turn. -/
theorem serves_turn (h : ∀ s ∈ a.context.sources, r.Serves a.left s) {id : SourceId}
    {q : Source β} (hq : q ∈ (a.serve id).context.sources) :
    r.Serves (a.serve id).left q := by
  rcases MainContext.mem_serve hq with ⟨hq, hne⟩ | ⟨hstays, s, hs, rfl, rfl⟩
  · obtain ⟨hknown, hapart, once, callback, hwork, hdown, honce⟩ := h q hq
    refine ⟨hknown, hapart, once, callback, hwork, hdown, fun htrue => ?_⟩
    exact (Function.update_of_ne hne _ _).trans (honce htrue)
  · obtain ⟨hid, -, hsame, -⟩ := MainContext.fields_rested a.context.now s
    obtain ⟨hknown, hapart, once, callback, hwork, hdown, honce⟩ := h s hs
    refine ⟨hid ▸ hknown, hid ▸ hapart, once, callback, hsame.trans hwork, hid ▸ hdown,
      fun htrue => ?_⟩
    -- what runs once does not stay
    have hzero := honce htrue
    have hpos := of_decide_eq_true hstays
    omega

theorem still_turn (h : ∀ s ∈ a.context.sources, s.running = false) {id : SourceId}
    {q : Source β} (hq : q ∈ (a.serve id).context.sources) : q.running = false := by
  rcases MainContext.mem_serve hq with ⟨hq, -⟩ | ⟨-, s, -, -, rfl⟩
  · exact h q hq
  · exact (MainContext.fields_rested a.context.now s).2.2.2

/-- What starts in a turn. -/
theorem Tends.launched {s : Source β} (h : r.Tends m (x.begun s.id)) (hsource : s ∈ x.sources)
    {callback : β} (hm : m.control = .invoke callback { role := .source r.context s.id }) :
    m.launch? r.context = some s.id ∧
      m.deadline? r.context = if s.kind.isIdle then none else some s.readyAt := by
  have hlaunch : m.launch? r.context = some s.id := by
    unfold Machine.launch?
    rw [hm]
    exact if_pos rfl
  have hfound : m.source? r.context s.id = some { s with running := true } := by
    rw [Machine.source?_eq (World.timetable?_eq h.context)]
    exact h.sound.source?_of_mem (MainContext.mem_begun hsource)
  refine ⟨hlaunch, ?_⟩
  rw [Machine.deadline?, hlaunch, Option.bind_some, hfound, Option.bind_some]

/-- **The turn of a source**: its callback starts once, and what is due is one less. -/
theorem AtRest.turn (h : r.AtRest m a) {s : Source β} (hsource : s ∈ a.context.sources)
    {ready : List SourceId} {worked : Bool} {reply : Reply β}
    (hs : m.stack = .operation (.iteration r.context (s.id :: ready) worked) :: stack)
    (hm : m.control = .deliver reply) (hheight : r.height ≤ stack.length) :
    r.Leg m a 4 (a.serve s.id) ∧
      (m.after r.client 4).stack = .operation (.iteration r.context ready worked) :: stack ∧
      (m.after r.client 4).control = .deliver .proceed ∧
      m.launches r.client r.context 4 = [s.id] ∧
      m.deadlines r.client r.context 4 = if s.kind.isIdle then [] else [s.readyAt] := by
  obtain ⟨once, callback, hwork, hdown, honce⟩ := (h.serves s hsource).work
  obtain ⟨h₁, hs₁, hm₁, hclient₁⟩ := h.begins hsource hs hm hwork
  obtain ⟨h₃, hlength₂, hlaunch₂, hs₃, hcounts₃, outcome, hm₃, hstays⟩ :=
    h₁.calls (hclient₁ ▸ h.counts) hdown hm₁
  obtain ⟨h₄, hs₄, hm₄, hclient₄⟩ := h₃.ends (hs₃.trans hs₁) hm₃
  rw [Serves.stays hwork honce hstays] at h₄
  obtain ⟨hlaunch₁, hdeadline₁⟩ := h₁.launched hsource hm₁
  have hquiet : ∀ i, i < 4 → i ≠ 1 → (m.after r.client i).launch? r.context = none := by
    intro i hi hne
    obtain rfl | rfl | rfl : i = 0 ∨ i = 2 ∨ i = 3 := by omega
    · exact Machine.launch?_of_deliver hm
    · exact hlaunch₂
    · exact Machine.launch?_of_deliver hm₃
  have hlaunches : m.launches r.client r.context 4 = [s.id] := by
    rw [Machine.launches, Machine.log_eq_of_once (j := 1) (by decide) hquiet]
    exact congrArg Option.toList hlaunch₁
  have hdeadlines : m.deadlines r.client r.context 4 =
      if s.kind.isIdle then [] else [s.readyAt] := by
    rw [Machine.deadlines, Machine.log_eq_of_once (j := 1) (by decide) fun i hi hne =>
      Machine.deadline?_of_launch? (hquiet i hi hne)]
    refine (congrArg Option.toList hdeadline₁).trans ?_
    split <;> rfl
  refine ⟨⟨fun i hi => ?_, ⟨h₄, ?_, fun q => still_turn h.still, fun q => serves_turn h.serves⟩,
    fun id => ?_, fun hready => ?_⟩, hs₄, hm₄, hlaunches, hdeadlines⟩
  · have hlength₀ : (m.after r.client 0).stack.length = stack.length + 1 :=
      congrArg List.length hs
    have hlength₁ : (m.after r.client 1).stack.length = stack.length + 2 :=
      congrArg List.length hs₁
    have hlength₂ : (m.after r.client 2).stack.length = stack.length + 3 :=
      hlength₂.trans (congrArg (· + 1) hlength₁)
    have hlength₃ : (m.after r.client 3).stack.length = stack.length + 2 :=
      (congrArg List.length hs₃).trans hlength₁
    obtain rfl | rfl | rfl | rfl : i = 0 ∨ i = 1 ∨ i = 2 ∨ i = 3 := by omega
    all_goals omega
  · have hclient : (m.after r.client 4).client = ((m.step r.client).after r.client 2).client :=
      hclient₄
    rw [hclient]
    exact hcounts₃
  · rw [hlaunches]
    exact Ledger.due_serve hsource id
  · obtain ⟨-, -, -, htasks⟩ :=
      MainContext.fields_serve a.context s.id (decide (0 < a.left s.id))
    exact htasks.symm.trans hready

end

end Stint

end ObjectSystem
